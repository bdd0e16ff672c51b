import UnifiedDns.Lib.PrefixCode
import UnifiedDns.Record

/-!
# What the program takes from outside

Third-party and platform functions that the modelled code calls, gathered as parameters.  Nothing is
assumed of them here; a result that needs a fact about one names it as a hypothesis.

* `Platform` — hickory's presentation format and RDATA encoder, and the cryptographic primitives.
* `Platform.plain` — a platform to evaluate the model on; `plain_nameKeyFaithful` says that its
  presentation format tells names apart as it should, `plain_readsStar` that it reads wildcards.
* `TextMap` — a `DashMap<String, _>`.
-/

namespace UnifiedDns

structure Platform where
  /-- `Display` of one label, escapes and IDNA included. -/
  labelText : Label → Text
  /-- One label as `Name::to_ascii` prints it. -/
  labelAscii : Label → Text
  /-- `Name::from_str`. -/
  parseName : Text → Option Name
  /-- `str::to_lowercase`. -/
  lowercase : Text → Text
  /-- `Display` of a record type. -/
  typeText : RecordType → Text
  /-- RDATA in canonical form, when it can be emitted. -/
  rdataWire : RData → Option (List Byte)
  /-- `DNSKEY::calculate_key_tag`. -/
  calculateKeyTag : DNSKEY → Option UInt16
  sha1 : List Byte → List Byte
  sha256 : List Byte → List Byte
  sha384 : List Byte → List Byte
  /-- `verify_signature`: algorithm, public key, signed data, signature. -/
  verifySignature : Byte → List Byte → List Byte → List Byte → Bool
  /-- `PublicKey::verify` of a DNSKEY, which is tried when `verify_signature` says no. -/
  publicKeyVerify : Byte → List Byte → List Byte → List Byte → Bool

/-- The octet `.` of the presentation format. -/
def dot : Byte := 46

/-- The octet `:`. -/
def colon : Byte := 58

/-- An ASCII literal of the source. -/
def asciiText (literal : String) : Text := literal.toList.map fun c => Fin.ofNat 256 c.toNat

namespace Platform

variable (P : Platform)

/-- The labels of a name in presentation format, each followed by a dot; the root is one dot. -/
def presentation (label : Label → Text) (n : Name) : Text :=
  if n.labels.isEmpty then [dot] else n.labels.flatMap fun l => label l ++ [dot]

/-- `Name::to_string`. -/
def nameText (n : Name) : Text := presentation P.labelText n

/-- `Name::to_ascii`. -/
def nameAscii (n : Name) : Text := presentation P.labelAscii n

/-- `name.to_string().to_lowercase()`, the key of every per-name table. -/
def nameKey (n : Name) : Text := P.lowercase (P.nameText n)

/-- What begins with `*.` is read as a wildcard, if it is read at all. -/
def ReadsStar : Prop :=
  ∀ text name, P.parseName (asciiText "*." ++ text) = some name →
    ∃ rest, name.labels = Name.starLabel :: rest

/-- What `verify_rrsig` accepts once the signed data is there. -/
def acceptsSignature (algorithm : Byte) (pubkeyBytes message sig : List Byte) : Bool :=
  P.verifySignature algorithm pubkeyBytes message sig ||
    P.publicKeyVerify algorithm pubkeyBytes message sig

/-- The presentation format tells names apart up to ASCII case, and only up to ASCII case. -/
def NameKeyFaithful : Prop :=
  ∀ a b : Name, P.nameKey a = P.nameKey b ↔ a.path = b.path

end Platform

/-- Cut a text at its dots into labels; the last piece is what stands behind the last dot. -/
def splitDots : Text → List Label
  | [] => [[]]
  | b :: rest =>
      if b = dot then [] :: splitDots rest
      else
        match splitDots rest with
        | [] => [[b]]
        | first :: others => (b :: first) :: others

/-- Letters, digits, hyphen, underscore and asterisk print as themselves. -/
def plainByte (b : Byte) : Bool :=
  (decide (48 ≤ b) && decide (b ≤ 57)) || (decide (65 ≤ b) && decide (b ≤ 90)) ||
    (decide (97 ≤ b) && decide (b ≤ 122)) || decide (b = 45) || decide (b = 95) || decide (b = 42)

/-- A decimal digit of an octet. -/
def digitByte (n : Nat) : Byte := Fin.ofNat 256 (48 + n % 10)

/-- One octet in presentation format: itself, or a backslash and three decimal digits. -/
def escapeByte (b : Byte) : Text :=
  if plainByte b then [b]
  else [92, digitByte (b.val / 100), digitByte (b.val / 10), digitByte b.val]

/-- One label in presentation format. -/
def escapeLabel (l : Label) : Text := l.flatMap escapeByte

/-- A platform to evaluate the model on: names print with the usual escapes, a signature is good when
it is the single octet 1, and every key has tag 1. -/
def Platform.plain : Platform where
  labelText := escapeLabel
  labelAscii := escapeLabel
  parseName text :=
    if h : ValidLabels (splitDots text).dropLast then some ⟨(splitDots text).dropLast, h⟩ else none
  lowercase := List.map lowerByte
  typeText t := if t = .A then [65] else if t = .AAAA then [65, 65, 65, 65] else [85, 110, 107]
  rdataWire
    | .cname target => some (target.labels.flatMap fun l => Fin.ofNat 256 l.length :: l)
    | .a addr => some [addr.o0, addr.o1, addr.o2, addr.o3]
    | _ => some []
  calculateKeyTag _ := some 1
  sha1 := id
  sha256 := id
  sha384 := id
  verifySignature _ _ _ sig := decide (sig = [1])
  publicKeyVerify _ _ _ _ := false

theorem splitDots_ne_nil (text : Text) : splitDots text ≠ [] := by
  cases text with
  | nil => simp [splitDots]
  | cons b rest =>
      simp only [splitDots]
      split
      · simp
      · split
        · simp
        · simp

theorem plain_readsStar : Platform.plain.ReadsStar := by
  intro text name h
  have hstar : splitDots (asciiText "*." ++ text) = Name.starLabel :: splitDots text := rfl
  simp only [Platform.plain, hstar, List.dropLast_cons_of_ne_nil (splitDots_ne_nil text)] at h
  split at h
  · cases h
    exact ⟨_, rfl⟩
  · cases h

theorem map_lowerByte_escapeByte (b : Byte) :
    (escapeByte b).map lowerByte = escapeByte (lowerByte b) := by
  revert b
  decide +kernel

theorem dot_notMem_escapeByte (b : Byte) : dot ∉ escapeByte b := by
  revert b
  decide +kernel

theorem escapeByte_ne_nil (b : Byte) : escapeByte b ≠ [] := by
  unfold escapeByte
  split <;> simp

theorem escapeByte_prefixCode : PrefixCode escapeByte := by
  intro b c u v h
  have hbackslash : plainByte 92 = false := by decide
  have hdigit : ∀ m n, digitByte m = digitByte n → m % 10 = n % 10 := by
    intro m n hmn
    have hval := congrArg Fin.val hmn
    simp only [digitByte, Fin.ofNat] at hval
    omega
  -- The first octet tells an escape from a plain octet, three digits tell escapes apart.
  unfold escapeByte at h
  split at h
  · rename_i hb
    split at h
    · simpa using h
    · have hhead := (List.cons.inj h).1
      rw [hhead, hbackslash] at hb
      cases hb
  · split at h
    · rename_i hc
      have hhead := (List.cons.inj h).1
      rw [← hhead, hbackslash] at hc
      cases hc
    · simp only [List.cons_append, List.nil_append, List.cons.injEq, true_and] at h
      obtain ⟨hhundreds, htens, hones, hrest⟩ := h
      have h₁ := hdigit _ _ hhundreds
      have h₂ := hdigit _ _ htens
      have h₃ := hdigit _ _ hones
      have hb := b.isLt
      have hc := c.isLt
      exact ⟨Fin.ext (by omega), hrest⟩

theorem escapeLabel_injective : Function.Injective escapeLabel :=
  escapeByte_prefixCode.flatMap_injective escapeByte_ne_nil

theorem map_lowerByte_escapeLabel (l : Label) :
    (escapeLabel l).map lowerByte = escapeLabel (lowerLabel l) := by
  simp [escapeLabel, lowerLabel, List.map_flatMap, List.flatMap_map, map_lowerByte_escapeByte]

theorem dot_notMem_escapeLabel (l : Label) : dot ∉ escapeLabel l := by
  simp [escapeLabel, dot_notMem_escapeByte]

/-- A label and the dot behind it. -/
def dottedLabel (l : Label) : Text := escapeLabel l ++ [dot]

theorem dottedLabel_prefixCode : PrefixCode dottedLabel :=
  PrefixCode.of_separator escapeLabel_injective dot_notMem_escapeLabel

theorem plain_nameKey (n : Name) :
    Platform.plain.nameKey n =
      if n.labels.isEmpty then [dot] else (n.labels.map lowerLabel).flatMap dottedLabel := by
  have hdot : lowerByte dot = dot := by decide
  unfold Platform.nameKey Platform.nameText Platform.presentation
  simp only [Platform.plain]
  split
  · rfl
  · simp [List.map_flatMap, List.flatMap_map, dottedLabel, map_lowerByte_escapeLabel, hdot]

/-- Only the root prints as a single dot. -/
theorem flatMap_dottedLabel_ne_dot {labels : List Label} (hvalid : ∀ l ∈ labels, l ≠ [])
    (hne : labels ≠ []) : labels.flatMap dottedLabel ≠ [dot] := by
  intro h
  obtain ⟨l, rest, rfl⟩ := List.exists_cons_of_ne_nil hne
  have hlabel := hvalid l List.mem_cons_self
  have hlen := congrArg List.length h
  have hcode : (escapeLabel l).length ≠ 0 := by
    intro hzero
    have hnil : escapeLabel l = escapeLabel [] := List.length_eq_zero_iff.mp hzero
    exact hlabel (escapeLabel_injective hnil)
  simp only [List.flatMap_cons, List.length_append, dottedLabel, List.length_cons,
    List.length_nil] at hlen
  omega

theorem plain_nameKeyFaithful : Platform.plain.NameKeyFaithful := by
  intro a b
  have hpath : a.path = b.path ↔ a.labels.map lowerLabel = b.labels.map lowerLabel := by
    simp [Name.path]
  have hvalid : ∀ n : Name, ∀ l ∈ n.labels.map lowerLabel, l ≠ [] := by
    intro n l hl hnil
    have hlen := (n.valid.map_lower.1 l hl).1
    rw [hnil] at hlen
    cases hlen
  rw [plain_nameKey, plain_nameKey, hpath]
  -- The root is the exception: it prints as one dot, which no other name does.
  by_cases ha : a.labels = []
  · by_cases hb : b.labels = []
    · simp [ha, hb]
    · have hne := flatMap_dottedLabel_ne_dot (hvalid b) (by simpa using hb)
      simp only [ha, List.isEmpty_nil, if_true, List.isEmpty_iff, hb, if_false, List.map_nil]
      constructor
      · exact fun h => absurd h.symm hne
      · exact fun h => absurd (List.map_eq_nil_iff.mp h.symm) hb
  · by_cases hb : b.labels = []
    · have hne := flatMap_dottedLabel_ne_dot (hvalid a) (by simpa using ha)
      simp only [hb, List.isEmpty_nil, if_true, List.isEmpty_iff, ha, if_false, List.map_nil]
      constructor
      · exact fun h => absurd h hne
      · exact fun h => absurd (List.map_eq_nil_iff.mp h) ha
    · simp only [List.isEmpty_iff, ha, hb, if_false]
      refine ⟨fun h => ?_, fun h => by rw [h]⟩
      refine dottedLabel_prefixCode.flatMap_injective ?_ h
      intro l
      simp [dottedLabel]

/-- A concurrent map keyed by strings. -/
abbrev TextMap (V : Type) := Text → Option V

namespace TextMap

variable {V : Type}

def empty : TextMap V := fun _ => none

def insert (m : TextMap V) (key : Text) (value : V) : TextMap V :=
  fun k => if k = key then some value else m k

def remove (m : TextMap V) (key : Text) : TextMap V :=
  fun k => if k = key then none else m k

@[simp] theorem insert_self (m : TextMap V) (key : Text) (value : V) :
    m.insert key value key = some value := by
  simp [insert]

theorem insert_of_ne (m : TextMap V) {key k : Text} (value : V) (h : k ≠ key) :
    m.insert key value k = m k :=
  if_neg h

@[simp] theorem remove_self (m : TextMap V) (key : Text) : m.remove key key = none :=
  if_pos rfl

theorem remove_of_ne (m : TextMap V) {key k : Text} (h : k ≠ key) : m.remove key k = m k :=
  if_neg h

theorem insert_eq_some {m : TextMap V} {key k : Text} {value v : V}
    (h : m.insert key value k = some v) : (k = key ∧ v = value) ∨ m k = some v := by
  unfold insert at h
  split at h
  · rename_i hk
    exact Or.inl ⟨hk, (Option.some.inj h).symm⟩
  · exact Or.inr h

theorem remove_eq_some {m : TextMap V} {key k : Text} {v : V}
    (h : m.remove key k = some v) : k ≠ key ∧ m k = some v := by
  unfold remove at h
  split at h
  · cases h
  · rename_i hk
    exact ⟨hk, h⟩

end TextMap
end UnifiedDns
