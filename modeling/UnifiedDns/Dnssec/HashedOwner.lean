import Mathlib.Data.List.Forall2
import Mathlib.Data.List.TakeWhile
import UnifiedDns.Dnssec.DnameSubstitution
import UnifiedDns.Lib.BitGroups

/-!
# Hashed owner names

The owner name of an NSEC3 record begins with a hash in base32hex.  `base32hex_decode` keeps the bits it has
not put out yet in a 64-bit word that it never masks, and `nsec3_owner_hash` looks at the length of what
comes out.

* `base32hexEncode` — the text of a sequence of octets, without padding characters.
* `base32hexDecodeFrom_eq` — the loop cuts the bits of the digits into octets and drops the rest.
* `base32hexDecode_encode`, `base32hexEncode_decode` — the two round trips.
* `SurplusDigit` — a first label with one digit more than a hash has.
* `nsec3OwnerHash_encodings_iff` — the owner names that are taken for hashes are encodings, but for these.
-/

namespace UnifiedDns
namespace Dnssec

open BitGroups EscapedText

/-! ### Encoding -/

/-- The digit for a value below 32. -/
def base32hexDigit (v : Nat) : Byte := if v < 10 then Fin.ofNat 256 (48 + v) else Fin.ofNat 256 (55 + v)

/-- The eight bits of an octet. -/
def octetBits (b : Byte) : List Bool := bits 8 b.val

/-- The octet of eight bits. -/
def octet (group : List Bool) : Byte := Fin.ofNat 256 (value group)

/-- base32hex without padding characters: the bits in groups of five, the last filled up with zeros. -/
def base32hexEncode (b : List Byte) : Text :=
  (groups 5 (padded 5 false (b.flatMap octetBits))).map fun group => base32hexDigit (value group)

/-- The digits of a text, in either letter case. -/
def HasDigits (text : Text) (digits : List Nat) : Prop :=
  List.Forall₂ (fun c v => base32hexValue c = some v) (text.map upperByte) digits

theorem length_octetBits (b : Byte) : (octetBits b).length = 8 := length_bits 8 b.val

theorem octet_octetBits (b : Byte) : octet (octetBits b) = b := by
  rw [octet, octetBits, value_bits, Nat.mod_eq_of_lt (by exact b.isLt)]
  exact Fin.ofNat_val_eq_self b

theorem octet_bits (n : Nat) : octet (bits 8 n) = Fin.ofNat 256 n := by
  rw [octet, value_bits]
  apply Fin.ext
  exact Nat.mod_mod _ _

theorem octetBits_octet {group : List Bool} (h : group.length = 8) : octetBits (octet group) = group := by
  rw [octetBits, octet, Fin.val_ofNat, show (256 : Nat) = 2 ^ 8 from rfl, bits_mod le_rfl, ← h, bits_value]

theorem base32hexValue_digit {v : Nat} (h : v < 32) :
    base32hexValue (upperByte (base32hexDigit v)) = some v := by
  have hall : ∀ v : Fin 32, base32hexValue (upperByte (base32hexDigit v.val)) = some v.val := by decide
  exact hall ⟨v, h⟩

theorem digit_of_base32hexValue {c : Byte} {v : Nat} (h : base32hexValue c = some v) :
    v < 32 ∧ base32hexDigit v = c := by
  have hall : ∀ c : Byte, ∀ v ∈ base32hexValue c, v < 32 ∧ base32hexDigit v = c := by decide +kernel
  exact hall c v h

theorem value_group_lt {stream group : List Bool} (h : group ∈ groups 5 stream) : value group < 32 := by
  have hlt := value_lt group
  rwa [length_of_mem_groups h] at hlt

/-! ### The loop of the decoder -/

/-- The bits that have not been put out are the low ones of the accumulator; with the bits of the digits
they are cut into octets, and what is left at the end is dropped. -/
theorem base32hexDecodeFrom_eq {text : Text} {digits : List Nat} (h : HasDigits text digits)
    {acc bitCount : Nat} (hcount : bitCount < 8) :
    base32hexDecodeFrom acc bitCount text =
      some ((groups 8 (bits bitCount acc ++ digits.flatMap (bits 5))).map octet) := by
  induction text generalizing digits acc bitCount with
  | nil =>
      cases h
      rw [List.flatMap_nil, List.append_nil, groups_short (by rwa [length_bits])]
      rfl
  | cons c rest ih =>
      cases h with
      | @cons _ v _ digits hvalue hrest =>
        have hv := (digit_of_base32hexValue hvalue).1
        -- The accumulator has room for the bits that count.
        have hacc : bits (bitCount + 5) ((acc * 32 + v) % 2 ^ 64) = bits bitCount acc ++ bits 5 v := by
          rw [bits_mod (by omega), bits_append]
          congr 1
          · congr 1
            omega
          · rw [← bits_mod le_rfl, ← bits_mod le_rfl v]
            congr 1
            omega
        rw [base32hexDecodeFrom, hvalue]
        simp only
        generalize (acc * 32 + v) % 2 ^ 64 = acc' at hacc ⊢
        rw [List.flatMap_cons, ← List.append_assoc, ← hacc]
        split
        · rename_i hfull
          obtain ⟨left, hleft⟩ : ∃ left, bitCount + 5 = 8 + left := ⟨bitCount - 3, by omega⟩
          rw [hleft, bits_append, List.append_assoc, groups_append (by omega) (length_bits _ _),
            List.map_cons, octet_bits, show 8 + left - 8 = left by omega, ih hrest (by omega)]
          rfl
        · exact ih hrest (by omega)

/-- A text that decodes consists of digits. -/
theorem hasDigits_of_decodeFrom {text : Text} {acc bitCount : Nat} {out : List Byte}
    (h : base32hexDecodeFrom acc bitCount text = some out) : ∃ digits, HasDigits text digits := by
  induction text generalizing acc bitCount out with
  | nil => exact ⟨[], .nil⟩
  | cons c rest ih =>
      rw [base32hexDecodeFrom] at h
      split at h
      · cases h
      · rename_i v hvalue
        simp only at h
        split at h
        · obtain ⟨out', hout', -⟩ := Option.map_eq_some_iff.mp h
          obtain ⟨digits, hdigits⟩ := ih hout'
          exact ⟨v :: digits, .cons hvalue hdigits⟩
        · obtain ⟨digits, hdigits⟩ := ih h
          exact ⟨v :: digits, .cons hvalue hdigits⟩

theorem base32hexDecode_eq_some {text : Text} {out : List Byte} :
    base32hexDecode text = some out ↔
      ∃ digits, HasDigits text digits ∧ out = (groups 8 (digits.flatMap (bits 5))).map octet := by
  have heq : ∀ {digits}, HasDigits text digits →
      base32hexDecode text = some ((groups 8 (digits.flatMap (bits 5))).map octet) :=
    fun hdigits => base32hexDecodeFrom_eq hdigits (by omega)
  constructor
  · intro h
    obtain ⟨digits, hdigits⟩ := hasDigits_of_decodeFrom h
    rw [heq hdigits] at h
    exact ⟨digits, hdigits, (Option.some.inj h).symm⟩
  · rintro ⟨digits, hdigits, rfl⟩
    exact heq hdigits

theorem length_flatMap_bits (w : Nat) (digits : List Nat) :
    (digits.flatMap (bits w)).length = w * digits.length := by
  simp [List.length_flatMap, Nat.mul_comm]

theorem HasDigits.length_eq {text : Text} {digits : List Nat} (h : HasDigits text digits) :
    text.length = digits.length := by
  rw [← List.Forall₂.length_eq h, List.length_map]

theorem length_of_base32hexDecode {text : Text} {out : List Byte}
    (h : base32hexDecode text = some out) : out.length = 5 * text.length / 8 := by
  obtain ⟨digits, hdigits, rfl⟩ := base32hexDecode_eq_some.mp h
  rw [List.length_map, length_groups, length_flatMap_bits, hdigits.length_eq]

/-! ### The round trips -/

theorem upperByte_lowerByte (b : Byte) : upperByte (lowerByte b) = upperByte b := by
  revert b
  decide +kernel

theorem lowerByte_upperByte (b : Byte) : lowerByte (upperByte b) = lowerByte b := by
  revert b
  decide +kernel

theorem map_upperByte_of_lowerLabel_eq {s t : Text} (h : lowerLabel s = lowerLabel t) :
    s.map upperByte = t.map upperByte := by
  have hupper := congrArg (List.map upperByte) h
  simpa [lowerLabel, Function.comp_def, upperByte_lowerByte] using hupper

theorem lowerLabel_map_upperByte (text : Text) : lowerLabel (text.map upperByte) = lowerLabel text := by
  simp [lowerLabel, Function.comp_def, lowerByte_upperByte]

theorem HasDigits.of_lowerLabel_eq {s t : Text} {digits : List Nat} (h : HasDigits t digits)
    (heq : lowerLabel s = lowerLabel t) : HasDigits s digits := by
  rwa [HasDigits, map_upperByte_of_lowerLabel_eq heq]

/-- Whatever the letter case, the encoding of a sequence of octets decodes to it. -/
theorem base32hexDecode_encode {b : List Byte} {text : Text}
    (h : lowerLabel text = lowerLabel (base32hexEncode b)) : base32hexDecode text = some b := by
  refine base32hexDecode_eq_some.mpr
    ⟨(groups 5 (padded 5 false (b.flatMap octetBits))).map value, ?_, ?_⟩
  · rw [HasDigits, map_upperByte_of_lowerLabel_eq h, base32hexEncode, List.map_map,
      List.forall₂_map_left_iff, List.forall₂_map_right_iff, List.forall₂_same]
    exact fun group hgroup => base32hexValue_digit (value_group_lt hgroup)
  · have hgroups : ((groups 5 (padded 5 false (b.flatMap octetBits))).map value).flatMap (bits 5) =
        (groups 5 (padded 5 false (b.flatMap octetBits))).flatten := by
      rw [List.flatMap_map, ← List.flatMap_id]
      refine List.flatMap_congr fun group hgroup => ?_
      rw [← length_of_mem_groups hgroup, bits_value]
      rfl
    -- The zeros that fill up the last digit are less than an octet.
    rw [hgroups, flatten_groups_padded (by omega), padded,
      groups_flatMap (by omega) length_octetBits (by rw [List.length_replicate]; omega), List.map_map]
    refine (List.map_id'' (fun o => ?_) b).symm
    exact octet_octetBits o

theorem HasDigits.map_digit {text : Text} {digits : List Nat} (h : HasDigits text digits) :
    digits.map base32hexDigit = text.map upperByte := by
  unfold HasDigits at h
  generalize text.map upperByte = upper at h
  induction h with
  | nil => rfl
  | cons hvalue _ ih => rw [List.map_cons, ih, (digit_of_base32hexValue hvalue).2]

theorem HasDigits.lt {text : Text} {digits : List Nat} (h : HasDigits text digits) :
    ∀ v ∈ digits, v < 32 := by
  unfold HasDigits at h
  generalize text.map upperByte = upper at h
  induction h with
  | nil => simp
  | cons hvalue _ ih => exact List.forall_mem_cons.mpr ⟨(digit_of_base32hexValue hvalue).1, ih⟩

/-- A text whose digits make up whole octets is the encoding of what it decodes to. -/
theorem base32hexEncode_decode {text : Text} {out : List Byte} (h : base32hexDecode text = some out)
    (hwhole : 8 ∣ 5 * text.length) : base32hexEncode out = text.map upperByte := by
  obtain ⟨digits, hdigits, rfl⟩ := base32hexDecode_eq_some.mp h
  obtain ⟨count, hcount⟩ := hwhole
  have hstream : ((groups 8 (digits.flatMap (bits 5))).map octet).flatMap octetBits =
      digits.flatMap (bits 5) := by
    have hlength : (digits.flatMap (bits 5)).length = count * 8 := by
      rw [length_flatMap_bits, ← hdigits.length_eq, hcount, Nat.mul_comm]
    conv_rhs => rw [← flatten_groups (by omega) hlength]
    rw [List.flatMap_map, ← List.flatMap_id]
    exact List.flatMap_congr fun group hgroup => octetBits_octet (length_of_mem_groups hgroup)
  have hfull : (digits.flatMap (bits 5)).length % 5 = 0 := by
    rw [length_flatMap_bits, Nat.mul_mod_right]
  have hback : groups 5 (digits.flatMap (bits 5) ++ []) = digits.map (bits 5) :=
    groups_flatMap (by omega) (length_bits 5) (by simp) digits
  rw [List.append_nil] at hback
  rw [base32hexEncode, hstream, padded_eq_self hfull, hback, List.map_map, ← hdigits.map_digit]
  refine List.map_congr_left fun v hv => ?_
  rw [Function.comp_apply, value_bits, Nat.mod_eq_of_lt (by exact hdigits.lt v hv)]

/-! ### Owner names -/

/-- Letters and digits. -/
def isAlphanumeric (b : Byte) : Bool :=
  (decide (48 ≤ b) && decide (b ≤ 57)) || (decide (65 ≤ b) && decide (b ≤ 90)) ||
    (decide (97 ≤ b) && decide (b ≤ 122))

/-- What is taken of the text form of labels. -/
structure LabelForm (P : Platform) : Prop where
  /-- A dot in a label is printed behind a backslash. -/
  label : ∀ l, Closed dot backslash (P.labelText l)
  /-- Letters and digits are printed as they are. -/
  alphanumeric : ∀ l : Label, (∀ b ∈ l, isAlphanumeric b = true) → P.labelText l = l
  /-- Names that print alike are the same up to case. -/
  faithful : P.NameKeyFaithful

/-- A digit of the alphabet, in either letter case. -/
def IsDigit (b : Byte) : Prop := (base32hexValue (upperByte b)).isSome = true

/-- The first label is a digit longer than the encoding of a hash. -/
def SurplusDigit (n : Name) : Prop :=
  ∃ l rest, n.labels = l :: rest ∧ l.length = 33 ∧ ∀ b ∈ l, IsDigit b

/-- The owner name is taken for a hash only when its first label is the encoding of it, up to case. -/
def OnlyEncoding (P : Platform) (rec : Record) : Prop :=
  ∀ h, nsec3OwnerHash P rec = some h →
    h.length = 20 ∧ ∃ l rest, rec.name.labels = l :: rest ∧ l.length = 32 ∧
      lowerLabel l = lowerLabel (base32hexEncode h)

theorem IsDigit.alphanumeric {b : Byte} (h : IsDigit b) :
    isAlphanumeric b = true ∧ b ≠ dot ∧ b ≠ backslash := by
  have hall : ∀ b : Byte, (base32hexValue (upperByte b)).isSome = true →
      isAlphanumeric b = true ∧ b ≠ dot ∧ b ≠ backslash := by
    decide +kernel
  exact hall b h

theorem hasDigits_iff {text : Text} : (∃ digits, HasDigits text digits) ↔ ∀ b ∈ text, IsDigit b := by
  constructor
  · rintro ⟨digits, hdigits⟩
    unfold HasDigits at hdigits
    rw [List.forall₂_map_left_iff] at hdigits
    induction hdigits with
    | nil => simp
    | cons hvalue _ ih =>
        exact List.forall_mem_cons.mpr ⟨Option.isSome_iff_exists.mpr ⟨_, hvalue⟩, ih⟩
  · intro h
    induction text with
    | nil => exact ⟨[], .nil⟩
    | cons b rest ih =>
        obtain ⟨hb, hrest⟩ := List.forall_mem_cons.mp h
        obtain ⟨v, hv⟩ := Option.isSome_iff_exists.mp hb
        obtain ⟨digits, hdigits⟩ := ih hrest
        exact ⟨v :: digits, .cons hv hdigits⟩

theorem takeWhile_append_dot (s more : Text) :
    (s ++ dot :: more).takeWhile (fun b => b != dot) = s.takeWhile fun b => b != dot := by
  rw [List.takeWhile_append]
  split
  · rename_i hwhole
    rw [List.takeWhile_cons_of_neg (by simp), List.append_nil]
    exact ((List.takeWhile_prefix _).eq_of_length hwhole).symm
  · rfl

/-- Dots at the end do not matter for what stands in front of the first dot. -/
theorem takeWhile_trimEndDots (s : Text) :
    (trimEndDots s).takeWhile (fun b => b != dot) = s.takeWhile fun b => b != dot := by
  have hsplit := List.takeWhile_append_dropWhile (p := fun b => b == dot) (l := s.reverse)
  have hall : ∀ b ∈ s.reverse.takeWhile fun b => b == dot, b = dot := by
    intro b hb
    have hbeq := List.mem_takeWhile_imp hb
    exact beq_iff_eq.mp hbeq
  rw [List.eq_replicate_of_mem hall] at hsplit
  generalize (s.reverse.takeWhile fun b => b == dot).length = count at hsplit
  have htext : s = trimEndDots s ++ List.replicate count dot := by
    rw [trimEndDots, ← List.reverse_replicate, ← List.reverse_append, hsplit, List.reverse_reverse]
  conv_rhs => rw [htext]
  cases count with
  | zero => rw [List.replicate_zero, List.append_nil]
  | succ count => rw [List.replicate_succ, takeWhile_append_dot]

/-- The piece of text in front of the first dot. -/
def firstPiece (P : Platform) (n : Name) : Text := (P.nameText n).takeWhile fun b => b != dot

theorem nsec3OwnerHash_eq_some {P : Platform} {rec : Record} {h : List Byte} :
    nsec3OwnerHash P rec = some h ↔
      base32hexDecode (firstPiece P rec.name) = some h ∧ h.length = 20 := by
  unfold nsec3OwnerHash
  simp only [takeWhile_trimEndDots, ← firstPiece.eq_def]
  cases base32hexDecode (firstPiece P rec.name) with
  | none => simp
  | some hash =>
      simp only
      split
      · rename_i hlength
        simp only [Option.some.injEq]
        exact ⟨fun heq => ⟨heq, heq ▸ hlength⟩, And.left⟩
      · rename_i hlength
        simp only [reduceCtorEq, Option.some.injEq, false_iff, not_and]
        rintro rfl
        exact hlength

section Owner

variable {P : Platform} {n : Name} {l : Label} {rest : List Label}

theorem firstPiece_root (hroot : n.labels = []) : firstPiece P n = [] := by
  rw [firstPiece, Platform.nameText, Platform.presentation, hroot]
  rfl

theorem firstPiece_cons (hlabels : n.labels = l :: rest) :
    firstPiece P n = (P.labelText l).takeWhile fun b => b != dot := by
  have htext : P.nameText n =
      P.labelText l ++ dot :: rest.flatMap fun l => P.labelText l ++ [dot] := by
    rw [Platform.nameText, Platform.presentation, hlabels]
    simp
  rw [firstPiece, htext, takeWhile_append_dot]

theorem validLabels_single (h : 1 ≤ l.length ∧ l.length ≤ 63) : ValidLabels [l] := by
  refine ⟨by simpa using h, ?_⟩
  simp only [wireLength, List.map_cons, List.map_nil, List.sum_cons, List.sum_nil]
  omega

variable (hform : LabelForm P)
include hform

/-- A first piece that consists of digits is the first label, up to case. -/
theorem lowerLabel_firstPiece (hlabels : n.labels = l :: rest)
    (hdigits : ∀ b ∈ firstPiece P n, IsDigit b)
    (hlength : 1 ≤ (firstPiece P n).length ∧ (firstPiece P n).length ≤ 63) :
    lowerLabel l = lowerLabel (firstPiece P n) := by
  have hpiece := firstPiece_cons (P := P) hlabels
  -- There is no dot in the label, for it would be escaped.
  have hdot : dot ∉ P.labelText l := by
    apply (hform.label l).sep_notMem
    rw [← hpiece]
    exact fun b hb => (hdigits b hb).alphanumeric.2.2
  have htext : firstPiece P n = P.labelText l := by
    rw [hpiece, List.takeWhile_eq_self_iff]
    exact fun b hb => bne_iff_ne.mpr fun heq => hdot (heq ▸ hb)
  have hself := hform.alphanumeric (firstPiece P n) fun b hb => (hdigits b hb).alphanumeric.1
  have hvalid := n.valid.1 l (by rw [hlabels]; exact List.mem_cons_self)
  -- The names of these two labels alone print alike.
  have hkey : P.nameKey ⟨[l], validLabels_single hvalid⟩ =
      P.nameKey ⟨[firstPiece P n], validLabels_single hlength⟩ := by
    simp only [Platform.nameKey, Platform.nameText, Platform.presentation, List.isEmpty_cons,
      List.flatMap_cons, List.flatMap_nil, hself, ← htext]
  have hpath := (hform.faithful _ _).mp hkey
  simpa [Name.path] using hpath

theorem firstPiece_of_digits (hlabels : n.labels = l :: rest) (hdigits : ∀ b ∈ l, IsDigit b) :
    firstPiece P n = l := by
  rw [firstPiece_cons hlabels, hform.alphanumeric l fun b hb => (hdigits b hb).alphanumeric.1,
    List.takeWhile_eq_self_iff]
  exact fun b hb => bne_iff_ne.mpr (hdigits b hb).alphanumeric.2.1

theorem onlyEncoding_iff {rec : Record} : OnlyEncoding P rec ↔ ¬ SurplusDigit rec.name := by
  constructor
  · rintro honly ⟨l, rest, hlabels, hlength, hdigits⟩
    have hpiece := firstPiece_of_digits hform hlabels hdigits
    obtain ⟨digits, hdigits⟩ := hasDigits_iff.mpr hdigits
    have hdecode := base32hexDecode_eq_some.mpr ⟨digits, hdigits, rfl⟩
    have hout := length_of_base32hexDecode hdecode
    rw [hlength] at hout
    obtain ⟨-, l', rest', hlabels', hlength', -⟩ :=
      honly _ (nsec3OwnerHash_eq_some.mpr ⟨hpiece ▸ hdecode, hout⟩)
    rw [hlabels] at hlabels'
    cases hlabels'
    omega
  · intro hsurplus h hhash
    obtain ⟨hdecode, hlength⟩ := nsec3OwnerHash_eq_some.mp hhash
    have hdigits := hasDigits_iff.mp (hasDigits_of_decodeFrom hdecode)
    have hcount := length_of_base32hexDecode hdecode
    cases hlabels : rec.name.labels with
    | nil =>
        rw [firstPiece_root hlabels] at hcount
        simp only [List.length_nil] at hcount
        omega
    | cons l rest =>
        have hlabel := lowerLabel_firstPiece hform hlabels hdigits (by omega)
        have hlabelLength : l.length = (firstPiece P rec.name).length := by
          rw [← length_lowerLabel l, hlabel, length_lowerLabel]
        have hshort : l.length ≠ 33 := by
          intro heq
          obtain ⟨digits, hdigits⟩ := hasDigits_iff.mpr hdigits
          exact hsurplus ⟨l, rest, hlabels, heq,
            hasDigits_iff.mp ⟨digits, hdigits.of_lowerLabel_eq hlabel⟩⟩
        have hwhole : (firstPiece P rec.name).length = 32 := by omega
        refine ⟨hlength, l, rest, rfl, by omega, ?_⟩
        rw [base32hexEncode_decode hdecode (by omega), hlabel, lowerLabel_map_upperByte]

end Owner

/-- Whatever its letter case, an encoding decodes to the octets it encodes; and an owner name is taken for
a hash only when its first label is the encoding of that hash, unless it is one digit longer. -/
theorem nsec3OwnerHash_encodings_iff {P : Platform} (hform : LabelForm P) :
    (∀ (b : List Byte) (text : Text), lowerLabel text = lowerLabel (base32hexEncode b) →
      base32hexDecode text = some b) ∧
    ∀ rec : Record, OnlyEncoding P rec ↔ ¬ SurplusDigit rec.name :=
  ⟨fun _ _ => base32hexDecode_encode, fun _ => onlyEncoding_iff hform⟩

theorem plain_labelForm : LabelForm Platform.plain where
  label l := Closed.flatMap closed_escapeByte l
  alphanumeric l hl := by
    have hbyte : ∀ b : Byte, isAlphanumeric b = true → escapeByte b = [b] := by decide +kernel
    change l.flatMap escapeByte = l
    induction l with
    | nil => rfl
    | cons b l ih =>
        obtain ⟨hb, hl⟩ := List.forall_mem_cons.mp hl
        rw [List.flatMap_cons, hbyte b hb, ih hl, List.singleton_append]
  faithful := plain_nameKeyFaithful

/-- An NSEC3 record whose owner name is a label of so many digits `0`. -/
def zerosRecord (count : Nat) (h : ValidLabels [List.replicate count 48]) : Record :=
  ⟨⟨[List.replicate count 48], h⟩, .IN, 300, .nsec3 ⟨1, 0, 0, [], [], [.A]⟩⟩

/-- With 32 digits it is taken for the hash it encodes. -/
theorem nsec3OwnerHash_encodings_iff_zeros :
    nsec3OwnerHash .plain (zerosRecord 32 (by decide)) = some (List.replicate 20 0) ∧
      OnlyEncoding .plain (zerosRecord 32 (by decide)) := by
  refine ⟨by decide +kernel, ((nsec3OwnerHash_encodings_iff plain_labelForm).2 _).mpr ?_⟩
  rintro ⟨l, rest, hlabels, hlength, -⟩
  cases hlabels
  cases hlength

/-- A 33rd digit is ignored, and the owner name is taken for a hash that it does not encode. -/
theorem surplus_digit_ignored :
    ¬ ∀ P : Platform, LabelForm P →
      (∀ (b : List Byte) (text : Text), lowerLabel text = lowerLabel (base32hexEncode b) →
        base32hexDecode text = some b) ∧
      ∀ rec : Record, OnlyEncoding P rec := by
  intro hclaim
  have honly := (hclaim .plain plain_labelForm).2 (zerosRecord 33 (by decide))
  obtain ⟨-, l, rest, hlabels, hlength, -⟩ := honly (List.replicate 20 0) (by decide +kernel)
  cases hlabels
  cases hlength

end Dnssec
end UnifiedDns
