import UnifiedDns.Platform

/-!
# Addresses as text

`IpAddr::from_str` of the standard library, reader by reader, and the text of an IPv4 address.

* `readNumber`, `readIpv4Addr`, `readGroups`, `readIpv6Addr` — the readers; each returns what it read and
  the rest, or nothing.
* `parseIpAddr` — an address is the whole text.
* `trim` — `str::trim` on ASCII text.
* `parseIpAddr_ipv4Text` — the text of an IPv4 address reads back.
-/

namespace UnifiedDns
namespace Engine

/-! ### Readers -/

/-- `char::to_digit`. -/
def toDigit (radix : Nat) (b : Byte) : Option Nat :=
  let value :=
    if 48 ≤ b ∧ b ≤ 57 then some (b.val - 48)
    else if 97 ≤ b ∧ b ≤ 122 then some (b.val - 87)
    else if 65 ≤ b ∧ b ≤ 90 then some (b.val - 55)
    else none
  value.filter fun digit => decide (digit < radix)

/-- The digits at the front, and the rest. -/
def readDigits (radix : Nat) : Text → List Nat × Text
  | [] => ([], [])
  | b :: rest =>
      match toDigit radix b with
      | none => ([], b :: rest)
      | some digit => (digit :: (readDigits radix rest).1, (readDigits radix rest).2)

/-- The number that `read_number` makes of its digits, for a type that holds the numbers below `size`. -/
def numberOf (radix maxDigits size : Nat) (allowZeroPrefix : Bool) (digits : List Nat) : Option Nat :=
  let result := digits.foldl (fun result digit => result * radix + digit) 0
  if maxDigits < digits.length then none
  else if digits.length = 0 then none
  else if allowZeroPrefix = false ∧ digits.head? = some 0 ∧ 1 < digits.length then none
  else if result < size then some result
  else none

/-- `read_number`. -/
def readNumber (radix maxDigits size : Nat) (allowZeroPrefix : Bool) (text : Text) :
    Option (Nat × Text) :=
  (numberOf radix maxDigits size allowZeroPrefix (readDigits radix text).1).map fun n =>
    (n, (readDigits radix text).2)

/-- `read_separator`: every part but the first has the separator before it. -/
def readSeparator {α : Type} (separator : Byte) (index : Nat) (inner : Text → Option (α × Text))
    (text : Text) : Option (α × Text) :=
  if 0 < index then
    match text with
    | b :: rest => if b = separator then inner rest else none
    | [] => none
  else inner text

/-- One part of a dotted address. An octal number is no part. -/
def readOctet (index : Nat) (text : Text) : Option (Byte × Text) :=
  (readSeparator dot index (readNumber 10 3 256 false) text).map fun (octet, rest) =>
    (Fin.ofNat 256 octet, rest)

/-- `read_ipv4_addr`. -/
def readIpv4Addr (text : Text) : Option (Ipv4Addr × Text) := do
  let (o0, text) ← readOctet 0 text
  let (o1, text) ← readOctet 1 text
  let (o2, text) ← readOctet 2 text
  let (o3, text) ← readOctet 3 text
  return (⟨o0, o1, o2, o3⟩, text)

/-- `u16::from_be_bytes`. -/
def segment (high low : Byte) : BitVec 16 := BitVec.ofNat 16 (high.val * 256 + low.val)

/-- `read_groups`: at most `left` groups, from the group `index` on, and whether the last two are an
embedded IPv4 address. -/
def readGroups (index : Nat) : Nat → Text → List (BitVec 16) × Bool × Text
  | 0, text => ([], false, text)
  | left + 1, text =>
      -- An embedded address takes two groups.
      match if 0 < left then readSeparator colon index readIpv4Addr text else none with
      | some (addr, rest) => ([segment addr.o0 addr.o1, segment addr.o2 addr.o3], true, rest)
      | none =>
          match readSeparator colon index (readNumber 16 4 65536 true) text with
          | none => ([], false, text)
          | some (group, rest) =>
              let (groups, embedded, rest) := readGroups (index + 1) left rest
              (BitVec.ofNat 16 group :: groups, embedded, rest)

/-- The address of eight groups. -/
def addrOfGroups (groups : List (BitVec 16)) : Ipv6Addr :=
  ⟨groups.getD 0 0, groups.getD 1 0, groups.getD 2 0, groups.getD 3 0, groups.getD 4 0, groups.getD 5 0,
    groups.getD 6 0, groups.getD 7 0⟩

/-- `read_ipv6_addr`. -/
def readIpv6Addr (text : Text) : Option (Ipv6Addr × Text) :=
  let (head, headIpv4, text) := readGroups 0 8 text
  if head.length = 8 then some (addrOfGroups head, text)
  else if headIpv4 then none
  else
    match text with
    | first :: second :: rest =>
        if first = colon ∧ second = colon then
          let (tail, _, rest) := readGroups 0 (8 - (head.length + 1)) rest
          some (addrOfGroups (head ++ List.replicate (8 - tail.length - head.length) 0 ++ tail), rest)
        else none
    | _ => none

/-- `read_ip_addr`. -/
def readIpAddr (text : Text) : Option (IpAddr × Text) :=
  match readIpv4Addr text with
  | some (addr, rest) => some (.v4 addr, rest)
  | none => (readIpv6Addr text).map fun (addr, rest) => (.v6 addr, rest)

/-- `IpAddr::from_str`. -/
def parseIpAddr (text : Text) : Option IpAddr :=
  match readIpAddr text with
  | some (ip, []) => some ip
  | _ => none

/-- ASCII white space. -/
def isSpace (b : Byte) : Bool := decide (b = 32) || (decide (9 ≤ b) && decide (b ≤ 13))

/-- `str::trim`, on ASCII text. -/
def trim (text : Text) : Text :=
  ((text.dropWhile isSpace).reverse.dropWhile isSpace).reverse

example : parseIpAddr (asciiText "2001:db8::192.0.2.1") =
    some (.v6 ⟨8193, 3512, 0, 0, 0, 0, 49152, 513⟩) := by decide

/-! ### The text of an IPv4 address -/

/-- A number below 256 in decimal. -/
def octetText (o : Byte) : Text :=
  if o.val < 10 then [digitByte o.val]
  else if o.val < 100 then [digitByte (o.val / 10), digitByte o.val]
  else [digitByte (o.val / 100), digitByte (o.val / 10), digitByte o.val]

/-- `Display` of an IPv4 address. -/
def ipv4Text (a : Ipv4Addr) : Text :=
  octetText a.o0 ++ dot :: (octetText a.o1 ++ dot :: (octetText a.o2 ++ dot :: octetText a.o3))

section Reading

variable {radix : Nat} {text rest : Text}

/-- The text does not go on with a digit. -/
def NoDigit (radix : Nat) (text : Text) : Prop := ∀ b ∈ text.head?, toDigit radix b = none

theorem readDigits_append (hrest : NoDigit radix rest) (h : (readDigits radix text).2 = []) :
    readDigits radix (text ++ rest) = ((readDigits radix text).1, rest) := by
  induction text with
  | nil =>
      cases rest with
      | nil => rfl
      | cons b others =>
          have hstop : toDigit radix b = none := hrest b rfl
          simp [readDigits, hstop]
  | cons b text ih =>
      rw [List.cons_append, readDigits, readDigits]
      rw [readDigits] at h
      cases hdigit : toDigit radix b with
      | none => simp [hdigit] at h
      | some digit =>
          rw [hdigit] at h
          rw [ih h]

theorem readNumber_append {maxDigits size : Nat} {allowZeroPrefix : Bool} {n : Nat}
    (hrest : NoDigit radix rest)
    (h : readNumber radix maxDigits size allowZeroPrefix text = some (n, [])) :
    readNumber radix maxDigits size allowZeroPrefix (text ++ rest) = some (n, rest) := by
  obtain ⟨m, hm, heq⟩ := Option.map_eq_some_iff.mp h
  obtain ⟨rfl, hall⟩ := Prod.mk.inj heq
  rw [readNumber, readDigits_append hrest hall, hm]
  rfl

theorem readNumber_octetText (o : Byte) :
    readNumber 10 3 256 false (octetText o) = some (o.val, []) := by
  revert o
  decide +kernel

theorem noDigit_dot (text : Text) : NoDigit 10 (dot :: text) := by
  rintro b ⟨⟩
  decide

theorem readOctet_first (o : Byte) (hrest : NoDigit 10 rest) :
    readOctet 0 (octetText o ++ rest) = some (o, rest) := by
  show (readNumber 10 3 256 false (octetText o ++ rest)).map _ = _
  rw [readNumber_append hrest (readNumber_octetText o)]
  show some (Fin.ofNat 256 o.val, rest) = _
  rw [Fin.ofNat_eq_cast, Fin.cast_val_eq_self]

theorem readOctet_next (o : Byte) (index : Nat) (hrest : NoDigit 10 rest) :
    readOctet (index + 1) (dot :: (octetText o ++ rest)) = some (o, rest) := by
  have hskip : readOctet (index + 1) (dot :: (octetText o ++ rest)) =
      readOctet 0 (octetText o ++ rest) := by
    unfold readOctet readSeparator
    simp
  rw [hskip, readOctet_first o hrest]

theorem readIpv4Addr_ipv4Text (a : Ipv4Addr) (hrest : NoDigit 10 rest) :
    readIpv4Addr (ipv4Text a ++ rest) = some (a, rest) := by
  unfold readIpv4Addr ipv4Text
  simp only [List.append_assoc, List.cons_append]
  rw [readOctet_first _ (noDigit_dot _)]
  show (readOctet 1 _).bind _ = _
  rw [readOctet_next _ _ (noDigit_dot _)]
  show (readOctet 2 _).bind _ = _
  rw [readOctet_next _ _ (noDigit_dot _)]
  show (readOctet 3 _).bind _ = _
  rw [readOctet_next _ _ hrest]
  rfl

theorem parseIpAddr_ipv4Text (a : Ipv4Addr) : parseIpAddr (ipv4Text a) = some (.v4 a) := by
  have hread : readIpv4Addr (ipv4Text a ++ []) = some (a, []) :=
    readIpv4Addr_ipv4Text a fun b hb => absurd hb (by simp)
  rw [List.append_nil] at hread
  unfold parseIpAddr readIpAddr
  rw [hread]

theorem trim_of_no_space (h : ∀ b ∈ text, isSpace b = false) : trim text = text := by
  have hdrop : ∀ own : Text, (∀ b ∈ own, isSpace b = false) → own.dropWhile isSpace = own := by
    intro own hown
    cases own with
    | nil => rfl
    | cons b rest => rw [List.dropWhile_cons_of_neg (by rw [hown b List.mem_cons_self]; decide)]
  unfold trim
  rw [hdrop text h, hdrop text.reverse fun b hb => h b (List.mem_reverse.mp hb), List.reverse_reverse]

theorem isSpace_ipv4Text (a : Ipv4Addr) : ∀ b ∈ ipv4Text a, isSpace b = false := by
  have hoctet : ∀ o : Byte, (octetText o).all (fun b => !isSpace b) = true := by decide +kernel
  have hdot : isSpace dot = false := by decide
  have hall : (ipv4Text a).all (fun b => !isSpace b) = true := by
    simp only [ipv4Text, List.all_append, List.all_cons, hoctet, hdot]
    rfl
  intro b hb
  have hclear := List.all_eq_true.mp hall b hb
  rwa [Bool.not_eq_true'] at hclear

end Reading

end Engine
end UnifiedDns
