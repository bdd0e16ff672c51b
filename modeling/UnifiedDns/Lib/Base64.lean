import UnifiedDns.Lib.BitGroups
import Mathlib.Data.List.DropRight

/-!
# Base 64 with padding

The text of a sequence of octets in the standard alphabet, and a decoder that accepts such texts and no
others.

* `encode` — the bits in groups of six, and padding to a multiple of four characters.
* `decode_eq_some_iff` — the decoder accepts exactly the texts of octets.
* `count_pad_encode`, `length_encode` — the shape of a text: how it can be completed when padding is missing.
-/

namespace UnifiedDns
namespace Base64

open BitGroups

/-- The digit for a value below 64. -/
def digit (v : Nat) : Char :=
  if v < 26 then Char.ofNat (65 + v)
  else if v < 52 then Char.ofNat (71 + v)
  else if v < 62 then Char.ofNat (v - 4)
  else if v = 62 then '+'
  else '/'

/-- The value of a digit. -/
def digitValue (c : Char) : Option Nat := (List.range 64).find? fun v => decide (digit v = c)

/-- The octet of eight bits. -/
def octet (group : List Bool) : Fin 256 := Fin.ofNat 256 (value group)

/-- The digits without the padding. -/
def digits (octets : List (Fin 256)) : List Char :=
  (groups 6 (padded 6 false (octets.flatMap fun b => bits 8 b.val))).map fun group => digit (value group)

/-- The number of padding characters. -/
def padCount (octets : List (Fin 256)) : Nat := (3 - octets.length % 3) % 3

def encode (octets : List (Fin 256)) : List Char :=
  digits octets ++ List.replicate (padCount octets) '='

/-- The octets of the digits, if these are the digits of octets, with the padding they need. -/
def decode (text : List Char) : Option (List (Fin 256)) :=
  let values := (text.takeWhile fun c => decide (c ≠ '=')).filterMap digitValue
  let octets := (groups 8 (values.flatMap (bits 6))).map octet
  if encode octets = text then some octets else none

theorem digitValue_digit {v : Nat} (h : v < 64) : digitValue (digit v) = some v := by
  have hall : ∀ v : Fin 64, digitValue (digit v.val) = some v.val := by decide
  exact hall ⟨v, h⟩

theorem digit_ne_pad {v : Nat} (h : v < 64) : digit v ≠ '=' := by
  have hall : ∀ v : Fin 64, digit v.val ≠ '=' := by decide
  exact hall ⟨v, h⟩

theorem utf8Size_digit {v : Nat} (h : v < 64) : (digit v).utf8Size = 1 := by
  have hall : ∀ v : Fin 64, (digit v.val).utf8Size = 1 := by decide
  exact hall ⟨v, h⟩

theorem value_group_lt {stream group : List Bool} (h : group ∈ groups 6 stream) : value group < 64 := by
  have hlt := value_lt group
  rwa [length_of_mem_groups h] at hlt

/-- Every digit is the digit of a value below 64. -/
theorem mem_digits {octets : List (Fin 256)} {c : Char} (h : c ∈ digits octets) :
    ∃ v, v < 64 ∧ digit v = c := by
  obtain ⟨group, hgroup, rfl⟩ := List.mem_map.mp h
  exact ⟨value group, value_group_lt hgroup, rfl⟩

/-! ### The shape of a text -/

theorem length_bitsOf (octets : List (Fin 256)) :
    (octets.flatMap fun b => bits 8 b.val).length = 8 * octets.length := by
  simp [List.length_flatMap, Nat.mul_comm]

theorem length_digits (octets : List (Fin 256)) : (digits octets).length = (8 * octets.length + 5) / 6 := by
  rw [digits, List.length_map, length_groups, length_padded (by omega), length_bitsOf]
  omega

theorem length_encode (octets : List (Fin 256)) : (encode octets).length % 4 = 0 := by
  rw [encode, List.length_append, List.length_replicate, length_digits, padCount]
  generalize octets.length = n
  obtain h | h | h : n % 3 = 0 ∨ n % 3 = 1 ∨ n % 3 = 2 := by omega
  · rw [h]
    omega
  · rw [h]
    omega
  · rw [h]
    omega

theorem count_pad_encode (octets : List (Fin 256)) : (encode octets).count '=' = padCount octets := by
  have hnone : (digits octets).count '=' = 0 := by
    refine List.count_eq_zero.mpr fun hmem => ?_
    obtain ⟨v, hv, heq⟩ := mem_digits hmem
    exact digit_ne_pad hv heq
  rw [encode, List.count_append, hnone, List.count_replicate_self, Nat.zero_add]

theorem padCount_lt (octets : List (Fin 256)) : padCount octets < 3 := Nat.mod_lt _ (by decide)

/-- A text is ASCII. -/
theorem utf8Size_of_mem_encode {octets : List (Fin 256)} {c : Char} (h : c ∈ encode octets) :
    c.utf8Size = 1 := by
  rcases List.mem_append.mp h with hdigit | hpad
  · obtain ⟨v, hv, rfl⟩ := mem_digits hdigit
    exact utf8Size_digit hv
  · rw [List.eq_of_mem_replicate hpad]
    rfl

/-! ### Reading back -/

theorem octet_bits (b : Fin 256) : octet (bits 8 b.val) = b := by
  rw [octet, value_bits, Nat.mod_eq_of_lt (by exact b.isLt)]
  exact Fin.ofNat_val_eq_self b

/-- The digits of a text stop at the padding. -/
theorem takeWhile_encode (octets : List (Fin 256)) :
    ((encode octets).takeWhile fun c => decide (c ≠ '=')) = digits octets := by
  have hdigits : ∀ c ∈ digits octets, decide (c ≠ '=') = true := by
    intro c hc
    obtain ⟨v, hv, rfl⟩ := mem_digits hc
    exact decide_eq_true (digit_ne_pad hv)
  rw [encode, List.takeWhile_append_of_pos hdigits]
  cases padCount octets with
  | zero => exact List.append_nil _
  | succ n =>
      rw [List.replicate_succ, List.takeWhile_cons_of_neg (by decide), List.append_nil]

theorem filterMap_digitValue_digits (octets : List (Fin 256)) :
    (digits octets).filterMap digitValue =
      (groups 6 (padded 6 false (octets.flatMap fun b => bits 8 b.val))).map value := by
  rw [digits, List.filterMap_map]
  rw [← List.filterMap_eq_map]
  refine List.filterMap_congr fun group hgroup => ?_
  exact digitValue_digit (value_group_lt hgroup)

/-- The bits that fill up the last digit make no octet. -/
theorem groups_of_digits (octets : List (Fin 256)) :
    (groups 8 (((digits octets).filterMap digitValue).flatMap (bits 6))).map octet = octets := by
  have hback : (((digits octets).filterMap digitValue).flatMap (bits 6)) =
      padded 6 false (octets.flatMap fun b => bits 8 b.val) := by
    rw [filterMap_digitValue_digits, List.flatMap_map]
    have hgroups : ∀ group ∈ groups 6 (padded 6 false (octets.flatMap fun b => bits 8 b.val)),
        bits 6 (value group) = group := by
      intro group hgroup
      rw [← length_of_mem_groups hgroup]
      exact bits_value group
    rw [List.flatMap_congr hgroups, List.flatMap_id']
    exact flatten_groups_padded (by decide) false _
  have hshort : (List.replicate ((6 - (octets.flatMap fun b => bits 8 b.val).length % 6) % 6)
      false).length < 8 := by
    rw [List.length_replicate]
    omega
  rw [hback, padded, groups_flatMap (by decide) (fun b : Fin 256 => length_bits 8 b.val) hshort,
    List.map_map]
  conv_rhs => rw [← List.map_id octets]
  exact List.map_congr_left fun b _ => octet_bits b

/-- The decoder accepts the texts of octets and nothing else. -/
theorem decode_eq_some_iff {text : List Char} {octets : List (Fin 256)} :
    decode text = some octets ↔ text = encode octets := by
  constructor
  · intro h
    unfold decode at h
    simp only at h
    split at h
    · rename_i heq
      cases h
      exact heq.symm
    · cases h
  · rintro rfl
    unfold decode
    simp only [takeWhile_encode, groups_of_digits, if_true]

end Base64
end UnifiedDns
