import Mathlib.Algebra.Ring.Nat
import Mathlib.Data.List.Basic
import Mathlib.Tactic.Ring

/-!
# Streams cut into groups of equal size

A sequence of symbols with codes of one length is a stream that can be cut into groups of another length:
this is how octets become digits of a base other than 256, and digits octets.

* `groups` — the whole groups of a stream; what is left over is dropped.
* `groups_flatMap` — codes of the group size are read back, whatever short rest follows them.
* `padded`, `flatten_groups_padded` — a stream filled up to whole groups loses nothing.
* `bits`, `value` — a number as so many bits, the high one first, and the number of such bits.
* `bits_append` — the bits of a number behind those of its quotient.
-/

namespace UnifiedDns
namespace BitGroups

section Groups

variable {α β : Type*} {w : Nat}

/-- The whole groups of `w` symbols of a stream. -/
def groups (w : Nat) (stream : List β) : List (List β) :=
  (List.range (stream.length / w)).map fun i => (stream.drop (i * w)).take w

theorem groups_short {stream : List β} (h : stream.length < w) : groups w stream = [] := by
  rw [groups, Nat.div_eq_of_lt h]
  rfl

theorem groups_append (hw : 0 < w) {group : List β} (h : group.length = w) (rest : List β) :
    groups w (group ++ rest) = group :: groups w rest := by
  have hcount : (group ++ rest).length / w = rest.length / w + 1 := by
    rw [List.length_append, h, Nat.add_div_left _ hw]
  have hskip : ∀ i, (group ++ rest).drop ((i + 1) * w) = rest.drop (i * w) := by
    intro i
    rw [Nat.succ_mul, Nat.add_comm, ← List.drop_drop, ← h, List.drop_left]
  unfold groups
  rw [hcount, List.range_succ_eq_map, List.map_cons, List.map_map]
  congr 1
  · rw [Nat.zero_mul, List.drop_zero, ← h, List.take_left]
  · refine List.map_congr_left fun i _ => ?_
    rw [Function.comp_apply, Nat.succ_eq_add_one, hskip]

/-- Codes of the group size are read back in front of a rest that is no whole group. -/
theorem groups_flatMap (hw : 0 < w) {code : α → List β} (hcode : ∀ a, (code a).length = w)
    {rest : List β} (hrest : rest.length < w) (xs : List α) :
    groups w (xs.flatMap code ++ rest) = xs.map code := by
  induction xs with
  | nil => exact groups_short hrest
  | cons x xs ih =>
      rw [List.flatMap_cons, List.append_assoc, groups_append hw (hcode x), ih, List.map_cons]

theorem length_groups (w : Nat) (stream : List β) :
    (groups w stream).length = stream.length / w := by
  rw [groups, List.length_map, List.length_range]

theorem length_of_mem_groups {stream group : List β} (h : group ∈ groups w stream) :
    group.length = w := by
  obtain ⟨i, hi, rfl⟩ := List.mem_map.mp h
  have hroom : (i + 1) * w ≤ stream.length :=
    (Nat.mul_le_mul_right w (List.mem_range.mp hi)).trans (Nat.div_mul_le_self _ _)
  rw [Nat.succ_mul] at hroom
  rw [List.length_take, List.length_drop]
  omega

/-- A stream of whole groups is put together again from them. -/
theorem flatten_groups (hw : 0 < w) {count : Nat} {stream : List β}
    (h : stream.length = count * w) : (groups w stream).flatten = stream := by
  induction count generalizing stream with
  | zero =>
      rw [groups_short (by omega)]
      exact (List.length_eq_zero_iff.mp (by omega)).symm
  | succ count ih =>
      rw [Nat.succ_mul] at h
      have hfirst : (stream.take w).length = w := by
        rw [List.length_take]
        omega
      have hrest : (stream.drop w).length = count * w := by
        rw [List.length_drop]
        omega
      rw [← List.take_append_drop w stream, groups_append hw hfirst, List.flatten_cons, ih hrest]

/-- A stream filled up with `pad` to whole groups. -/
def padded (w : Nat) (pad : β) (stream : List β) : List β :=
  stream ++ List.replicate ((w - stream.length % w) % w) pad

theorem length_padded (hw : 0 < w) (pad : β) (stream : List β) :
    (padded w pad stream).length = (stream.length + w - 1) / w * w := by
  have hmod := Nat.mod_lt stream.length hw
  have hdiv := Nat.div_add_mod stream.length w
  rw [padded, List.length_append, List.length_replicate]
  rcases Nat.eq_zero_or_pos (stream.length % w) with hzero | hpos
  · rw [hzero, Nat.sub_zero, Nat.mod_self]
    have hcount : (stream.length + w - 1) / w = stream.length / w := by
      rw [show stream.length + w - 1 = w - 1 + w * (stream.length / w) by omega,
        Nat.add_mul_div_left _ _ hw, Nat.div_eq_of_lt (by omega), Nat.zero_add]
    rw [hcount, Nat.mul_comm]
    omega
  · rw [Nat.mod_eq_of_lt (by omega)]
    have hcount : (stream.length + w - 1) / w = stream.length / w + 1 := by
      rw [show stream.length + w - 1 = stream.length % w - 1 + w * (stream.length / w + 1) by
        rw [Nat.mul_succ]
        omega, Nat.add_mul_div_left _ _ hw, Nat.div_eq_of_lt (by omega), Nat.zero_add]
    rw [hcount, Nat.succ_mul, Nat.mul_comm]
    omega

theorem padded_eq_self {stream : List β} (h : stream.length % w = 0) (pad : β) :
    padded w pad stream = stream := by
  rw [padded, h, Nat.sub_zero, Nat.mod_self]
  exact List.append_nil _

theorem flatten_groups_padded (hw : 0 < w) (pad : β) (stream : List β) :
    (groups w (padded w pad stream)).flatten = padded w pad stream :=
  flatten_groups hw (length_padded hw pad stream)

end Groups

section Bits

/-- The low `w` bits of a number, the high one first. -/
def bits : (w : Nat) → Nat → List Bool
  | 0, _ => []
  | w + 1, n => n.testBit w :: bits w n

/-- The number of a sequence of bits, the high one first. -/
def value : List Bool → Nat
  | [] => 0
  | b :: rest => b.toNat * 2 ^ rest.length + value rest

@[simp] theorem length_bits (w n : Nat) : (bits w n).length = w := by
  induction w with
  | zero => rfl
  | succ w ih => rw [bits, List.length_cons, ih]

theorem value_lt (stream : List Bool) : value stream < 2 ^ stream.length := by
  induction stream with
  | nil => exact Nat.one_pos
  | cons b rest ih =>
      rw [value, List.length_cons, Nat.pow_succ]
      cases b <;> simp only [Bool.toNat_true, Bool.toNat_false] <;> omega

/-- The bits of a number are those of its quotient and then those of the rest. -/
theorem bits_append (m k n : Nat) : bits (m + k) n = bits m (n / 2 ^ k) ++ bits k n := by
  induction m with
  | zero => rw [Nat.zero_add, bits, List.nil_append]
  | succ m ih =>
      rw [Nat.succ_add, bits, bits, ih, List.cons_append, Nat.testBit_div_two_pow]

/-- Only the low bits of a number count. -/
theorem bits_mod {w k : Nat} (h : w ≤ k) (n : Nat) : bits w (n % 2 ^ k) = bits w n := by
  induction w with
  | zero => rfl
  | succ w ih =>
      rw [bits, bits, ih (by omega), Nat.testBit_mod_two_pow, decide_eq_true (by omega : w < k),
        Bool.true_and]

theorem value_bits (w n : Nat) : value (bits w n) = n % 2 ^ w := by
  induction w with
  | zero => rw [Nat.pow_zero, Nat.mod_one]; rfl
  | succ w ih =>
      rw [bits, value, ih, length_bits, Nat.toNat_testBit, Nat.mod_pow_succ, Nat.mul_comm, Nat.add_comm]

theorem bits_value (stream : List Bool) : bits stream.length (value stream) = stream := by
  induction stream with
  | nil => rfl
  | cons b rest ih =>
      have hlt := value_lt rest
      have hquot : (b.toNat * 2 ^ rest.length + value rest) / 2 ^ rest.length = b.toNat := by
        rw [Nat.mul_comm, Nat.mul_add_div (Nat.two_pow_pos _), Nat.div_eq_of_lt hlt, Nat.add_zero]
      have hhigh : (b.toNat * 2 ^ rest.length + value rest).testBit rest.length = b := by
        rw [Nat.testBit_eq_decide_div_mod_eq, hquot]
        cases b <;> rfl
      have hlow : (b.toNat * 2 ^ rest.length + value rest) % 2 ^ rest.length = value rest := by
        rw [Nat.mul_comm, Nat.mul_add_mod, Nat.mod_eq_of_lt hlt]
      rw [value, List.length_cons, bits, hhigh, ← bits_mod le_rfl, hlow, ih]

end Bits

end BitGroups
end UnifiedDns
