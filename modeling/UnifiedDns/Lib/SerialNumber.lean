import Mathlib.Data.BitVec
import Mathlib.Data.Int.ModEq
import Mathlib.Tactic.Linarith

/-!
# Serial numbers

Numbers that count modulo a power of two, compared by their distance: of two numbers the one that is less
than half the circle ahead is the later.

* `Serial.distance` — the signed distance between two numbers.
* `Serial.Precedes` — the comparison of the standard, by cases on the unsigned values.
* `Serial.distance_pos_iff` — it is the sign of the distance.
* `Serial.distance_elapsed` — a time that has not come up to a number approaches it step by step, also
  across the wrap.
* `Serial.distance_eq_of_modEq`, `Serial.within_iff` — the distance on the integers the numbers stand
  for: a clock is between two numbers when it is in an interval of less than half the circle.
-/

namespace UnifiedDns
namespace Serial

variable {w : Nat}

/-- How far `b` is ahead of `a`; negative when it is behind. -/
def distance (a b : BitVec w) : Int := (b - a).toInt

/-- `a` comes before `b`: less than half the circle lies between them. -/
def Precedes (a b : BitVec w) : Prop :=
  (a.toNat < b.toNat ∧ 2 * (b.toNat - a.toNat) < 2 ^ w) ∨
    (b.toNat < a.toNat ∧ 2 ^ w < 2 * (a.toNat - b.toNat))

instance (a b : BitVec w) : Decidable (Precedes a b) := by
  unfold Precedes
  infer_instance

/-- The unsigned distance, by cases on the order of the unsigned values. -/
theorem toNat_sub_cases (a b : BitVec w) :
    (b - a).toNat =
      if a.toNat ≤ b.toNat then b.toNat - a.toNat else 2 ^ w - (a.toNat - b.toNat) := by
  have ha := a.isLt
  have hb := b.isLt
  rw [BitVec.toNat_sub]
  split
  · rename_i hle
    rw [show 2 ^ w - a.toNat + b.toNat = b.toNat - a.toNat + 2 ^ w by omega, Nat.add_mod_right,
      Nat.mod_eq_of_lt (by omega)]
  · rename_i hlt
    rw [Nat.mod_eq_of_lt (by omega)]
    omega

/-- The comparison is the sign of the distance. -/
theorem distance_pos_iff {a b : BitVec w} : 0 < distance a b ↔ Precedes a b := by
  have ha := a.isLt
  have hb := b.isLt
  have hsub := toNat_sub_cases a b
  unfold distance Precedes
  rw [BitVec.toInt_eq_toNat_cond]
  split at hsub
  · rw [hsub]
    split
    · omega
    · omega
  · rw [hsub]
    split
    · omega
    · omega

theorem sub_ofNat_add (b : BitVec w) (start elapsed : Nat) :
    b - BitVec.ofNat w (start + elapsed) = b - BitVec.ofNat w start - BitVec.ofNat w elapsed := by
  rw [BitVec.ofNat_add, sub_add_eq_sub_sub]

/-- A distance that is longer than the time that passes shrinks by it. -/
theorem distance_elapsed {b : BitVec w} {start elapsed : Nat}
    (h : (elapsed : Int) < distance (BitVec.ofNat w start) b) :
    distance (BitVec.ofNat w (start + elapsed)) b =
      distance (BitVec.ofNat w start) b - elapsed := by
  unfold distance at h ⊢
  rw [sub_ofNat_add]
  generalize b - BitVec.ofNat w start = d at h ⊢
  have hd := d.isLt
  -- The distance is positive, hence below half the circle, and so is the time that passed.
  rw [BitVec.toInt_eq_toNat_cond] at h ⊢
  rw [BitVec.toInt_eq_toNat_cond d]
  split at h
  · rename_i hhalf
    have hlt : elapsed < 2 ^ w := by omega
    have hle : BitVec.ofNat w elapsed ≤ d := by
      rw [BitVec.le_def, BitVec.toNat_ofNat, Nat.mod_eq_of_lt hlt]
      omega
    rw [BitVec.toNat_sub_of_le hle, BitVec.toNat_ofNat, Nat.mod_eq_of_lt hlt, if_pos hhalf,
      if_pos (by omega)]
    omega
  · omega

theorem toInt_nonneg_iff {d : BitVec w} : 0 ≤ d.toInt ↔ 2 * d.toNat < 2 ^ w := by
  have hd := d.isLt
  rw [BitVec.toInt_eq_toNat_cond]
  split
  · omega
  · omega

/-- A time that has not passed a number at the start and at the end of less than half a round has not
passed it in between. -/
theorem distance_nonneg_between {b : BitVec w} {start m n : Nat} (hm : m ≤ n) (hn : 2 * n < 2 ^ w)
    (hstart : 0 ≤ distance (BitVec.ofNat w start) b)
    (hend : 0 ≤ distance (BitVec.ofNat w (start + n)) b) :
    0 ≤ distance (BitVec.ofNat w (start + m)) b := by
  unfold distance at hstart hend ⊢
  rw [sub_ofNat_add] at hend ⊢
  generalize b - BitVec.ofNat w start = d at hstart hend ⊢
  rw [toInt_nonneg_iff] at hstart hend ⊢
  have hd := d.isLt
  rw [toNat_sub_cases, BitVec.toNat_ofNat, Nat.mod_eq_of_lt (by omega)] at hend ⊢
  split at hend
  · rw [if_pos (by omega)]
    omega
  · omega

/-- The same for a number that has been passed. -/
theorem distance_nonneg_between' {a : BitVec w} {start m n : Nat} (hm : m ≤ n) (hn : 2 * n < 2 ^ w)
    (hstart : 0 ≤ distance a (BitVec.ofNat w start))
    (hend : 0 ≤ distance a (BitVec.ofNat w (start + n))) :
    0 ≤ distance a (BitVec.ofNat w (start + m)) := by
  have hsplit : ∀ k, BitVec.ofNat w (start + k) - a =
      BitVec.ofNat w start - a + BitVec.ofNat w k := by
    intro k
    rw [BitVec.ofNat_add, sub_add_eq_add_sub]
  unfold distance at hstart hend ⊢
  rw [hsplit] at hend ⊢
  generalize BitVec.ofNat w start - a = d at hstart hend ⊢
  rw [toInt_nonneg_iff] at hstart hend ⊢
  have hd := d.isLt
  rw [BitVec.toNat_add, BitVec.toNat_ofNat, Nat.add_mod_mod, Nat.mod_eq_of_lt (by omega)] at hend ⊢
  omega

/-! ### The integers behind the numbers -/

/-- The distance is the difference of any integers the numbers stand for, up to whole rounds. -/
theorem distance_modEq {a b : BitVec w} {x y : Int} (ha : x ≡ a.toNat [ZMOD 2 ^ w])
    (hb : y ≡ b.toNat [ZMOD 2 ^ w]) : distance a b ≡ y - x [ZMOD 2 ^ w] := by
  have hsub : (b - a).toInt ≡ b.toInt - a.toInt [ZMOD 2 ^ w] := by
    rw [BitVec.toInt_sub]
    exact_mod_cast Int.bmod_emod
  have htoInt : ∀ c : BitVec w, c.toInt ≡ c.toNat [ZMOD 2 ^ w] := by
    intro c
    rw [BitVec.toInt_eq_toNat_bmod]
    exact_mod_cast Int.bmod_emod
  exact hsub.trans (((htoInt b).trans hb.symm).sub ((htoInt a).trans ha.symm))

/-- Integers that agree up to whole rounds and are less than a round apart are equal. -/
theorem eq_of_modEq_of_lt {x y : Int} (h : x ≡ y [ZMOD 2 ^ w]) (hlow : x - y < 2 ^ w)
    (hhigh : y - x < 2 ^ w) : x = y := by
  have hzero := Int.eq_zero_of_abs_lt_dvd h.symm.dvd (abs_lt.mpr ⟨by linarith, hlow⟩)
  linarith

/-- Integers less than half a round apart have the distance of their numbers. -/
theorem distance_eq_of_modEq {a b : BitVec w} {x y : Int} (ha : x ≡ a.toNat [ZMOD 2 ^ w])
    (hb : y ≡ b.toNat [ZMOD 2 ^ w]) (hlow : -2 ^ w ≤ 2 * (y - x)) (hhigh : 2 * (y - x) < 2 ^ w) :
    distance a b = y - x := by
  have hleast : -2 ^ w ≤ 2 * distance a b := BitVec.le_two_mul_toInt
  have hmost : 2 * distance a b < 2 ^ w := BitVec.two_mul_toInt_lt
  apply eq_of_modEq_of_lt (distance_modEq ha hb)
  · linarith
  · linarith

theorem ofNat_modEq (t : Nat) : (t : Int) ≡ (BitVec.ofNat w t).toNat [ZMOD 2 ^ w] := by
  rw [BitVec.toNat_ofNat]
  push_cast
  exact (Int.mod_modEq _ _).symm

/-- A clock is past one number and not past another, and the two are in order, exactly when the clock is
in an interval of integers that they stand for and that is shorter than half a round. -/
theorem within_iff {a b : BitVec w} {t : Nat} :
    (0 ≤ distance a (BitVec.ofNat w t) ∧ 0 ≤ distance (BitVec.ofNat w t) b ∧ 0 < distance a b) ↔
      ∃ x y : Int, x ≡ a.toNat [ZMOD 2 ^ w] ∧ y ≡ b.toNat [ZMOD 2 ^ w] ∧ x ≤ t ∧ t ≤ y ∧
        0 < y - x ∧ 2 * (y - x) < 2 ^ w := by
  have ht := ofNat_modEq (w := w) t
  constructor
  · rintro ⟨hpast, hahead, horder⟩
    have hshort : 2 * distance a (BitVec.ofNat w t) < 2 ^ w := BitVec.two_mul_toInt_lt
    have hshort' : 2 * distance (BitVec.ofNat w t) b < 2 ^ w := BitVec.two_mul_toInt_lt
    have hhalf : 2 * distance a b < 2 ^ w := BitVec.two_mul_toInt_lt
    have ha : (a.toNat : Int) ≡ a.toNat [ZMOD 2 ^ w] := Int.ModEq.refl _
    have hb : (b.toNat : Int) ≡ b.toNat [ZMOD 2 ^ w] := Int.ModEq.refl _
    have hx := distance_modEq ha ht
    have hy := distance_modEq ht hb
    -- The two distances of the clock add up to the distance of the numbers.
    have hsum : distance a b =
        distance a (BitVec.ofNat w t) + distance (BitVec.ofNat w t) b := by
      apply eq_of_modEq_of_lt (w := w)
      · have hadd := hx.add hy
        rw [show (t : Int) - a.toNat + (b.toNat - t) = b.toNat - a.toNat by omega] at hadd
        exact (distance_modEq ha hb).trans hadd.symm
      · linarith
      · linarith
    refine ⟨t - distance a (BitVec.ofNat w t), t + distance (BitVec.ofNat w t) b, ?_, ?_, ?_, ?_, ?_,
      ?_⟩
    · have hsub := (Int.ModEq.refl (t : Int)).sub hx
      rwa [sub_sub_cancel] at hsub
    · have hadd := (Int.ModEq.refl (t : Int)).add hy
      rwa [add_sub_cancel] at hadd
    · linarith
    · linarith
    · linarith
    · linarith
  · rintro ⟨x, y, hx, hy, hxt, hty, horder, hhalf⟩
    rw [distance_eq_of_modEq hx ht (by linarith) (by linarith),
      distance_eq_of_modEq ht hy (by linarith) (by linarith),
      distance_eq_of_modEq hx hy (by linarith) hhalf]
    exact ⟨by linarith, by linarith, horder⟩

end Serial
end UnifiedDns
