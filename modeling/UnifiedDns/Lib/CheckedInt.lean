import Mathlib.Algebra.Order.Ring.Int
import Mathlib.Data.Int.Order.Basic
import Mathlib.Tactic.Linarith

/-!
# Signed words under overflow checks

Arithmetic on signed machine words in a program that stops when a result does not fit.

* `Fits` — the integers that a word of `w` bits holds.
* `checked` — the result of an operation, or nothing when the program has stopped.
* `Fits.of_between`, `Fits.mul_of_le`, `Fits.tdiv` — results that fit because others do.
* `foldlM_eq_foldl` — a run of checked steps that keep an invariant goes through and is the run without
  checks.
-/

namespace UnifiedDns
namespace Checked

variable {w : Nat}

/-- The integers that a signed word of `w` bits holds. -/
def Fits (w : Nat) (x : Int) : Prop := -2 ^ (w - 1) ≤ x ∧ x < 2 ^ (w - 1)

instance (w : Nat) (x : Int) : Decidable (Fits w x) := by
  unfold Fits
  infer_instance

/-- The result of an operation on words, if it fits. -/
def checked (w : Nat) (x : Int) : Option Int := if Fits w x then some x else none

theorem checked_of_fits {x : Int} (h : Fits w x) : checked w x = some x := if_pos h

/-- What goes on from a result is reached only when it fits. -/
theorem bind_checked {β : Type*} (x : Int) (next : Int → Option β) :
    (checked w x).bind next = if Fits w x then next x else none := by
  unfold checked
  split
  · rfl
  · rfl

theorem Fits.zero : Fits w 0 := by
  constructor
  · exact neg_nonpos.mpr (by positivity)
  · positivity

theorem Fits.of_between {a b x : Int} (ha : Fits w a) (hb : Fits w b) (hax : a ≤ x) (hxb : x ≤ b) :
    Fits w x :=
  ⟨ha.1.trans hax, hxb.trans_lt hb.2⟩

/-- A product with a smaller factor of the same sign. -/
theorem Fits.mul_of_le {a b r : Int} (h : Fits w (b * r)) (ha : 0 ≤ a) (hab : a ≤ b) :
    Fits w (a * r) := by
  rcases le_total 0 r with hr | hr
  · exact Fits.zero.of_between h (mul_nonneg ha hr) (mul_le_mul_of_nonneg_right hab hr)
  · exact h.of_between Fits.zero (mul_le_mul_of_nonpos_right hab hr)
      (mul_nonpos_of_nonneg_of_nonpos ha hr)

/-- A quotient by a positive number is between the dividend and 0. -/
theorem Fits.tdiv {x k : Int} (h : Fits w x) (hk : 0 ≤ k) : Fits w (x.tdiv k) := by
  rcases le_total 0 x with hx | hx
  · exact Fits.zero.of_between h (Int.tdiv_nonneg hx hk) (Int.tdiv_le_self _ hx)
  · have hneg : 0 ≤ -x := neg_nonneg.mpr hx
    have hquotient : -(x.tdiv k) = (-x).tdiv k := (Int.neg_tdiv ..).symm
    have hlow : (-x).tdiv k ≤ -x := Int.tdiv_le_self _ hneg
    have hhigh : 0 ≤ (-x).tdiv k := Int.tdiv_nonneg hneg hk
    exact h.of_between Fits.zero (by omega) (by omega)

section Runs

variable {S E : Type*} {step : S → E → S} {checkedStep : S → E → Option S} {inv : S → Prop}
  {p : E → Prop}

/-- Steps that go through from every state of an invariant and keep it make runs that go through. -/
theorem foldlM_eq_foldl
    (hstep : ∀ s event, inv s → p event → checkedStep s event = some (step s event))
    (hinv : ∀ s event, inv s → p event → inv (step s event)) {s : S} (hs : inv s) {events : List E}
    (hevents : ∀ event ∈ events, p event) :
    events.foldlM checkedStep s = some (events.foldl step s) := by
  induction events generalizing s with
  | nil => rfl
  | cons event rest ih =>
      obtain ⟨hevent, hrest⟩ := List.forall_mem_cons.mp hevents
      rw [List.foldlM_cons, hstep s event hs hevent]
      exact ih (hinv s event hs hevent) hrest

end Runs

end Checked
end UnifiedDns
