import Mathlib.Algebra.Order.Ring.Defs
import Mathlib.Tactic.Linarith
import Mathlib.Tactic.Ring

/-!
# Token meters

A meter that fills at a constant rate up to a depth and pays a fixed cost for every arrival, without any
rounding.

* `Meter.fill` — the level after some time.
* `Meter.Covers` — the meter can pay for every arrival of a schedule.
* `Meter.Conforms` — no window of the schedule costs more than the depth and what the window fills.
* `Meter.conforms_iff_covers` — a schedule conforms when a full meter covers it.
-/

namespace UnifiedDns

/-- The depth of a meter, what it gains in a unit of time, and what an arrival costs. -/
structure Meter (K : Type*) where
  depth : K
  rate : K
  cost : K

namespace Meter

section Windows

variable {K : Type*} [LinearOrder K] {s u t : K} {times : List K}

/-- The number of arrivals in a window, both ends included. -/
def inWindow (s u : K) (times : List K) : Nat := times.countP fun t => decide (s ≤ t ∧ t ≤ u)

@[simp] theorem inWindow_nil : inWindow s u ([] : List K) = 0 := rfl

theorem inWindow_cons (s u t : K) (times : List K) :
    inWindow s u (t :: times) = inWindow s u times + if s ≤ t ∧ t ≤ u then 1 else 0 := by
  simp only [inWindow, List.countP_cons, decide_eq_true_eq]

theorem inWindow_append (s u : K) (xs ys : List K) :
    inWindow s u (xs ++ ys) = inWindow s u xs + inWindow s u ys :=
  List.countP_append

/-- Later windows hold no earlier arrival. -/
theorem inWindow_eq_zero (h : ∀ t ∈ times, u < t) : inWindow s u times = 0 := by
  refine List.countP_eq_zero.mpr fun t ht hin => ?_
  exact absurd (of_decide_eq_true hin).2 (not_le.mpr (h t ht))

theorem inWindow_mono {u' : K} (hu : u ≤ u') : inWindow s u times ≤ inWindow s u' times := by
  refine List.countP_mono_left fun t _ hin => ?_
  obtain ⟨hs, ht⟩ := of_decide_eq_true hin
  exact decide_eq_true ⟨hs, ht.trans hu⟩

end Windows

variable {K : Type*} [CommRing K] [LinearOrder K]

/-- The level at `t` when it was `level` at `last`. -/
def fill (m : Meter K) (level last t : K) : K := min m.depth (level + m.rate * (t - last))

/-- Every arrival finds its cost in the meter. -/
def Covers (m : Meter K) : K → K → List K → Prop
  | _, _, [] => True
  | level, last, t :: rest =>
      m.cost ≤ m.fill level last t ∧ Covers m (m.fill level last t - m.cost) t rest

/-- What a window may cost. -/
def Conforms (m : Meter K) (times : List K) : Prop :=
  ∀ s u, s ≤ u → m.cost * (inWindow s u times : K) ≤ m.depth + m.rate * (u - s)

variable {m : Meter K} {level last s u t : K} {times : List K}

theorem fill_le_depth (m : Meter K) (level last t : K) : m.fill level last t ≤ m.depth :=
  min_le_left _ _

theorem fill_le (m : Meter K) (level last t : K) :
    m.fill level last t ≤ level + m.rate * (t - last) :=
  min_le_right _ _

@[simp] theorem fill_self (h : level ≤ m.depth) : m.fill level t t = level := by
  rw [fill, sub_self, mul_zero, add_zero, min_eq_right h]

variable [IsStrictOrderedRing K]

/-- Filling goes on from where it stopped. -/
theorem fill_fill (hrate : 0 ≤ m.rate) {t' : K} (h : t ≤ t') :
    m.fill (m.fill level last t) t t' = m.fill level last t' := by
  have hgain : 0 ≤ m.rate * (t' - t) := mul_nonneg hrate (sub_nonneg.mpr h)
  have hsum : m.rate * (t - last) + m.rate * (t' - t) = m.rate * (t' - last) := by ring
  unfold fill
  rcases le_total m.depth (level + m.rate * (t - last)) with hfull | hnot
  · rw [min_eq_left hfull, min_eq_left (by linarith), min_eq_left (by linarith)]
  · rw [min_eq_right hnot, add_assoc, hsum]

/-- The level may be read at any time before the next arrival. -/
theorem covers_fill (hrate : 0 ≤ m.rate) (hnext : ∀ u ∈ times, t ≤ u) :
    m.Covers (m.fill level last t) t times ↔ m.Covers level last times := by
  cases times with
  | nil => exact Iff.rfl
  | cons u rest =>
      unfold Covers
      rw [fill_fill hrate (hnext u List.mem_cons_self)]

/-- Arrivals at one time are paid together. -/
theorem covers_replicate (hcost : 0 ≤ m.cost) {n : Nat} (hlevel : level ≤ m.depth)
    (hpaid : (n : K) * m.cost ≤ level) (hrest : m.Covers (level - n * m.cost) t times) :
    m.Covers level t (List.replicate n t ++ times) := by
  induction n generalizing level with
  | zero =>
      rw [Nat.cast_zero, zero_mul, sub_zero] at hrest
      exact hrest
  | succ n ih =>
      rw [Nat.cast_succ, add_mul, one_mul] at hpaid hrest
      have hothers : 0 ≤ (n : K) * m.cost := mul_nonneg n.cast_nonneg hcost
      refine ⟨?_, ?_⟩
      · rw [fill_self hlevel]
        linarith
      · rw [fill_self hlevel]
        refine ih (by linarith) (by linarith) ?_
        rwa [sub_sub, add_comm m.cost]

/-- The costs of the arrivals until `u` are paid out of the level and of what fills until `u`. -/
theorem cost_le_level (hrate : 0 ≤ m.rate) (hcost : 0 ≤ m.cost) (hlevel : 0 ≤ level)
    (hcovers : m.Covers level last times) (hsorted : times.Pairwise (· ≤ ·))
    (hlast : ∀ t ∈ times, last ≤ t) (hu : last ≤ u) :
    m.cost * (inWindow s u times : K) ≤ level + m.rate * (u - last) := by
  induction times generalizing level last with
  | nil =>
      have hgain : 0 ≤ m.rate * (u - last) := mul_nonneg hrate (sub_nonneg.mpr hu)
      simp only [inWindow_nil, Nat.cast_zero, mul_zero]
      linarith
  | cons t rest ih =>
      obtain ⟨hpaid, hrest⟩ := hcovers
      obtain ⟨hfirst, hsortedRest⟩ := List.pairwise_cons.mp hsorted
      have htlast : last ≤ t := hlast t List.mem_cons_self
      rcases lt_or_ge u t with hlate | htu
      · rw [inWindow_eq_zero (List.forall_mem_cons.mpr
          ⟨hlate, fun t' ht' => lt_of_lt_of_le hlate (hfirst t' ht')⟩)]
        have hgain : 0 ≤ m.rate * (u - last) := mul_nonneg hrate (sub_nonneg.mpr hu)
        simp only [Nat.cast_zero, mul_zero]
        linarith
      · have hnext := ih (sub_nonneg.mpr hpaid) hrest hsortedRest hfirst htu
        have hfill := m.fill_le level last t
        have hsum : m.rate * (t - last) + m.rate * (u - t) = m.rate * (u - last) := by ring
        have hcount : (inWindow s u (t :: rest) : K) ≤ inWindow s u rest + 1 := by
          rw [inWindow_cons]
          split
          · exact_mod_cast le_rfl
          · simp
        have hmul := mul_le_mul_of_nonneg_left hcount hcost
        linarith [mul_add m.cost (inWindow s u rest : K) 1, mul_one m.cost]

/-- What a meter covers conforms to it. -/
theorem Covers.conforms (hrate : 0 ≤ m.rate) (hcost : 0 ≤ m.cost) (hdepth : 0 ≤ m.depth)
    (hcovers : m.Covers level last times) (hsorted : times.Pairwise (· ≤ ·)) : m.Conforms times := by
  intro s u hsu
  have hwindow : 0 ≤ m.rate * (u - s) := mul_nonneg hrate (sub_nonneg.mpr hsu)
  induction times generalizing level last with
  | nil =>
      simp only [inWindow_nil, Nat.cast_zero, mul_zero]
      linarith
  | cons t rest ih =>
      obtain ⟨hpaid, hrest⟩ := hcovers
      obtain ⟨hfirst, hsortedRest⟩ := List.pairwise_cons.mp hsorted
      by_cases hin : s ≤ t ∧ t ≤ u
      · -- The window begins with this arrival.
        have hlater := cost_le_level (s := s) hrate hcost (sub_nonneg.mpr hpaid) hrest hsortedRest hfirst
          hin.2
        have hfull := m.fill_le_depth level last t
        have hshift : m.rate * (u - t) ≤ m.rate * (u - s) :=
          mul_le_mul_of_nonneg_left (by linarith [hin.1]) hrate
        rw [inWindow_cons, if_pos hin, Nat.cast_add, Nat.cast_one, mul_add, mul_one]
        linarith
      · rw [inWindow_cons, if_neg hin, Nat.add_zero]
        exact ih hrest hsortedRest

/-- The level is not below what some window leaves of the depth. -/
theorem covers_of_window (hcost : 0 ≤ m.cost) {all : List K} (before : List K) (hall : all = before ++ times)
    (hconforms : m.Conforms all) (hsorted : times.Pairwise (· ≤ ·)) (hlast : ∀ t ∈ times, last ≤ t)
    (hwindow : s ≤ last ∧
      m.depth + m.rate * (last - s) - m.cost * (inWindow s last before : K) ≤ level) :
    m.Covers level last times := by
  induction times generalizing before level last s with
  | nil => trivial
  | cons t rest ih =>
      obtain ⟨hfirst, hsortedRest⟩ := List.pairwise_cons.mp hsorted
      obtain ⟨hslast, hlevel⟩ := hwindow
      have htlast : last ≤ t := hlast t List.mem_cons_self
      have hall' : all = (before ++ [t]) ++ rest := by rw [hall, List.append_assoc]; rfl
      -- After the arrival, the level is what the old window or the one that begins now leaves.
      have hnext : ∃ s', s' ≤ t ∧ m.depth + m.rate * (t - s') -
          m.cost * (inWindow s' t (before ++ [t]) : K) ≤ m.fill level last t - m.cost := by
        have hown (s' : K) (hs' : s' ≤ t) (n : Nat) (hn : n ≤ inWindow s' t before) :
            m.cost * (n : K) + m.cost ≤ m.cost * (inWindow s' t (before ++ [t]) : K) := by
          have hcount : (n : K) + 1 ≤ inWindow s' t (before ++ [t]) := by
            rw [inWindow_append, inWindow_cons, if_pos ⟨hs', le_rfl⟩]
            exact_mod_cast Nat.add_le_add_right hn 1
          have hmul := mul_le_mul_of_nonneg_left hcount hcost
          rwa [mul_add, mul_one] at hmul
        rcases le_total m.depth (level + m.rate * (t - last)) with hfull | hnot
        · refine ⟨t, le_rfl, ?_⟩
          have hone := hown t le_rfl 0 (Nat.zero_le _)
          simp only [Nat.cast_zero, mul_zero, zero_add] at hone
          rw [fill, min_eq_left hfull, sub_self, mul_zero]
          linarith
        · refine ⟨s, hslast.trans htlast, ?_⟩
          have hone := hown s (hslast.trans htlast) _ (inWindow_mono htlast)
          have hsum : m.rate * (last - s) + m.rate * (t - last) = m.rate * (t - s) := by ring
          rw [fill, min_eq_right hnot]
          linarith
      obtain ⟨s', hs', hlevel'⟩ := hnext
      refine ⟨?_, ih (before ++ [t]) hall' hsortedRest hfirst ⟨hs', hlevel'⟩⟩
      -- The whole schedule pays for the window, so the level is not negative.
      have hpaid := hconforms s' t hs'
      have hpart : (inWindow s' t (before ++ [t]) : K) ≤ inWindow s' t all := by
        rw [hall', inWindow_append s' t (before ++ [t])]
        exact_mod_cast Nat.le_add_right _ _
      have hmul := mul_le_mul_of_nonneg_left hpart hcost
      linarith

/-- **A schedule conforms when a full meter covers it.** -/
theorem conforms_iff_covers (hrate : 0 ≤ m.rate) (hcost : 0 ≤ m.cost) (hdepth : 0 ≤ m.depth)
    (hsorted : times.Pairwise (· ≤ ·)) (hlast : ∀ t ∈ times, last ≤ t) :
    m.Conforms times ↔ m.Covers m.depth last times := by
  constructor
  · intro hconforms
    apply covers_of_window hcost [] rfl hconforms hsorted hlast
    exact ⟨le_rfl, by simp⟩
  · exact fun hcovers => hcovers.conforms hrate hcost hdepth hsorted

end Meter
end UnifiedDns
