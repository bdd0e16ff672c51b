import Mathlib.Data.List.Basic
import Mathlib.Logic.Basic

/-!
# Following steps with a memory

A point allows at most one step, and the step says where it leads.  `chase` follows the steps from a
point until none is allowed, a point comes up again, or a number of steps is used up; points are told
apart by a key.

* `Follows`, `Stuck`, `EndsAfter`, `Revisits` — the walk itself, without a memory or a limit.
* `chase` — the loop: first the memory is asked, then the limit, then the next step is looked for.
* `chase_complete`, `chase_loop_iff`, `chase_tooLong` — what its outcomes say about the walk.
* `chase_complete_iff` — a walk whose steps depend on the keys alone is completed exactly when it ends
  before the limit is reached.
-/

namespace UnifiedDns
namespace Chase

variable {α σ κ : Type*}

/-- The steps lead from one point to the other, each starting where the one before it ended. -/
inductive Follows (R : α → σ → Prop) (dest : σ → α) : α → List σ → α → Prop
  | nil (a : α) : Follows R dest a [] a
  | cons {a b : α} {s : σ} {steps : List σ} :
      R a s → Follows R dest (dest s) steps b → Follows R dest a (s :: steps) b

/-- No step is allowed. -/
def Stuck (R : α → σ → Prop) (a : α) : Prop := ∀ s, ¬ R a s

/-- The walk from a point ends after this many steps. -/
def EndsAfter (R : α → σ → Prop) (dest : σ → α) (n : Nat) (a : α) : Prop :=
  ∃ steps b, Follows R dest a steps b ∧ Stuck R b ∧ steps.length = n

/-- Within this many steps the walk comes to a key it has left before. -/
def Revisits (R : α → σ → Prop) (dest : σ → α) (key : α → κ) (n : Nat) (a : α) : Prop :=
  ∃ front c loop b, Follows R dest a front c ∧ Follows R dest c loop b ∧ loop ≠ [] ∧
    key b = key c ∧ front.length + loop.length ≤ n

/-- How a chase ends. -/
inductive Outcome (σ : Type*)
  | complete (steps : List σ)
  | loop
  | tooLong

/-- Put a step in front. -/
def Outcome.cons (s : σ) : Outcome σ → Outcome σ
  | .complete steps => .complete (s :: steps)
  | .loop => .loop
  | .tooLong => .tooLong

/-- Follow the steps with a limit and the keys that were seen. -/
def chase [DecidableEq κ] (next : α → Option σ) (dest : σ → α) (key : α → κ) :
    Nat → List κ → α → Outcome σ
  | limit, seen, a =>
      -- The memory is asked before the limit, and the limit before the next step.
      if key a ∈ seen then .loop
      else
        match limit with
        | 0 => .tooLong
        | limit + 1 =>
            match next a with
            | none => .complete []
            | some s => (chase next dest key limit (key a :: seen) (dest s)).cons s

/-- The points left behind on a walk. -/
def passed (dest : σ → α) : α → List σ → List α
  | _, [] => []
  | a, s :: steps => a :: passed dest (dest s) steps

theorem Outcome.cons_eq_complete {s : σ} {outcome : Outcome σ} {steps : List σ}
    (h : outcome.cons s = .complete steps) :
    ∃ rest, outcome = .complete rest ∧ steps = s :: rest := by
  cases outcome with
  | complete rest =>
      cases h
      exact ⟨rest, rfl, rfl⟩
  | loop => cases h
  | tooLong => cases h

@[simp] theorem Outcome.cons_eq_loop {s : σ} {outcome : Outcome σ} :
    outcome.cons s = .loop ↔ outcome = .loop := by
  cases outcome <;> simp [Outcome.cons]

@[simp] theorem Outcome.cons_eq_tooLong {s : σ} {outcome : Outcome σ} :
    outcome.cons s = .tooLong ↔ outcome = .tooLong := by
  cases outcome <;> simp [Outcome.cons]

section Walk

variable {R : α → σ → Prop} {dest : σ → α} {key : α → κ}

theorem follows_nil {a b : α} : Follows R dest a [] b ↔ a = b := by
  constructor
  · intro h
    cases h
    rfl
  · rintro rfl
    exact .nil a

theorem follows_cons {a b : α} {s : σ} {steps : List σ} :
    Follows R dest a (s :: steps) b ↔ R a s ∧ Follows R dest (dest s) steps b := by
  constructor
  · intro h
    cases h with
    | cons hstep hrest => exact ⟨hstep, hrest⟩
  · rintro ⟨hstep, hrest⟩
    exact .cons hstep hrest

theorem Follows.append {a b c : α} {front rest : List σ} (h : Follows R dest a front b)
    (h' : Follows R dest b rest c) : Follows R dest a (front ++ rest) c := by
  induction h with
  | nil => exact h'
  | cons hstep _ ih => exact .cons hstep (ih h')

/-- A point is left behind exactly when the walk can be cut there with steps still to come. -/
theorem mem_passed_iff {a b c : α} {steps : List σ} (h : Follows R dest a steps b) :
    c ∈ passed dest a steps ↔
      ∃ front loop, steps = front ++ loop ∧ loop ≠ [] ∧ Follows R dest a front c ∧
        Follows R dest c loop b := by
  induction steps generalizing a with
  | nil =>
      simp only [passed, List.not_mem_nil, false_iff]
      rintro ⟨front, loop, hsplit, hloop, -⟩
      exact hloop (List.append_eq_nil_iff.mp hsplit.symm).2
  | cons s steps ih =>
      obtain ⟨hstep, hrest⟩ := follows_cons.mp h
      simp only [passed, List.mem_cons]
      constructor
      · rintro (rfl | hmem)
        · exact ⟨[], s :: steps, rfl, List.cons_ne_nil _ _, .nil c, h⟩
        · obtain ⟨front, loop, rfl, hloop, hfront, htail⟩ := (ih hrest).mp hmem
          exact ⟨s :: front, loop, rfl, hloop, .cons hstep hfront, htail⟩
      · rintro ⟨front, loop, hsplit, hloop, hfront, htail⟩
        cases front with
        | nil => exact Or.inl (follows_nil.mp hfront).symm
        | cons s' front =>
            obtain ⟨rfl, htailSplit⟩ := List.cons_eq_cons.mp hsplit
            exact Or.inr ((ih hrest).mpr
              ⟨front, loop, htailSplit, hloop, (follows_cons.mp hfront).2, htail⟩)

theorem revisits_iff {n : Nat} {a : α} :
    Revisits R dest key n a ↔
      ∃ steps b, Follows R dest a steps b ∧ steps.length ≤ n ∧
        key b ∈ (passed dest a steps).map key := by
  constructor
  · rintro ⟨front, c, loop, b, hfront, hloop, hne, hkey, hlength⟩
    have hwalk := hfront.append hloop
    refine ⟨front ++ loop, b, hwalk, by simpa using hlength, List.mem_map.mpr ⟨c, ?_, hkey.symm⟩⟩
    exact (mem_passed_iff hwalk).mpr ⟨front, loop, rfl, hne, hfront, hloop⟩
  · rintro ⟨steps, b, hwalk, hlength, hmem⟩
    obtain ⟨c, hc, hkey⟩ := List.mem_map.mp hmem
    obtain ⟨front, loop, rfl, hne, hfront, hloop⟩ := (mem_passed_iff hwalk).mp hc
    exact ⟨front, c, loop, b, hfront, hloop, hne, hkey.symm, by simpa using hlength⟩

end Walk

section Deterministic

variable {R : α → σ → Prop} {dest : σ → α} {key : α → κ}
variable (hunique : ∀ a s s', R a s → R a s' → s = s')
include hunique

/-- A walk that cannot go on extends every other walk from the same point. -/
theorem Follows.extends {a b c : α} {steps steps' : List σ} (h : Follows R dest a steps b)
    (hstuck : Stuck R b) (h' : Follows R dest a steps' c) :
    ∃ rest, steps = steps' ++ rest ∧ Follows R dest c rest b := by
  -- Both walks take the only step there is, as long as the second one goes on.
  induction h' generalizing steps with
  | nil a => exact ⟨steps, rfl, h⟩
  | @cons a c s steps' hstep _ ih =>
      cases h with
      | nil => exact absurd hstep (hstuck s)
      | cons hstep' hrest =>
          obtain rfl := hunique a _ _ hstep hstep'
          obtain ⟨rest, rfl, hwalk⟩ := ih hrest
          exact ⟨rest, rfl, hwalk⟩

theorem EndsAfter.length_le {n : Nat} {a c : α} {steps : List σ} (h : EndsAfter R dest n a)
    (h' : Follows R dest a steps c) : steps.length ≤ n := by
  obtain ⟨all, b, hwalk, hstuck, rfl⟩ := h
  obtain ⟨rest, rfl, -⟩ := hwalk.extends hunique hstuck h'
  rw [List.length_append]
  exact Nat.le_add_right _ _

theorem Follows.unique {a b c : α} {steps steps' : List σ} (h : Follows R dest a steps b)
    (hstuck : Stuck R b) (h' : Follows R dest a steps' c) (hstuck' : Stuck R c) :
    steps = steps' := by
  obtain ⟨rest, rfl, hrest⟩ := h.extends hunique hstuck h'
  cases hrest with
  | nil => rw [List.append_nil]
  | cons hstep _ => exact absurd hstep (hstuck' _)

theorem EndsAfter.unique {n m : Nat} {a : α} (h : EndsAfter R dest n a)
    (h' : EndsAfter R dest m a) : n = m := by
  obtain ⟨steps, b, hwalk, hstuck, rfl⟩ := h
  obtain ⟨steps', b', hwalk', hstuck', rfl⟩ := h'
  rw [hwalk.unique hunique hstuck hwalk' hstuck']

variable (hrespects : ∀ a b s, key a = key b → R a s → ∃ t, R b t ∧ key (dest t) = key (dest s))
include hrespects

omit hunique in
/-- Points with one key end after the same number of steps. -/
theorem EndsAfter.congr {n : Nat} {a b : α} (hkey : key a = key b) (h : EndsAfter R dest n a) :
    EndsAfter R dest n b := by
  obtain ⟨steps, c, hwalk, hstuck, rfl⟩ := h
  induction hwalk generalizing b with
  | nil a =>
      refine ⟨[], b, .nil b, ?_, rfl⟩
      intro s hs
      obtain ⟨t, ht, -⟩ := hrespects b a s hkey.symm hs
      exact hstuck t ht
  | @cons a c s steps hstep _ ih =>
      obtain ⟨t, ht, hdest⟩ := hrespects a b s hkey hstep
      obtain ⟨steps', c', hwalk', hstuck', hlength⟩ := ih hdest.symm hstuck
      exact ⟨t :: steps', c', .cons ht hwalk', hstuck', by simp [hlength]⟩

/-- A walk that ends comes to no key again. -/
theorem EndsAfter.not_revisits {n m : Nat} {a : α} (h : EndsAfter R dest n a) :
    ¬ Revisits R dest key m a := by
  rintro ⟨front, c, loop, b, hfront, hloop, hne, hkey, -⟩
  obtain ⟨steps, last, hwalk, hstuck, -⟩ := h
  obtain ⟨rest, -, hrest⟩ := hwalk.extends hunique hstuck hfront
  obtain ⟨tail, rfl, htail⟩ := hrest.extends hunique hstuck hloop
  -- From both points the walk is equally long, but the loop lies between them.
  have hends : EndsAfter R dest tail.length c :=
    EndsAfter.congr hrespects hkey ⟨tail, last, htail, hstuck, rfl⟩
  have hlength : tail.length = (loop ++ tail).length :=
    hends.unique hunique ⟨loop ++ tail, last, hrest, hstuck, rfl⟩
  rw [List.length_append] at hlength
  have hpos : 0 < loop.length := List.length_pos_iff.mpr hne
  omega

end Deterministic

section Loop

variable [DecidableEq κ] {R : α → σ → Prop} {dest : σ → α} {key : α → κ} {next : α → Option σ}
variable (hnext : ∀ a s, R a s ↔ next a = some s)
include hnext

theorem stuck_iff {a : α} : Stuck R a ↔ next a = none := by
  simp only [Stuck, hnext, Option.eq_none_iff_forall_ne_some, ne_eq]

/-- A completed chase is a walk to its end, shorter than the limit. -/
theorem chase_complete {limit : Nat} {seen : List κ} {a : α} {steps : List σ}
    (h : chase next dest key limit seen a = .complete steps) :
    (∃ b, Follows R dest a steps b ∧ Stuck R b) ∧ steps.length < limit := by
  induction limit generalizing seen a steps with
  | zero =>
      rw [chase] at h
      split at h <;> cases h
  | succ limit ih =>
      rw [chase] at h
      split at h
      · cases h
      · cases hstep : next a with
        | none =>
            simp only [hstep] at h
            cases h
            exact ⟨⟨a, .nil a, (stuck_iff hnext).mpr hstep⟩, Nat.succ_pos _⟩
        | some s =>
            simp only [hstep] at h
            obtain ⟨rest, hrest, rfl⟩ := Outcome.cons_eq_complete h
            obtain ⟨⟨b, hwalk, hstuck⟩, hlength⟩ := ih hrest
            exact ⟨⟨b, .cons ((hnext a s).mpr hstep) hwalk, hstuck⟩, Nat.succ_lt_succ hlength⟩

/-- The chase is given up only when the limit is used up. -/
theorem chase_tooLong {limit : Nat} {seen : List κ} {a : α}
    (h : chase next dest key limit seen a = .tooLong) :
    ∃ steps b, Follows R dest a steps b ∧ steps.length = limit := by
  induction limit generalizing seen a with
  | zero => exact ⟨[], a, .nil a, rfl⟩
  | succ limit ih =>
      rw [chase] at h
      split at h
      · cases h
      · cases hstep : next a with
        | none =>
            simp only [hstep] at h
            cases h
        | some s =>
            simp only [hstep, Outcome.cons_eq_tooLong] at h
            obtain ⟨steps, b, hwalk, hlength⟩ := ih h
            exact ⟨s :: steps, b, .cons ((hnext a s).mpr hstep) hwalk, by simp [hlength]⟩

/-- A loop is reported exactly when a key comes up that was seen or left behind; the limit counts
steps, so the point behind the last one is still looked up. -/
theorem chase_loop_iff_passed {limit : Nat} {seen : List κ} {a : α} :
    chase next dest key limit seen a = .loop ↔
      ∃ steps b, Follows R dest a steps b ∧ steps.length ≤ limit ∧
        (key b ∈ (passed dest a steps).map key ∨ key b ∈ seen) := by
  -- A point that is left behind is seen by the rest of the chase.
  induction limit generalizing seen a with
  | zero =>
      rw [chase]
      by_cases hseen : key a ∈ seen
      · rw [if_pos hseen]
        exact iff_of_true rfl ⟨[], a, .nil a, Nat.le_refl 0, Or.inr hseen⟩
      · rw [if_neg hseen]
        refine iff_of_false nofun ?_
        rintro ⟨steps, b, hwalk, hlength, hkey⟩
        obtain rfl := List.length_eq_zero_iff.mp (Nat.le_zero.mp hlength)
        obtain rfl := follows_nil.mp hwalk
        simp [passed, hseen] at hkey
  | succ limit ih =>
      rw [chase]
      by_cases hseen : key a ∈ seen
      · rw [if_pos hseen]
        exact iff_of_true rfl ⟨[], a, .nil a, Nat.zero_le _, Or.inr hseen⟩
      · rw [if_neg hseen]
        cases hstep : next a with
        | none =>
            refine iff_of_false nofun ?_
            rintro ⟨steps, b, hwalk, -, hkey⟩
            cases hwalk with
            | nil => simp [passed, hseen] at hkey
            | cons hs _ => exact (stuck_iff hnext).mpr hstep _ hs
        | some s =>
            have hs := (hnext a s).mpr hstep
            simp only [Outcome.cons_eq_loop]
            rw [ih]
            constructor
            · rintro ⟨steps, b, hwalk, hlength, hkey⟩
              refine ⟨s :: steps, b, .cons hs hwalk, Nat.succ_le_succ hlength, ?_⟩
              simp only [passed, List.map_cons, List.mem_cons] at hkey ⊢
              tauto
            · rintro ⟨steps, b, hwalk, hlength, hkey⟩
              cases hwalk with
              | nil => simp [passed, hseen] at hkey
              | @cons _ _ s' steps hs' hrest =>
                  obtain rfl : s = s' := Option.some.inj (hstep.symm.trans ((hnext a s').mp hs'))
                  refine ⟨steps, b, hrest, Nat.le_of_succ_le_succ hlength, ?_⟩
                  simp only [passed, List.map_cons, List.mem_cons] at hkey ⊢
                  tauto

theorem chase_loop_iff {limit : Nat} {a : α} :
    chase next dest key limit [] a = .loop ↔ Revisits R dest key limit a := by
  rw [chase_loop_iff_passed hnext, revisits_iff]
  simp only [List.not_mem_nil, or_false]

/-- When steps depend on the keys alone, the chase is completed exactly when the walk ends before the
limit is reached. -/
theorem chase_complete_iff
    (hrespects : ∀ a b s, key a = key b → R a s → ∃ t, R b t ∧ key (dest t) = key (dest s))
    {limit : Nat} {a : α} {steps : List σ} :
    chase next dest key limit [] a = .complete steps ↔
      (∃ b, Follows R dest a steps b ∧ Stuck R b) ∧ steps.length < limit := by
  refine ⟨chase_complete hnext, ?_⟩
  rintro ⟨⟨b, hwalk, hstuck⟩, hlength⟩
  have hunique : ∀ a s s', R a s → R a s' → s = s' := by
    intro a s s' hs hs'
    exact Option.some.inj (((hnext a s).mp hs).symm.trans ((hnext a s').mp hs'))
  have hends : EndsAfter R dest steps.length a := ⟨steps, b, hwalk, hstuck, rfl⟩
  -- A loop would come to a key again, and the limit would be used up by a longer walk.
  cases hchase : chase next dest key limit [] a with
  | complete steps' =>
      obtain ⟨⟨b', hwalk', hstuck'⟩, -⟩ := chase_complete hnext hchase
      rw [hwalk.unique hunique hstuck hwalk' hstuck']
  | loop => exact absurd ((chase_loop_iff hnext).mp hchase) (hends.not_revisits hunique hrespects)
  | tooLong =>
      obtain ⟨steps', b', hwalk', hlength'⟩ := chase_tooLong hnext hchase
      have hle := hends.length_le hunique hwalk'
      omega

end Loop

end Chase
end UnifiedDns
