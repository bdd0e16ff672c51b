import Mathlib.Data.List.Basic

/-!
# Properties along runs

A run is a list of events, folded over a state by a step function.

* `Along` — a property of every event and the state it meets.
* `Along.invariant` — what such events keep holds at the end.
* `foldl_records` — what a step notes down, a run notes down in order.
-/

namespace UnifiedDns

variable {S E : Type*} {step : S → E → S} {p : S → E → Prop}

/-- Every event of the run has the property in the state it meets. -/
def Along (step : S → E → S) (p : S → E → Prop) : S → List E → Prop
  | _, [] => True
  | s, event :: rest => p s event ∧ Along step p (step s event) rest

/-- A property that the events have in every state. -/
theorem Along.of_mem {events : List E} (h : ∀ event ∈ events, ∀ s, p s event) (s : S) :
    Along step p s events := by
  induction events generalizing s with
  | nil => trivial
  | cons event rest ih =>
      obtain ⟨hevent, hrest⟩ := List.forall_mem_cons.mp h
      exact ⟨hevent s, ih hrest _⟩

/-- A property that does not look at the state. -/
theorem Along.of_forall {allowed : E → Prop} {events : List E} (h : ∀ event ∈ events, allowed event)
    (s : S) : Along step (fun _ event => allowed event) s events :=
  Along.of_mem (fun event hevent _ => h event hevent) s

/-- An invariant that such events keep. -/
theorem Along.invariant {inv : S → Prop} (hstep : ∀ s event, inv s → p s event → inv (step s event))
    {s : S} (hs : inv s) {events : List E} (h : Along step p s events) :
    inv (events.foldl step s) := by
  induction events generalizing s with
  | nil => exact hs
  | cons event rest ih => exact ih (hstep s event hs h.1) h.2

/-- A record to which every event adds at most one entry. -/
theorem foldl_records {α : Type*} {record : S → List α} {noted : E → Option α}
    (hstep : ∀ s event, record (step s event) = record s ++ (noted event).toList) (s : S)
    (events : List E) : record (events.foldl step s) = record s ++ events.filterMap noted := by
  induction events generalizing s with
  | nil => exact (List.append_nil _).symm
  | cons event rest ih =>
      rw [List.foldl_cons, ih, hstep, List.append_assoc, List.filterMap_cons]
      cases noted event with
      | none => rfl
      | some entry => rfl

end UnifiedDns
