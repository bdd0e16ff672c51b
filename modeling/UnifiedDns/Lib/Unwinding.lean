import Mathlib.Data.List.Basic

/-!
# Unwinding

Two runs of a machine that differ only in events an observer is not concerned with.  The observer sees
the outputs of the other events; these are the same in both runs when a relation between states can be
carried along, event by event.

* `observations` — the outputs the observer sees.
* `Unwinding` — the relation: outputs agree, visible events keep it on both sides, the others on one.
* `Unwinding.observations_filter` — the invisible events may be left out.
* `observations_eq` — two runs with the same visible events look alike.
-/

namespace UnifiedDns

variable {S E O : Type*}

/-- The outputs of the visible events of a run. -/
def observations (step : S → E → S) (output : S → E → O) (visible : E → Bool) :
    S → List E → List O
  | _, [] => []
  | s, event :: rest =>
      (if visible event then [output s event] else []) ++
        observations step output visible (step s event) rest

/-- States so related look alike to the observer, as far as the events of the run go. -/
structure Unwinding (step : S → E → S) (output : S → E → O) (visible : E → Bool) (occurs : E → Prop)
    (rel : S → S → Prop) : Prop where
  output_eq {s t : S} {event : E} (hrel : rel s t) (hevent : occurs event)
    (hvisible : visible event = true) : output s event = output t event
  consistent {s t : S} {event : E} (hrel : rel s t) (hevent : occurs event)
    (hvisible : visible event = true) : rel (step s event) (step t event)
  respects {s t : S} {event : E} (hrel : rel s t) (hevent : occurs event)
    (hvisible : visible event = false) : rel (step s event) t

namespace Unwinding

variable {step : S → E → S} {output : S → E → O} {visible : E → Bool} {occurs : E → Prop}
  {rel : S → S → Prop}

/-- Without its invisible events the run looks the same. -/
theorem observations_filter (h : Unwinding step output visible occurs rel) {events : List E}
    (hoccurs : ∀ event ∈ events, occurs event) {s t : S} (hrel : rel s t) :
    observations step output visible s events =
      observations step output visible t (events.filter visible) := by
  induction events generalizing s t with
  | nil => rfl
  | cons event rest ih =>
      obtain ⟨hevent, hrest⟩ := List.forall_mem_cons.mp hoccurs
      cases hvisible : visible event with
      | true =>
          rw [List.filter_cons_of_pos hvisible, observations, observations,
            h.output_eq hrel hevent hvisible, ih hrest (h.consistent hrel hevent hvisible)]
      | false =>
          rw [List.filter_cons_of_neg (by simp [hvisible]), observations, hvisible,
            ih hrest (h.respects hrel hevent hvisible)]
          rfl

end Unwinding

/-- Runs with the same visible events look alike; each may come with a relation of its own. -/
theorem observations_eq {step : S → E → S} {output : S → E → O} {visible : E → Bool}
    {occurs₁ occurs₂ : E → Prop} {rel₁ rel₂ : S → S → Prop}
    (h₁ : Unwinding step output visible occurs₁ rel₁)
    (h₂ : Unwinding step output visible occurs₂ rel₂) {events₁ events₂ : List E}
    (hoccurs₁ : ∀ event ∈ events₁, occurs₁ event) (hoccurs₂ : ∀ event ∈ events₂, occurs₂ event)
    (hsame : events₁.filter visible = events₂.filter visible) {s : S} (hrel₁ : rel₁ s s)
    (hrel₂ : rel₂ s s) :
    observations step output visible s events₁ = observations step output visible s events₂ := by
  rw [h₁.observations_filter hoccurs₁ hrel₁, h₂.observations_filter hoccurs₂ hrel₂, hsame]

end UnifiedDns
