import Mathlib.Logic.Basic
import UnifiedDns.Lib.Runs

/-!
# Routines over shared memory

A program with several routines that share a memory and wait for answers from outside.  A routine does one
thing at a time: an access to the memory, or a question; between two of them the others go on.

* `Routine` — a routine, as the tree of what it may do next.
* `Routine.alone` — the run of one routine with nobody else about.
* `Contract`, `Routine.Obeys` — an invariant of the memory, what may be asked and what is answered; a routine
  that obeys it whatever the others do, as long as they obey it too.
* `Pool` — routines that run side by side, in any order of their steps.
* `Pool.run_obeys` — the rule for pools: routines that obey a contract one by one obey it together.
-/

namespace UnifiedDns

/-- A routine over the memory `S` with questions `Q`: it ends, makes one access to the memory, or waits for
the answer to a question. -/
inductive Routine (S Q : Type) (A : Q → Type) (α : Type) : Type
  | done (a : α)
  /-- One access: the memory is changed, and what it was before is known afterwards. -/
  | access (write : S → S) (next : S → Routine S Q A α)
  | ask (q : Q) (next : A q → Routine S Q A α)

namespace Routine

variable {S Q : Type} {A : Q → Type} {α β : Type}

/-- One routine after the other. -/
def bind : Routine S Q A α → (α → Routine S Q A β) → Routine S Q A β
  | done a, f => f a
  | access write next, f => access write fun s => (next s).bind f
  | ask q next, f => ask q fun a => (next a).bind f

instance : Monad (Routine S Q A) where
  pure := done
  bind := bind

/-- Look at the memory. -/
def look (view : S → α) : Routine S Q A α := access id fun s => done (view s)

/-- Change the memory. -/
def write (change : S → S) : Routine S Q A Unit := access change fun _ => done ()

/-- Put a question. -/
def question (q : Q) : Routine S Q A (A q) := ask q done

theorem bind_eq (r : Routine S Q A α) (f : α → Routine S Q A β) : (r >>= f) = r.bind f := rfl

/-! ### Alone -/

/-- The run of a routine with nobody else about; `outside` answers by the number of questions so far. -/
def alone (outside : Nat → ∀ q, A q) : Routine S Q A α → Nat → S → α × Nat × S
  | done a, asked, s => (a, asked, s)
  | access write next, asked, s => (next s).alone outside asked (write s)
  | ask q next, asked, s => (next (outside asked q)).alone outside (asked + 1) s

section Alone

variable (outside : Nat → ∀ q, A q) (asked : Nat) (s : S)

@[simp] theorem alone_pure (a : α) :
    (pure a : Routine S Q A α).alone outside asked s = (a, asked, s) := rfl

@[simp] theorem alone_look (view : S → α) :
    (look view : Routine S Q A α).alone outside asked s = (view s, asked, s) := rfl

@[simp] theorem alone_write (change : S → S) :
    (write change : Routine S Q A Unit).alone outside asked s = ((), asked, change s) := rfl

@[simp] theorem alone_question (q : Q) :
    (question q : Routine S Q A (A q)).alone outside asked s = (outside asked q, asked + 1, s) := rfl

@[simp] theorem alone_bind (r : Routine S Q A α) (f : α → Routine S Q A β) :
    (r >>= f).alone outside asked s =
      (f (r.alone outside asked s).1).alone outside (r.alone outside asked s).2.1
        (r.alone outside asked s).2.2 := by
  rw [bind_eq]
  induction r generalizing asked s with
  | done a => rfl
  | access write next ih => exact ih s asked (write s)
  | ask q next ih => exact ih (outside asked q) (asked + 1) s

end Alone

end Routine

/-! ### Contracts -/

/-- What routines that share a memory promise each other, and what they rely on. -/
structure Contract (S Q : Type) (A : Q → Type) where
  /-- The invariant of the memory. -/
  inv : S → Prop
  /-- The question may be put. -/
  asks : Q → Prop
  /-- The question may be answered so. -/
  answers : ∀ q, A q → Prop

namespace Routine

variable {S Q : Type} {A : Q → Type} {α β : Type}

/-- Whatever the others do in between, every access keeps the invariant, every question may be put, and the
result is as `post` says. -/
def Obeys (C : Contract S Q A) (post : α → Prop) : Routine S Q A α → Prop
  | done a => post a
  | access write next => ∀ s, C.inv s → C.inv (write s) ∧ (next s).Obeys C post
  | ask q next => C.asks q ∧ ∀ a, C.answers q a → (next a).Obeys C post

section Rules

variable {C : Contract S Q A} {post : α → Prop}

theorem Obeys.mono {post' : α → Prop} {r : Routine S Q A α} (h : r.Obeys C post)
    (himp : ∀ a, post a → post' a) : r.Obeys C post' := by
  induction r with
  | done a => exact himp a h
  | access write next ih => exact fun s hs => ⟨(h s hs).1, ih s (h s hs).2⟩
  | ask q next ih => exact ⟨h.1, fun a ha => ih a (h.2 a ha)⟩

/-- The rule of composition. -/
theorem Obeys.bind {between : β → Prop} {r : Routine S Q A β} {f : β → Routine S Q A α}
    (h : r.Obeys C between) (hf : ∀ b, between b → (f b).Obeys C post) : (r >>= f).Obeys C post := by
  rw [bind_eq]
  induction r with
  | done b => exact hf b h
  | access write next ih => exact fun s hs => ⟨(h s hs).1, ih s (h s hs).2⟩
  | ask q next ih => exact ⟨h.1, fun a ha => ih a (h.2 a ha)⟩

theorem Obeys.pure {a : α} (h : post a) : (pure a : Routine S Q A α).Obeys C post := h

theorem Obeys.look {view : S → α} (h : ∀ s, C.inv s → post (view s)) :
    (look view : Routine S Q A α).Obeys C post :=
  fun s hs => ⟨hs, h s hs⟩

theorem Obeys.write {change : S → S} {post : Unit → Prop} (h : ∀ s, C.inv s → C.inv (change s))
    (hpost : post ()) : (write change : Routine S Q A Unit).Obeys C post :=
  fun s hs => ⟨h s hs, hpost⟩

theorem Obeys.question {q : Q} {post : A q → Prop} (hasks : C.asks q)
    (h : ∀ a, C.answers q a → post a) : (question q : Routine S Q A (A q)).Obeys C post :=
  ⟨hasks, h⟩

end Rules

/-! ### Side by side -/

/-- The result of a routine that has ended. -/
def result? : Routine S Q A α → Option α
  | done a => some a
  | access _ _ => none
  | ask _ _ => none

theorem result?_eq_some {r : Routine S Q A α} {a : α} (h : r.result? = some a) : r = done a := by
  cases r with
  | done b => rw [Option.some.inj h]
  | access write next => cases h
  | ask q next => cases h

/-- The next thing a routine does; `input` answers its question, if it has one. -/
def advance (input : ∀ q, A q) : Routine S Q A α → S → Routine S Q A α × S
  | done a, s => (done a, s)
  | access write next, s => (next s, write s)
  | ask q next, s => (next (input q), s)

/-- The answer to the question the routine waits for is one the contract allows. -/
def AnsweredBy (C : Contract S Q A) (input : ∀ q, A q) : Routine S Q A α → Prop
  | done _ => True
  | access _ _ => True
  | ask q _ => C.answers q (input q)

theorem AnsweredBy.of_answers {C : Contract S Q A} {input : ∀ q, A q} (h : ∀ q, C.answers q (input q))
    (r : Routine S Q A α) : r.AnsweredBy C input := by
  cases r with
  | done a => trivial
  | access write next => trivial
  | ask q next => exact h q

/-- A routine that obeys still does so after its next step. -/
theorem Obeys.advance {C : Contract S Q A} {post : α → Prop} {r : Routine S Q A α} {s : S}
    {input : ∀ q, A q} (h : r.Obeys C post) (hs : C.inv s) (hinput : r.AnsweredBy C input) :
    (r.advance input s).1.Obeys C post ∧ C.inv (r.advance input s).2 := by
  cases r with
  | done a => exact ⟨h, hs⟩
  | access write next => exact ⟨(h s hs).2, (h s hs).1⟩
  | ask q next => exact ⟨h.2 _ hinput, hs⟩

end Routine

/-- Routines that run side by side, each of them under a label, such as what it was started for. -/
structure Pool (L S Q : Type) (A : Q → Type) (α : Type) where
  memory : S
  routines : List (L × Routine S Q A α)

/-- A routine is started, or one of them does its next step. -/
inductive PoolEvent (L : Type) {Q : Type} (A : Q → Type)
  | start (label : L)
  | advance (index : Nat) (input : ∀ q, A q)

namespace Pool

variable {L S Q : Type} {A : Q → Type} {α : Type}

def step (body : L → Routine S Q A α) (pool : Pool L S Q A α) : PoolEvent L A → Pool L S Q A α
  | .start label => { pool with routines := pool.routines ++ [(label, body label)] }
  | .advance index input =>
      match pool.routines[index]? with
      | none => pool
      | some (label, r) =>
          let (r, memory) := r.advance input pool.memory
          { memory := memory, routines := pool.routines.set index (label, r) }

/-- The pool after a list of events, from a memory and no routines. -/
def run (body : L → Routine S Q A α) (memory : S) (events : List (PoolEvent L A)) : Pool L S Q A α :=
  events.foldl (step body) ⟨memory, []⟩

/-- What an event starts a routine for. -/
def started : PoolEvent L A → Option L
  | .start label => some label
  | .advance _ _ => none

/-- A pool holds what was started, in order. -/
theorem run_labels (body : L → Routine S Q A α) (memory : S) (events : List (PoolEvent L A)) :
    (run body memory events).routines.map Prod.fst = events.filterMap started := by
  have hstep : ∀ (pool : Pool L S Q A α) event, (pool.step body event).routines.map Prod.fst =
      pool.routines.map Prod.fst ++ (started event).toList := by
    intro pool event
    cases event with
    | start label => exact List.map_append
    | advance index input =>
        unfold Pool.step
        simp only [started, Option.toList_none, List.append_nil]
        split
        · rfl
        · rename_i label r htask
          obtain ⟨hindex, hget⟩ := List.getElem?_eq_some_iff.mp htask
          have hlt : index < (pool.routines.map Prod.fst).length := by rwa [List.length_map]
          have hlabel : (pool.routines.map Prod.fst)[index] = label := by rw [List.getElem_map, hget]
          rw [List.map_set, ← hlabel]
          exact List.set_getElem_self _
  exact (@foldl_records _ _ (Pool.step body) _ (fun pool => pool.routines.map Prod.fst) started hstep
    ⟨memory, []⟩ events).trans (List.nil_append _)

/-- A question is answered as the contract allows. -/
def Allows (C : Contract S Q A) (pool : Pool L S Q A α) : PoolEvent L A → Prop
  | .start _ => True
  | .advance index input => ∀ task, pool.routines[index]? = some task → task.2.AnsweredBy C input

/-- The memory is as the contract says, and the routines obey it. -/
structure Sound (C : Contract S Q A) (post : L → α → Prop) (pool : Pool L S Q A α) : Prop where
  inv : C.inv pool.memory
  obey : ∀ task ∈ pool.routines, task.2.Obeys C (post task.1)

variable {C : Contract S Q A} {post : L → α → Prop} {body : L → Routine S Q A α}

theorem Sound.step (hbody : ∀ label, (body label).Obeys C (post label)) {pool : Pool L S Q A α}
    (h : pool.Sound C post) {event : PoolEvent L A} (hevent : pool.Allows C event) :
    (pool.step body event).Sound C post := by
  cases event with
  | start label =>
      refine ⟨h.inv, List.forall_mem_append.mpr ⟨h.obey, ?_⟩⟩
      exact List.forall_mem_singleton.mpr (hbody label)
  | advance index input =>
      unfold Pool.step
      simp only
      split
      · exact h
      · rename_i label r htask
        have hobeys := h.obey (label, r) (List.mem_of_getElem? htask)
        obtain ⟨hnext, hinv⟩ := hobeys.advance h.inv (hevent (label, r) htask)
        refine ⟨hinv, fun task hmem => ?_⟩
        rcases List.mem_or_eq_of_mem_set hmem with hold | rfl
        · exact h.obey task hold
        · exact hnext

/-- The rule for pools: when every routine obeys the contract by itself, then in every run, in whatever order
the routines do their steps, the invariant holds and all routines obey. -/
theorem run_obeys (hbody : ∀ label, (body label).Obeys C (post label)) {memory : S} (hinv : C.inv memory)
    {events : List (PoolEvent L A)} (hallows : Along (Pool.step body) (Allows C) ⟨memory, []⟩ events) :
    (run body memory events).Sound C post := by
  refine Along.invariant (fun pool event h hevent => h.step hbody hevent) ?_ hallows
  exact ⟨hinv, List.forall_mem_nil _⟩

/-- What the routines that have ended have come to. -/
theorem Sound.result {pool : Pool L S Q A α} (h : pool.Sound C post) {label : L} {a : α}
    (hmem : (label, Routine.done a) ∈ pool.routines) : post label a :=
  h.obey _ hmem

/-- What is asked may be asked. -/
theorem Sound.asks {pool : Pool L S Q A α} (h : pool.Sound C post) {label : L} {q : Q}
    {next : A q → Routine S Q A α} (hmem : (label, Routine.ask q next) ∈ pool.routines) : C.asks q :=
  (h.obey _ hmem).1

end Pool

end UnifiedDns
