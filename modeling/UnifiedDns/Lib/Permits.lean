import Mathlib.Data.List.Perm.Subperm
import Mathlib.Data.List.Perm.Basic

/-!
# A pool of permits

A counting semaphore together with the tasks that hold its permits.  A task gets a permit when it begins,
without waiting, and gives it back when it ends.

* `PermitPool` — no permit is lost and none is made up: that is part of the type.
* `PermitPool.Accounts` — what has been done, with what is held, is covered by what has come in; each
  operation keeps it.
-/

namespace UnifiedDns

/-- `capacity` permits, each of them free or held by a task. -/
structure PermitPool (α : Type*) (capacity : Nat) where
  free : Nat
  held : List α
  balanced : free + held.length = capacity

namespace PermitPool

variable {α β : Type*} {capacity : Nat}

/-- All permits are free. -/
def full (α : Type*) (capacity : Nat) : PermitPool α capacity where
  free := capacity
  held := []
  balanced := rfl

/-- A task begins, if there is a permit for it. -/
def acquire (task : α) (pool : PermitPool α capacity) : Option (PermitPool α capacity) :=
  if hfree : pool.free = 0 then none
  else some
    { free := pool.free - 1
      held := pool.held ++ [task]
      balanced := by
        have hbalanced := pool.balanced
        simp only [List.length_append, List.length_singleton]
        omega }

/-- The task with this number ends and gives its permit back. -/
def release (index : Nat) (pool : PermitPool α capacity) : PermitPool α capacity :=
  if hindex : index < pool.held.length then
    { free := pool.free + 1
      held := pool.held.eraseIdx index
      balanced := by
        have hbalanced := pool.balanced
        rw [List.length_eraseIdx_of_lt hindex]
        omega }
  else pool

/-- The task with this number goes on as another one, with the same permit. -/
def replace (index : Nat) (task : α) (pool : PermitPool α capacity) : PermitPool α capacity where
  free := pool.free
  held := pool.held.set index task
  balanced := by rw [List.length_set, pool.balanced]

theorem held_le (pool : PermitPool α capacity) : pool.held.length ≤ capacity := by
  have hbalanced := pool.balanced
  omega

theorem acquire_held {task : α} {pool next : PermitPool α capacity}
    (h : pool.acquire task = some next) : next.held = pool.held ++ [task] := by
  unfold acquire at h
  split at h
  · cases h
  · cases h
    rfl

/-- A task begins while a permit is free, and is turned away while all of them are held. -/
theorem acquire_cases (task : α) (pool : PermitPool α capacity) :
    (∃ next, pool.acquire task = some next ∧ next.held = pool.held ++ [task] ∧
        pool.held.length < capacity) ∨
      (pool.acquire task = none ∧ ¬ pool.held.length < capacity) := by
  have hbalanced := pool.balanced
  cases hnext : pool.acquire task with
  | none =>
      refine Or.inr ⟨rfl, ?_⟩
      unfold acquire at hnext
      split at hnext
      · omega
      · cases hnext
  | some next =>
      refine Or.inl ⟨next, rfl, acquire_held hnext, ?_⟩
      unfold acquire at hnext
      split at hnext
      · cases hnext
      · omega

/-- The task that ends and those that stay. -/
theorem release_held {index : Nat} {task : α} {pool : PermitPool α capacity}
    (h : pool.held[index]? = some task) : pool.held.Perm (task :: (pool.release index).held) := by
  obtain ⟨hindex, rfl⟩ := List.getElem?_eq_some_iff.mp h
  rw [release, dif_pos hindex]
  exact (List.getElem_cons_eraseIdx_perm hindex).symm

/-- The task that goes on and those that stay as they are. -/
theorem replace_held {index : Nat} {task : α} {pool : PermitPool α capacity}
    (h : pool.held[index]? = some task) (next : α) :
    (pool.replace index next).held.Perm (next :: (pool.release index).held) := by
  obtain ⟨hindex, -⟩ := List.getElem?_eq_some_iff.mp h
  rw [release, dif_pos hindex]
  exact List.set_perm_cons_eraseIdx hindex next

theorem mem_release {index : Nat} {task : α} {pool : PermitPool α capacity}
    (h : task ∈ (pool.release index).held) : task ∈ pool.held := by
  unfold release at h
  split at h
  · exact List.mem_of_mem_eraseIdx h
  · exact h

theorem mem_replace {index : Nat} {task next : α} {pool : PermitPool α capacity}
    (h : task ∈ (pool.replace index next).held) : task ∈ pool.held ∨ task = next :=
  List.mem_or_eq_of_mem_set h

/-! ### Accounts -/

/-- What has been `done`, and the `claim`s of the tasks that run, are covered one to one by the `total`. -/
def Accounts (claim : α → Option β) (done : List β) (pool : PermitPool α capacity) (total : List β) :
    Prop :=
  (done ++ pool.held.filterMap claim).Subperm total

theorem filterMap_cons_toList (claim : α → Option β) (task : α) (rest : List α) :
    (task :: rest).filterMap claim = (claim task).toList ++ rest.filterMap claim := by
  cases hcase : claim task with
  | none => simp [hcase]
  | some value => simp [hcase]

section Accounts

variable {claim : α → Option β} {done total : List β} {pool : PermitPool α capacity}

theorem Accounts.init : (full α capacity).Accounts claim [] ([] : List β) :=
  List.Subperm.refl []

/-- The total may grow. -/
theorem Accounts.mono (h : pool.Accounts claim done total) (more : List β) :
    pool.Accounts claim done (total ++ more) :=
  h.trans (List.sublist_append_left total more).subperm

/-- A task begins with its own claim. -/
theorem Accounts.acquire {task : α} {next : PermitPool α capacity}
    (h : pool.Accounts claim done total) (hnext : pool.acquire task = some next) (more : List β)
    (hclaim : (claim task).toList.Subperm more) : next.Accounts claim done (total ++ more) := by
  have hheld : next.held.filterMap claim = pool.held.filterMap claim ++ (claim task).toList := by
    rw [acquire_held hnext, List.filterMap_append, filterMap_cons_toList, List.filterMap_nil,
      List.append_nil]
  rw [Accounts, hheld, ← List.append_assoc]
  exact h.append hclaim

/-- What a task claims is set apart from the rest. -/
theorem accounts_iff {index : Nat} {task : α} (htask : pool.held[index]? = some task) :
    pool.Accounts claim done total ↔
      ((claim task).toList ++ (done ++ (pool.release index).held.filterMap claim)).Subperm total := by
  have hheld : (pool.held.filterMap claim).Perm
      ((claim task).toList ++ (pool.release index).held.filterMap claim) := by
    rw [← filterMap_cons_toList]
    exact (release_held htask).filterMap claim
  have hall : (done ++ pool.held.filterMap claim).Perm
      ((claim task).toList ++ (done ++ (pool.release index).held.filterMap claim)) := by
    refine (hheld.append_left done).trans ?_
    rw [← List.append_assoc, ← List.append_assoc]
    exact List.perm_append_comm.append_right _
  exact ⟨fun h => hall.symm.subperm.trans h, fun h => hall.subperm.trans h⟩

/-- A task ends; what it leaves as done is its claim or new. -/
theorem Accounts.release {index : Nat} {task : α} {finished : List β}
    (h : pool.Accounts claim done total) (htask : pool.held[index]? = some task) (more : List β)
    (hfinished : finished.Subperm ((claim task).toList ++ more)) :
    (pool.release index).Accounts claim (done ++ finished) (total ++ more) := by
  have hall := (accounts_iff htask).mp h
  have hpart : (done ++ finished ++ (pool.release index).held.filterMap claim).Perm
      (finished ++ (done ++ (pool.release index).held.filterMap claim)) := by
    rw [← List.append_assoc]
    exact List.perm_append_comm.append_right _
  have hmove : (((claim task).toList ++ more) ++
      (done ++ (pool.release index).held.filterMap claim)).Perm
        (((claim task).toList ++ (done ++ (pool.release index).held.filterMap claim)) ++ more) := by
    rw [List.append_assoc, List.append_assoc]
    exact List.perm_append_comm.append_left _
  exact hpart.subperm.trans ((hfinished.append (List.Subperm.refl _)).trans
    (hmove.subperm.trans (hall.append (List.Subperm.refl more))))

/-- A task goes on; what it claims now, it claimed before or is new. -/
theorem Accounts.replace {index : Nat} {task next : α}
    (h : pool.Accounts claim done total) (htask : pool.held[index]? = some task) (more : List β)
    (hnext : (claim next).toList.Subperm ((claim task).toList ++ more)) :
    (pool.replace index next).Accounts claim done (total ++ more) := by
  have hended := h.release htask more hnext
  have hheld : ((pool.replace index next).held.filterMap claim).Perm
      ((claim next).toList ++ (pool.release index).held.filterMap claim) := by
    rw [← filterMap_cons_toList]
    exact (replace_held htask next).filterMap claim
  refine (hheld.append_left done).subperm.trans ?_
  rw [← List.append_assoc]
  exact hended

/-- Nothing is done without having come in. -/
theorem Accounts.done_subperm (h : pool.Accounts claim done total) : done.Subperm total :=
  (List.sublist_append_left done _).subperm.trans h

end Accounts

end PermitPool

end UnifiedDns
