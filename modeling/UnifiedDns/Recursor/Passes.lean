import UnifiedDns.Recursor.Verdict

/-!
# The passes of one call

The loop of `resolve_internal` seen from its middle: the local variables and the shared state each time
servers are asked.

* `Pass`, `turnsPasses`, `framePasses` — the passes of the loop and of a whole call.
* `turns_eq_lastPass`, `resolve_eq_lastPass` — the last pass gives the result.
* `turn_next` — how the loop goes on: from the root, or to the servers of a usable delegation.
* `turnsPasses_invariant` — what one turn preserves holds in every pass.
-/

namespace UnifiedDns
namespace Recursor

structure Pass where
  frame : Frame
  /-- The shared state when the servers are asked. -/
  state : RState

/-- The response of a pass, if there is one. -/
def Pass.reply (env : REnv) (name : Name) (rtype : RecordType) (pass : Pass) : Option Message :=
  (queryServersWithFallback env pass.frame.currentServers name rtype pass.state).1

/-- The passes of the loop, with the turns that are left. -/
def turnsPasses (env : REnv) (recurse : Resolve) (name : Name) (rtype : RecordType) :
    Nat → Frame → RState → List Pass
  | 0, _, _ => []
  | left + 1, frame, s =>
      ⟨frame, s⟩ ::
        match turn env recurse name rtype frame s with
        | (.done _, _) => []
        | (.next frame, s) => turnsPasses env recurse name rtype left frame s

/-- The passes of `resolveInternal env (levels + 1)`. -/
def framePasses (env : REnv) (levels : Nat) (name : Name) (rtype : RecordType) (s : RState) :
    List Pass :=
  let (frame, s) := startFrame env name rtype s
  turnsPasses env (resolveInternal env levels) name rtype maxSteps frame s

/-- What the loop returns when a pass is its last. -/
def Pass.finish (env : REnv) (recurse : Resolve) (name : Name) (rtype : RecordType) (pass : Pass) :
    Except RecursorError Message × RState :=
  match turn env recurse name rtype pass.frame pass.state with
  | (.done result, s) => (result, s)
  | (.next _, s) => (.error .stepLimitExceeded, s)

theorem turnsPasses_ne_nil (env : REnv) (recurse : Resolve) (name : Name) (rtype : RecordType)
    (left : Nat) (frame : Frame) (s : RState) :
    turnsPasses env recurse name rtype (left + 1) frame s ≠ [] := by
  simp [turnsPasses]

/-- The result of the loop is that of its last pass. -/
theorem turns_eq_lastPass (env : REnv) (recurse : Resolve) (name : Name) (rtype : RecordType)
    (left : Nat) (frame : Frame) (s : RState) :
    ∃ pass, (turnsPasses env recurse name rtype (left + 1) frame s).getLast? = some pass ∧
      turns env recurse name rtype (left + 1) frame s = pass.finish env recurse name rtype := by
  induction left generalizing frame s with
  | zero =>
      rcases hturn : turn env recurse name rtype frame s with ⟨result | next, s₁⟩
      all_goals
        refine ⟨⟨frame, s⟩, ?_, ?_⟩
        · rw [turnsPasses, hturn]
          rfl
        · rw [turns, hturn]
          simp only [Pass.finish, turns, hturn]
  | succ left ih =>
      rcases hturn : turn env recurse name rtype frame s with ⟨result | next, s₁⟩
      · refine ⟨⟨frame, s⟩, ?_, ?_⟩
        · rw [turnsPasses, hturn]
          rfl
        · rw [turns, hturn]
          simp only [Pass.finish, hturn]
      · obtain ⟨pass, hlast, hresult⟩ := ih next s₁
        refine ⟨pass, ?_, ?_⟩
        · rw [turnsPasses, hturn]
          simp only
          rw [List.getLast?_cons_of_ne_nil (turnsPasses_ne_nil env recurse name rtype left next s₁)]
          exact hlast
        · rw [turns, hturn]
          exact hresult

theorem resolve_eq_lastPass (env : REnv) (name : Name) (rtype : RecordType) (s : RState) :
    ∃ pass, (framePasses env maxDepth name rtype { s with visited := [] }).getLast? = some pass ∧
      resolve env name rtype s =
        pass.finish env (resolveInternal env maxDepth) name rtype :=
  turns_eq_lastPass env (resolveInternal env maxDepth) name rtype 15
    (startFrame env name rtype { s with visited := [] }).1
    (startFrame env name rtype { s with visited := [] }).2

/-- How the loop goes on: cached servers that did not answer give way to the root servers, and the servers
of a usable delegation are asked next, after the delegation has been written down. -/
theorem turn_next {env : REnv} {recurse : Resolve} {name : Name} {rtype : RecordType}
    {frame next : Frame} {s s' : RState}
    (h : turn env recurse name rtype frame s = (.next next, s')) :
    (Pass.reply env name rtype ⟨frame, s⟩ = none ∧ next = .fromRoot) ∨
      ∃ response zone nsNames ips w, Pass.reply env name rtype ⟨frame, s⟩ = some response ∧
        judgeResponse env.platform name rtype frame response = .referral zone nsNames ∧
          next = .fromReferral zone ips ∧ s'.referrals.head? = some w ∧ w.zone = zone ∧
            w.servers = ips := by
  unfold turn at h
  unfold Pass.reply
  rcases hreply : queryServersWithFallback env frame.currentServers name rtype s with ⟨reply, s₁⟩
  simp only [hreply] at h
  cases reply with
  | none =>
      simp only at h
      split at h
      · cases h
        exact Or.inl ⟨rfl, rfl⟩
      · cases h
  | some response =>
      simp only at h
      split at h
      · cases h
      · cases h
      · rename_i zone nsNames hverdict
        unfold takeReferral at h
        simp only at h
        split at h
        · cases h
        · cases h
          exact Or.inr ⟨response, zone, nsNames, _, _, rfl, hverdict, rfl, rfl, rfl, rfl⟩

/-- **Loop rule.**  What holds before the first turn and is preserved by a turn holds in every pass. -/
theorem turnsPasses_invariant {env : REnv} {recurse : Resolve} {name : Name} {rtype : RecordType}
    {inv : Pass → Prop} {left : Nat} {frame : Frame} {s : RState} (hinit : inv ⟨frame, s⟩)
    (hstep : ∀ pass ∈ turnsPasses env recurse name rtype left frame s, ∀ next s', inv pass →
      turn env recurse name rtype pass.frame pass.state = (.next next, s') → inv ⟨next, s'⟩) :
    ∀ pass ∈ turnsPasses env recurse name rtype left frame s, inv pass := by
  induction left generalizing frame s with
  | zero => exact fun pass hpass => by cases hpass
  | succ left ih =>
      simp only [turnsPasses, List.forall_mem_cons] at hstep ⊢
      obtain ⟨hfirst, hrest⟩ := hstep
      refine ⟨hinit, ?_⟩
      rcases hturn : turn env recurse name rtype frame s with ⟨result | next, s₁⟩
      · simp
      · rw [hturn] at hrest
        exact ih (hfirst next s₁ hinit hturn) hrest

end Recursor
end UnifiedDns
