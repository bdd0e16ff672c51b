import UnifiedDns.Recursor.HonestAnswers

/-!
# Resolution among honest servers

Partial correctness is `HonestAnswers`; here is that the answer comes.

* `World.Answerable` — a question the resolver has the steps for.
* `turn_at`, `turn_silent` — a turn at the servers of a zone answers or goes on to a zone below; a turn at
  servers that are gone starts over.
* `turns_honest`, `resolveInternal_honest` — the loop and the nested calls come to the answer.
* `honest_resolution` — in every run, every question within the limits is answered as the name space has it.
-/

namespace UnifiedDns
namespace Recursor

/-- The resolver has not been asked for the targets of these aliases. -/
def Unvisited (P : Platform) (s : RState) (targets : List Path) : Prop :=
  ∀ n : Name, n.path ∈ targets → asciiText "cname:" ++ P.nameKey n ∉ s.visited

/-- A question the resolver has the steps for: its aliases end, and few zones lie above each name. -/
structure World.Answerable (W : World) (rtype : RecordType) (p : Path) (targets : List Path) :
    Prop where
  leads : W.Leads rtype p targets
  zones : ∀ q ∈ p :: targets, W.zonesAbove (questionPath q rtype) < maxSteps

/-- A call answers the question and leaves a good cache. -/
def HonestResult (W : World) (P : Platform) (name : Name) (rtype : RecordType) (targets : List Path)
    (result : Except RecursorError Message × RState) : Prop :=
  ∃ m, result.1 = .ok m ∧ W.Answered rtype name.path targets m ∧
    CacheHonest W P result.2.delegationCache

/-- The nested calls answer questions with fewer aliases. -/
def NestedHonest (W : World) (P : Platform) (rtype : RecordType) (recurse : Resolve) (limit : Nat) :
    Prop :=
  ∀ (name : Name) (targets : List Path), W.Answerable rtype name.path targets →
    targets.length < limit → ∀ s, CacheHonest W P s.delegationCache → Unvisited P s targets →
      HonestResult W P name rtype targets (recurse name rtype s)

section Turn

variable {W : World} {env : REnv} {recurse : Resolve} {name : Name} {rtype : RecordType}
  {frame : Frame} {s : RState} {targets : List Path} {z : Path}

/-! ### One turn -/

/-- A turn at the servers of `z` answers, or goes on to the servers of a zone below. -/
inductive HonestTurn (W : World) (P : Platform) (name : Name) (rtype : RecordType)
    (targets : List Path) (z : Path) : Turn × RState → Prop
  | done {result : Except RecursorError Message} {s : RState}
      (h : HonestResult W P name rtype targets (result, s)) :
      HonestTurn W P name rtype targets z (.done result, s)
  | next {c : Path} {frame : Frame} {s : RState} (hbelow : W.zonesAbove z < W.zonesAbove c)
      (honPath : c <+: questionPath name.path rtype) (hframe : frame.At W c)
      (hcache : CacheHonest W P s.delegationCache) (hvisited : Unvisited P s targets) :
      HonestTurn W P name rtype targets z (.next frame, s)

/-- A question whose answer has been begun is still answerable. -/
theorem World.Answerable.reaches {records : List Record} {p stop : Path} {rest : List Path}
    (h : W.Answerable rtype p targets) (hreaches : Reaches records p targets stop rest)
    (hstop : stop ∈ targets) : W.Answerable rtype stop rest := by
  refine ⟨hreaches.leads h.leads, ?_⟩
  intro q hq
  rcases List.mem_cons.mp hq with rfl | hrest
  · exact h.zones _ (List.mem_cons_of_mem _ hstop)
  · exact h.zones _ (List.mem_cons_of_mem _ (hreaches.subset hrest))

theorem takeRedirect_honest (hfaithful : env.platform.NameKeyFaithful)
    (hrecurse : NestedHonest W env.platform rtype recurse targets.length)
    (hquestion : W.Answerable rtype name.path targets)
    (hcache : CacheHonest W env.platform s.delegationCache)
    (hvisited : Unvisited env.platform s targets) {hop : Message} {stop : Name} {rest : List Path}
    (hheld : W.Held hop.answers) (hreaches : Reaches hop.answers name.path targets stop.path rest)
    (hmem : stop.path ∈ targets) (hless : rest.length < targets.length) :
    HonestResult W env.platform name rtype targets
      (takeRedirect recurse name rtype (asciiText "cname:" ++ env.platform.nameKey stop) stop hop s) := by
  have hnew := hvisited stop hmem
  have hrest := hquestion.reaches hreaches hmem
  -- The target itself does not come up again behind it.
  have hvisited' : Unvisited env.platform
      (s.visit (asciiText "cname:" ++ env.platform.nameKey stop)) rest := by
    intro n hn hkey
    rcases List.mem_cons.mp hkey with hsame | hold
    · have hpath := (hfaithful n stop).mp (List.append_cancel_left hsame)
      rw [hpath] at hn
      exact hrest.leads.notMem hn
    · exact hvisited n (hreaches.subset hn) hold
  obtain ⟨m, hok, hanswered, hcache'⟩ := hrecurse stop rest hrest hless
    (s.visit (asciiText "cname:" ++ env.platform.nameKey stop)) hcache hvisited'
  rcases hcall : recurse stop rtype (s.visit (asciiText "cname:" ++ env.platform.nameKey stop)) with
    ⟨result, s'⟩
  rw [hcall] at hok hcache'
  obtain rfl : result = .ok m := hok
  rw [takeRedirect, if_neg (by simpa using hnew), hcall]
  exact ⟨_, rfl, hanswered.merge hheld hreaches, hcache'⟩

theorem turn_at (hfaithful : env.platform.NameKeyFaithful) (henv : HonestEnv W env)
    (hrecurse : NestedHonest W env.platform rtype recurse targets.length)
    (hquestion : W.Answerable rtype name.path targets)
    (hcache : CacheHonest W env.platform s.delegationCache)
    (hvisited : Unvisited env.platform s targets) (hframe : frame.At W z)
    (hz : z <+: questionPath name.path rtype) :
    HonestTurn W env.platform name rtype targets z (turn env recurse name rtype frame s) := by
  obtain ⟨m, hquery, hreply⟩ := @query_authorities W env name rtype frame s z henv hframe.authorities hz
  have hverdict := judgeResponse_honest hfaithful hframe hquestion.leads hreply
  unfold turn
  simp only [hquery]
  generalize judgeResponse env.platform name rtype frame m = verdict at hverdict
  cases hverdict with
  | done h => exact .done ⟨m, rfl, h, hcache⟩
  | redirect hheld hreaches hmem hless =>
      exact .done (takeRedirect_honest (s := { s with tick := s.tick + 1 }) hfaithful hrecurse hquestion
        hcache hvisited hheld hreaches hmem hless)
  | @referral zone h honPath =>
      obtain ⟨ips, hips, hnonempty, hauthorities⟩ := @referralServers_refers W env recurse
        { s with tick := s.tick + 1 } z m zone frame.bailiwick h hframe.bailiwick
      simp only [takeReferral, hips, if_neg (mt List.isEmpty_iff.mp hnonempty)]
      refine .next (World.zonesAbove_lt h.below h.apex) honPath ⟨hauthorities, List.prefix_rfl, ?_⟩
        (hcache.insert hfaithful hauthorities) hvisited
      intro zone' hzone'
      rw [← Option.some.inj hzone']

/-- Servers that are gone cost a turn, if they come from the cache. -/
theorem turn_silent (henv : HonestEnv W env) (hips : W.Silent frame.currentServers)
    (hcached : frame.usingCached = true)
    (hcache : CacheHonest W env.platform s.delegationCache)
    (hvisited : Unvisited env.platform s targets) :
    ∃ s', turn env recurse name rtype frame s = (.next .fromRoot, s') ∧
      CacheHonest W env.platform s'.delegationCache ∧ Unvisited env.platform s' targets := by
  obtain ⟨s', hquery, hsame, hvisited'⟩ := @query_silent W env name rtype frame s henv hips
  refine ⟨purgeDelegationFor env name rtype s', ?_, ?_, ?_⟩
  · simp only [turn, hquery, hcached, if_true]
  · have hpurged := hcache.purge (delegationStart name rtype).ancestors
    rw [← hsame] at hpurged
    exact hpurged
  · intro n hn
    have hnew := hvisited n hn
    rw [← hvisited'] at hnew
    exact hnew

end Turn

section Loop

variable {W : World} {env : REnv} {name : Name} {rtype : RecordType} {targets : List Path}

/-! ### The loop and the nested calls -/

/-- With a turn left for every zone between the servers that are asked and the question, the loop answers. -/
theorem turns_honest (hfaithful : env.platform.NameKeyFaithful) (henv : HonestEnv W env)
    {recurse : Resolve} (hrecurse : NestedHonest W env.platform rtype recurse targets.length)
    (hquestion : W.Answerable rtype name.path targets) {left : Nat} {frame : Frame} {s : RState}
    {z : Path} (hcache : CacheHonest W env.platform s.delegationCache)
    (hvisited : Unvisited env.platform s targets) (hframe : frame.At W z)
    (hz : z <+: questionPath name.path rtype)
    (hleft : W.zonesAbove (questionPath name.path rtype) < W.zonesAbove z + left) :
    HonestResult W env.platform name rtype targets (turns env recurse name rtype left frame s) := by
  -- Every turn that goes on uses up a zone above the question.
  induction left generalizing frame s z with
  | zero =>
      have hmono := W.zonesAbove_mono hz
      omega
  | succ left ih =>
      have hturn := turn_at hfaithful henv hrecurse hquestion hcache hvisited hframe hz
      unfold turns
      generalize turn env recurse name rtype frame s = outcome at hturn
      cases hturn with
      | done h => exact h
      | next hbelow honPath hframe' hcache' hvisited' =>
          exact ih hcache' hvisited' hframe' honPath (by omega)

theorem startFrame_visited (s : RState) : (startFrame env name rtype s).2.visited = s.visited := by
  unfold startFrame findCachedStart RState.readClock
  simp only
  split
  · rename_i heq
    obtain ⟨-, rfl⟩ := Prod.mk.inj heq
    rfl
  · rename_i heq
    obtain ⟨-, rfl⟩ := Prod.mk.inj heq
    rfl

theorem call_honest (hfaithful : env.platform.NameKeyFaithful) (henv : HonestEnv W env)
    {levels : Nat}
    (hrecurse : NestedHonest W env.platform rtype (resolveInternal env levels) targets.length)
    (hquestion : W.Answerable rtype name.path targets) {s : RState}
    (hcache : CacheHonest W env.platform s.delegationCache)
    (hvisited : Unvisited env.platform s targets) :
    HonestResult W env.platform name rtype targets (resolveInternal env (levels + 1) name rtype s) := by
  obtain ⟨-, -, hsame⟩ := startFrame_spec env name rtype s
  have hvisited' : Unvisited env.platform (startFrame env name rtype s).2 targets := by
    intro n hn
    rw [startFrame_visited]
    exact hvisited n hn
  have hcache' : CacheHonest W env.platform (startFrame env name rtype s).2.delegationCache := by
    rw [hsame]
    exact hcache
  have hzones := hquestion.zones name.path List.mem_cons_self
  unfold resolveInternal
  simp only
  rcases startFrame_honest s hcache with ⟨z, hframe, hz⟩ | ⟨hsilent, hcached⟩
  · have hroot := W.zonesAbove_mono (List.nil_prefix : ([] : Path) <+: z)
    rw [World.zonesAbove_root] at hroot
    exact turns_honest hfaithful henv hrecurse hquestion hcache' hvisited' hframe hz (by omega)
  · -- A turn is lost, and the root is the start after all.
    obtain ⟨s', hturn, hcache'', hvisited''⟩ := turn_silent henv hsilent hcached hcache' hvisited'
    have hsteps : maxSteps = 15 + 1 := rfl
    rw [hsteps] at hzones ⊢
    unfold turns
    rw [hturn]
    refine turns_honest hfaithful henv hrecurse hquestion hcache'' hvisited'' (Frame.fromRoot_at W)
      List.nil_prefix ?_
    rw [World.zonesAbove_root]
    omega

/-- A call with more levels left than the question has aliases answers it. -/
theorem resolveInternal_honest (hfaithful : env.platform.NameKeyFaithful) (henv : HonestEnv W env)
    (levels : Nat) : NestedHonest W env.platform rtype (resolveInternal env levels) levels := by
  induction levels with
  | zero => exact fun _ _ _ hlevels => absurd hlevels (Nat.not_lt_zero _)
  | succ levels ih =>
      intro name targets hquestion hlevels s hcache hvisited
      refine call_honest hfaithful henv ?_ hquestion hcache hvisited
      exact fun name' targets' hquestion' hless =>
        ih name' targets' hquestion' (hless.trans_le (Nat.le_of_lt_succ hlevels))

/-! ### Runs -/

theorem resolve_honest (hfaithful : env.platform.NameKeyFaithful) (henv : HonestEnv W env)
    (hquestion : W.Answerable rtype name.path targets) (haliases : targets.length ≤ maxDepth)
    {s : RState} (hcache : CacheHonest W env.platform s.delegationCache) :
    HonestResult W env.platform name rtype targets (resolve env name rtype s) :=
  resolveInternal_honest hfaithful henv (maxDepth + 1) name targets hquestion
    (Nat.lt_succ_of_le haliases) { s with visited := [] } hcache fun _ _ => List.not_mem_nil

end Loop

/-! The alias in the world of two zones. -/

theorem smallWorld_alias : smallWorld.Answerable .A leafServer.path [belowLeaf.path] where
  leads := by
    refine .hop ⟨rfl, belowLeaf, List.mem_singleton_self _, rfl⟩ (.ends ?_)
    rintro q ⟨hempty, -⟩
    cases hempty
  zones := by decide

end Recursor
end UnifiedDns
