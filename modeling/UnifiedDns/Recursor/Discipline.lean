import UnifiedDns.Recursor.Stepwise

/-!
# A rule for resolutions that share their cache

What is to be shown so that resolutions keep a contract whatever the others do: what the loop may come from,
what each kind of reply leads to, and what may be written to the delegation cache.  The loop, the nested
resolutions and the single accesses to the cache are dealt with here, once.

* `Call` — the arguments of a call of `resolve_internal`.
* `Replied`, `ReferralTo` — what a query and a referral lead to.
* `Discipline` — the conditions.
* `Discipline.resolveInternal_obeys` — under them, every call obeys the contract.
-/

namespace UnifiedDns
namespace Recursor

/-- A call of `resolve_internal`: the levels of nesting that are left, with its own one, the question, and
the names that have been visited. -/
structure Call where
  levels : Nat
  name : Name
  rtype : RecordType
  visited : List Text

/-- What the routines of resolutions promise each other. -/
abbrev CacheContract := Contract (TextMap DelegationEntry) Ask Ask.Answer

/-- What a query of these servers may bring. -/
def Replied (C : CacheContract) (servers : List IpAddr) (name : Name) (rtype : RecordType)
    (reply : Option Message) : Prop :=
  (servers = [] ∧ reply = none) ∨
    servers ≠ [] ∧ ∃ answer : Option Message, C.answers (.servers servers name rtype) answer ∧
      reply = answer.filter acceptableReply

/-- The servers that a referral may lead to, with the names visited by then: its glue, or else whatever safe
addresses the nameservers are found to have. -/
def ReferralTo (bailiwick zone : Name) (nsNames : List Name) (response : Message) (visited : List Text)
    (servers : List IpAddr) (visited' : List Text) : Prop :=
  let glue := filterSafeIps ((glueRecords bailiwick zone nsNames response).filterMap addressOf)
  (glue ≠ [] ∧ servers = glue ∧ visited' = visited) ∨
    glue = [] ∧ ∀ ip ∈ servers, isSafeUpstreamIp ip = true

/-- The result of a call, from the result for the target of an alias. -/
def redirected (name : Name) (rtype : RecordType) (hop : Message) :
    Except RecursorError Message → Except RecursorError Message
  | .ok resp => .ok (mergeRedirectionResponse name rtype hop resp)
  | .error e => .error e

/-- What keeps a contract: the results a call may have, and where its loop may be, by the names visited and
the turns that are left. -/
structure Discipline (P : Platform) (C : CacheContract) where
  result : Call → Except RecursorError Message → Prop
  frame : Call → List Text → Nat → Frame → Prop
  clock : C.asks .clock
  remove : ∀ {cache : TextMap DelegationEntry} (key : Text), C.inv cache → C.inv (cache.remove key)
  tooDeep : ∀ {c : Call}, c.levels = 0 → result c (.error .depthExceeded)
  fromRoot : ∀ c, frame c c.visited maxSteps .fromRoot
  fromCache : ∀ {c : Call} {cache : TextMap DelegationEntry} {zone : Name} {entry : DelegationEntry},
    C.inv cache → zone ∈ (delegationStart c.name c.rtype).ancestors →
      cache (P.nameKey zone) = some entry → entry.servers ≠ [] →
        frame c c.visited maxSteps (.fromCache zone entry.servers)
  asks : ∀ {c : Call} {visited : List Text} {left : Nat} {f : Frame}, frame c visited (left + 1) f →
    C.asks (.servers f.currentServers c.name c.rtype)
  outOfSteps : ∀ {c : Call} {visited : List Text} {f : Frame}, frame c visited 0 f →
    result c (.error .stepLimitExceeded)
  silence : ∀ {c : Call} {visited : List Text} {left : Nat} {f : Frame}, frame c visited (left + 1) f →
    Replied C f.currentServers c.name c.rtype none →
      if f.usingCached then frame c visited left .fromRoot
      else result c (.error .allNameserversFailed)
  done : ∀ {c : Call} {visited : List Text} {left : Nat} {f : Frame} {response : Message}
    {r : Except RecursorError Message}, frame c visited (left + 1) f →
      Replied C f.currentServers c.name c.rtype (some response) →
        judgeResponse P c.name c.rtype f response = .done r → result c r
  redirect : ∀ {c : Call} {visited : List Text} {left : Nat} {f : Frame} {response hop : Message}
    {key : Text} {target : Name}, frame c visited (left + 1) f →
      Replied C f.currentServers c.name c.rtype (some response) →
        judgeResponse P c.name c.rtype f response = .redirect key target hop →
          if visited.contains key then result c (.error .noProgress)
          else ∀ r, result ⟨c.levels - 1, target, c.rtype, key :: visited⟩ r →
            result c (redirected c.name c.rtype hop r)
  referral : ∀ {c : Call} {visited visited' : List Text} {left : Nat} {f : Frame} {response : Message}
    {zone : Name} {nsNames : List Name} {servers : List IpAddr}, frame c visited (left + 1) f →
      Replied C f.currentServers c.name c.rtype (some response) →
        judgeResponse P c.name c.rtype f response = .referral zone nsNames →
          ReferralTo f.bailiwick zone nsNames response visited servers visited' →
            if servers = [] then result c (.error .glueResolutionFailed)
            else frame c visited' left (.fromReferral zone servers) ∧
              ∀ (cache : TextMap DelegationEntry) (expiresAt : Nat), C.inv cache →
                C.inv (cache.insert (P.nameKey zone) ⟨servers, expiresAt⟩)

namespace Discipline

variable {P : Platform} {C : CacheContract} (D : Discipline P C)

/-! ### The delegation cache -/

include D in
theorem nowSecs_obeys : Stepwise.nowSecs.Obeys C fun _ => True :=
  Routine.Obeys.question D.clock fun _ _ => trivial

include D in
theorem purgeFrom_obeys (names : List Name) : (Stepwise.purgeFrom P names).Obeys C fun _ => True := by
  induction names with
  | nil => exact .pure trivial
  | cons current rest ih =>
      have hremove : (Stepwise.cacheRemove (P.nameKey current)).Obeys C fun _ => True :=
        fun cache hcache => ⟨D.remove _ hcache, trivial⟩
      refine hremove.bind fun removed _ => ?_
      cases removed with
      | true => exact .pure trivial
      | false => exact ih

/-- The servers a search comes to were in the cache for a zone of the question when they were read. -/
theorem findCachedStartFrom_obeys (now : Nat) (names : List Name) :
    (Stepwise.findCachedStartFrom P now names).Obeys C fun found =>
      ∀ zone ips, found = some (zone, ips) → zone ∈ names ∧ ∃ cache entry, C.inv cache ∧
        cache (P.nameKey zone) = some entry ∧ entry.servers = ips := by
  induction names with
  | nil => exact .pure fun zone ips h => by cases h
  | cons current rest ih =>
      have hrest := ih.mono fun found h zone ips hfound =>
        (h zone ips hfound).imp (List.mem_cons_of_mem current) id
      have hget : (Stepwise.cacheGet (P.nameKey current)).Obeys C fun read =>
          ∃ cache, C.inv cache ∧ cache (P.nameKey current) = read :=
        Routine.Obeys.look fun cache hcache => ⟨cache, hcache, rfl⟩
      refine hget.bind fun read hread => ?_
      cases read with
      | none => exact hrest
      | some entry =>
          obtain ⟨cache, hcache, hentry⟩ := hread
          simp only
          split
          · refine .pure fun zone ips h => ?_
            cases h
            exact ⟨List.mem_cons_self, cache, entry, hcache, hentry, rfl⟩
          · exact hrest

theorem startFrame_obeys (c : Call) :
    (Stepwise.startFrame P c.name c.rtype).Obeys C (D.frame c c.visited maxSteps) := by
  refine Routine.Obeys.bind (D.nowSecs_obeys.bind fun now _ => findCachedStartFrom_obeys now _) ?_
  intro found hfound
  cases found with
  | none => exact .pure (D.fromRoot c)
  | some start =>
      obtain ⟨zone, ips⟩ := start
      obtain ⟨hzone, cache, entry, hcache, hentry, rfl⟩ := hfound zone ips rfl
      simp only
      split
      · rename_i hsome
        exact .pure (D.fromCache hcache hzone hentry (by simpa using hsome))
      · exact .pure (D.fromRoot c)

/-! ### A query and a referral -/

theorem queryServersWithFallback_obeys {servers : List IpAddr} {name : Name} {rtype : RecordType}
    (hasks : C.asks (.servers servers name rtype)) :
    (Stepwise.queryServersWithFallback servers name rtype).Obeys C (Replied C servers name rtype) := by
  unfold Stepwise.queryServersWithFallback
  split
  · rename_i hnone
    exact .pure (Or.inl ⟨List.isEmpty_iff.mp hnone, rfl⟩)
  · rename_i hsome
    have hask : (Stepwise.askServers servers name rtype).Obeys C (C.answers (.servers servers name rtype)) :=
      Routine.Obeys.question hasks fun _ h => h
    refine hask.bind fun answer hanswer => .pure (Or.inr ⟨?_, answer, hanswer, rfl⟩)
    exact mt List.isEmpty_iff.mpr hsome

section Nested

variable {recurse : Stepwise.Resolve}

/-- The nested resolutions obey the contract. -/
def NestedObeys (recurse : Stepwise.Resolve) (levels : Nat) : Prop :=
  ∀ name rtype visited, (recurse name rtype visited).Obeys C fun r =>
    D.result ⟨levels, name, rtype, visited⟩ r.1

variable {D} {levels : Nat} (hrecurse : D.NestedObeys recurse levels)
include hrecurse

theorem resolveAddresses_obeys (nsName : Name) (rtype : RecordType) (visited : List Text) :
    (Stepwise.resolveAddresses recurse nsName rtype visited).Obeys C fun r =>
      ∀ ip ∈ r.1, isSafeUpstreamIp ip = true := by
  refine (hrecurse nsName rtype visited).bind fun r _ => ?_
  obtain ⟨result, visited'⟩ := r
  cases result with
  | ok resp => exact .pure (filterSafeIps_safe _)
  | error e => exact .pure (List.forall_mem_nil _)

theorem resolveNameserver_obeys (nsName : Name) (visited : List Text) :
    (Stepwise.resolveNameserver P recurse nsName visited).Obeys C fun r =>
      ∀ ip ∈ r.1, isSafeUpstreamIp ip = true := by
  unfold Stepwise.resolveNameserver
  simp only
  split
  · exact .pure (List.forall_mem_nil _)
  · refine (resolveAddresses_obeys hrecurse nsName .A _).bind fun v4 hv4 => ?_
    refine (resolveAddresses_obeys hrecurse nsName .AAAA _).bind fun v6 hv6 => ?_
    exact .pure (List.forall_mem_append.mpr ⟨hv4, hv6⟩)

theorem resolveNameservers_obeys (nsNames : List Name) {ips : List IpAddr}
    (hips : ∀ ip ∈ ips, isSafeUpstreamIp ip = true) (visited : List Text) :
    (Stepwise.resolveNameservers P recurse nsNames ips visited).Obeys C fun r =>
      ∀ ip ∈ r.1, isSafeUpstreamIp ip = true := by
  induction nsNames generalizing ips visited with
  | nil => exact .pure hips
  | cons nsName rest ih =>
      refine (resolveNameserver_obeys hrecurse nsName visited).bind fun r hr => ?_
      have hmore := List.forall_mem_append.mpr ⟨hips, hr⟩
      simp only
      split
      · exact .pure hmore
      · exact ih hmore _

theorem referralServers_obeys (bailiwick zone : Name) (nsNames : List Name) (response : Message)
    (visited : List Text) :
    (Stepwise.referralServers P recurse bailiwick zone nsNames response visited).Obeys C fun r =>
      ReferralTo bailiwick zone nsNames response visited r.1 r.2 := by
  unfold Stepwise.referralServers
  simp only
  split
  · rename_i hnone
    refine (resolveNameservers_obeys hrecurse (nsNames.take 4) (List.forall_mem_nil _) visited).bind ?_
    intro r hr
    refine .pure (Or.inr ⟨List.isEmpty_iff.mp hnone, fun ip hip => hr ip (List.mem_eraseDups.mp hip)⟩)
  · rename_i hsome
    exact .pure (Or.inl ⟨mt List.isEmpty_iff.mpr hsome, rfl, rfl⟩)

/-! ### One turn -/

/-- How a turn may end. -/
def TurnObeys (D : Discipline P C) (c : Call) (left : Nat) (r : Turn × List Text) : Prop :=
  match r.1 with
  | .done result => D.result c result
  | .next f => D.frame c r.2 left f

theorem takeReferral_obeys {c : Call} {visited : List Text} {left : Nat} {f : Frame} {response : Message}
    {zone : Name} {nsNames : List Name} (hframe : D.frame c visited (left + 1) f)
    (hreplied : Replied C f.currentServers c.name c.rtype (some response))
    (hverdict : judgeResponse P c.name c.rtype f response = .referral zone nsNames) :
    (Stepwise.takeReferral P recurse f.bailiwick response zone nsNames visited).Obeys C
      (TurnObeys D c left) := by
  refine (referralServers_obeys hrecurse f.bailiwick zone nsNames response visited).bind fun r hr => ?_
  have hafter := D.referral hframe hreplied hverdict hr
  simp only
  split
  · rename_i hnone
    rw [if_pos (List.isEmpty_iff.mp hnone)] at hafter
    exact .pure hafter
  · rename_i hsome
    rw [if_neg (mt List.isEmpty_iff.mpr hsome)] at hafter
    have hwrite : (Stepwise.writeDelegation P response zone r.1).Obeys C fun _ => True :=
      D.nowSecs_obeys.bind fun now _ =>
        Routine.Obeys.write (fun cache hcache => hafter.2 cache _ hcache) trivial
    exact hwrite.bind fun _ _ => .pure hafter.1

theorem takeRedirect_obeys {c : Call} (hlevels : levels = c.levels - 1) {visited : List Text} {left : Nat}
    {f : Frame} {response hop : Message} {key : Text} {target : Name}
    (hframe : D.frame c visited (left + 1) f)
    (hreplied : Replied C f.currentServers c.name c.rtype (some response))
    (hverdict : judgeResponse P c.name c.rtype f response = .redirect key target hop) :
    (Stepwise.takeRedirect recurse c.name c.rtype key target hop visited).Obeys C fun r =>
      D.result c r.1 := by
  have hafter := D.redirect hframe hreplied hverdict
  unfold Stepwise.takeRedirect
  split
  · rename_i hseen
    rw [if_pos hseen] at hafter
    exact .pure hafter
  · rename_i hnew
    rw [if_neg hnew, ← hlevels] at hafter
    refine (hrecurse target c.rtype (key :: visited)).bind fun r hr => ?_
    obtain ⟨result, visited'⟩ := r
    have hresult := hafter result hr
    cases result with
    | ok resp => exact .pure hresult
    | error e => exact .pure hresult

theorem turn_obeys {c : Call} (hlevels : levels = c.levels - 1) {visited : List Text} {left : Nat}
    {f : Frame} (hframe : D.frame c visited (left + 1) f) :
    (Stepwise.turn P recurse c.name c.rtype f visited).Obeys C (TurnObeys D c left) := by
  refine (queryServersWithFallback_obeys (D.asks hframe)).bind fun reply hreplied => ?_
  cases reply with
  | none =>
      have hafter := D.silence hframe hreplied
      simp only
      split
      · rename_i hcached
        rw [if_pos hcached] at hafter
        exact (D.purgeFrom_obeys _).bind fun _ _ => .pure hafter
      · rename_i hcached
        rw [if_neg hcached] at hafter
        exact .pure hafter
  | some response =>
      simp only
      cases hverdict : judgeResponse P c.name c.rtype f response with
      | done r => exact .pure (D.done hframe hreplied hverdict)
      | redirect key target hop =>
          exact (takeRedirect_obeys hrecurse hlevels hframe hreplied hverdict).bind fun r hr => .pure hr
      | referral zone nsNames => exact takeReferral_obeys hrecurse hframe hreplied hverdict

/-! ### The loop and the nested calls -/

theorem turns_obeys {c : Call} (hlevels : levels = c.levels - 1) {visited : List Text} {left : Nat}
    {f : Frame} (hframe : D.frame c visited left f) :
    (Stepwise.turns P recurse c.name c.rtype left f visited).Obeys C fun r => D.result c r.1 := by
  induction left generalizing visited f with
  | zero => exact .pure (D.outOfSteps hframe)
  | succ left ih =>
      refine (turn_obeys hrecurse hlevels hframe).bind fun r hr => ?_
      obtain ⟨outcome, visited'⟩ := r
      cases outcome with
      | done result => exact .pure hr
      | next f' => exact ih hr

end Nested

/-- Every call obeys, whatever happens to the cache between its accesses. -/
theorem resolveInternal_obeys (levels : Nat) :
    D.NestedObeys (Stepwise.resolveInternal P levels) levels := by
  induction levels with
  | zero => exact fun name rtype visited => .pure (D.tooDeep rfl)
  | succ levels ih =>
      intro name rtype visited
      let c : Call := ⟨levels + 1, name, rtype, visited⟩
      exact (D.startFrame_obeys c).bind fun f hframe => turns_obeys ih (c := c) rfl hframe

/-- The whole resolution of a question. -/
theorem resolve_obeys (name : Name) (rtype : RecordType) :
    (Stepwise.resolve P name rtype).Obeys C (D.result ⟨maxDepth + 1, name, rtype, []⟩) :=
  (D.resolveInternal_obeys (maxDepth + 1) name rtype []).bind fun _ hr => .pure hr

end Discipline

end Recursor
end UnifiedDns
