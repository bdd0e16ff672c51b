import UnifiedDns.Lib.Routines
import UnifiedDns.Recursor.Transport

/-!
# The resolver, access by access

Resolutions run side by side and share the delegation cache.  A resolution holds no lock while it waits for
servers or between two operations on the cache, so another one may come in there.  Here `resolve_internal` is
a routine that makes every operation on the cache, and every wait, a step of its own.

* `Ask` — what a resolution waits for: the clock and the servers.
* `Stepwise` — the functions of `Resolver`, as routines.
* `resolve_alone` — a resolution with nobody else about does what `Resolver` says.
-/

namespace UnifiedDns
namespace Recursor

/-- What a resolution waits for. -/
inductive Ask
  /-- `now_secs()`. -/
  | clock
  /-- The first matching reply from one of the servers. -/
  | servers (ips : List IpAddr) (name : Name) (rtype : RecordType)

def Ask.Answer : Ask → Type
  | .clock => Nat
  | .servers _ _ _ => Option Message

/-- A part of a resolution, over the delegation cache. -/
abbrev Resolution (α : Type) := Routine (TextMap DelegationEntry) Ask Ask.Answer α

namespace Stepwise

/-! ### Single steps -/

/-- `now_secs()`. -/
def nowSecs : Resolution Nat := Routine.question Ask.clock

/-- The servers are asked, and there is a first matching reply or none. -/
def askServers (servers : List IpAddr) (name : Name) (rtype : RecordType) :
    Resolution (Option Message) :=
  Routine.question (Ask.servers servers name rtype)

/-- `delegation_cache.get`. -/
def cacheGet (key : Text) : Resolution (Option DelegationEntry) := Routine.look fun cache => cache key

/-- `delegation_cache.insert`. -/
def cacheInsert (key : Text) (entry : DelegationEntry) : Resolution Unit :=
  Routine.write fun cache => cache.insert key entry

/-- `delegation_cache.remove`, and whether there was an entry. -/
def cacheRemove (key : Text) : Resolution Bool :=
  .access (fun cache => cache.remove key) fun cache => .done (cache key).isSome

/-- `query_servers_with_fallback`. -/
def queryServersWithFallback (servers : List IpAddr) (name : Name) (rtype : RecordType) :
    Resolution (Option Message) :=
  if servers.isEmpty then pure none
  else do
    let reply ← askServers servers name rtype
    pure (reply.filter acceptableReply)

/-! ### The delegation cache -/

/-- The loop of `purge_delegation_for`. -/
def purgeFrom (P : Platform) : List Name → Resolution Unit
  | [] => pure ()
  | current :: rest => do
      match ← cacheRemove (P.nameKey current) with
      | true => pure ()
      | false => purgeFrom P rest

/-- `purge_delegation_for`. -/
def purgeDelegationFor (P : Platform) (name : Name) (rtype : RecordType) : Resolution Unit :=
  purgeFrom P (delegationStart name rtype).ancestors

/-- The loop of `find_cached_start`, with the zone it finds. -/
def findCachedStartFrom (P : Platform) (now : Nat) : List Name → Resolution (Option (Name × List IpAddr))
  | [] => pure none
  | current :: rest => do
      match ← cacheGet (P.nameKey current) with
      | none => findCachedStartFrom P now rest
      | some entry =>
          if now < entry.expiresAt then pure (some (current, entry.servers))
          else findCachedStartFrom P now rest

/-- `find_cached_start`. -/
def findCachedStart (P : Platform) (name : Name) (rtype : RecordType) :
    Resolution (Option (Name × List IpAddr)) := do
  let now ← nowSecs
  findCachedStartFrom P now (delegationStart name rtype).ancestors

/-- The local variables before the first turn. -/
def startFrame (P : Platform) (name : Name) (rtype : RecordType) : Resolution Frame := do
  match ← findCachedStart P name rtype with
  | some (zone, ips) => pure (if !ips.isEmpty then .fromCache zone ips else .fromRoot)
  | none => pure .fromRoot

/-- `delegation_cache.insert` after a referral. -/
def writeDelegation (P : Platform) (response : Message) (zone : Name) (servers : List IpAddr) :
    Resolution Unit := do
  let now ← nowSecs
  cacheInsert (P.nameKey zone) ⟨servers, now + delegationTtl response⟩

/-! ### Following a referral -/

/-- A nested resolution; the visited set is handed on. -/
abbrev Resolve := Name → RecordType → List Text → Resolution (Except RecursorError Message × List Text)

/-- The safe addresses of the answer to a nested resolution; a failure gives none. -/
def resolveAddresses (recurse : Resolve) (nsName : Name) (rtype : RecordType) (visited : List Text) :
    Resolution (List IpAddr × List Text) := do
  match ← recurse nsName rtype visited with
  | (.ok resp, visited) =>
      let addresses := (resp.answers.filter fun r => decide (r.recordType = rtype)).filterMap addressOf
      pure (filterSafeIps addresses, visited)
  | (.error _, visited) => pure ([], visited)

/-- The addresses of one nameserver, unless it has been resolved before. -/
def resolveNameserver (P : Platform) (recurse : Resolve) (nsName : Name) (visited : List Text) :
    Resolution (List IpAddr × List Text) :=
  let key := asciiText "ns:resolve:" ++ P.nameKey nsName
  if visited.contains key then pure ([], visited)
  else do
    let (v4, visited) ← resolveAddresses recurse nsName .A (key :: visited)
    let (v6, visited) ← resolveAddresses recurse nsName .AAAA visited
    pure (v4 ++ v6, visited)

/-- The loop over the nameservers that are left, until four addresses are known. -/
def resolveNameservers (P : Platform) (recurse : Resolve) :
    List Name → List IpAddr → List Text → Resolution (List IpAddr × List Text)
  | [], ips, visited => pure (ips, visited)
  | nsName :: rest, ips, visited => do
      let (more, visited) ← resolveNameserver P recurse nsName visited
      if 4 ≤ (ips ++ more).length then pure (ips ++ more, visited)
      else resolveNameservers P recurse rest (ips ++ more) visited

/-- The addresses of the servers a referral leads to: its glue, or resolved addresses. -/
def referralServers (P : Platform) (recurse : Resolve) (bailiwick zone : Name) (nsNames : List Name)
    (response : Message) (visited : List Text) : Resolution (List IpAddr × List Text) :=
  let glue := filterSafeIps ((glueRecords bailiwick zone nsNames response).filterMap addressOf)
  if glue.isEmpty then do
    let (ips, visited) ← resolveNameservers P recurse (nsNames.take 4) [] visited
    pure (ips.eraseDups, visited)
  else pure (glue, visited)

/-- Go to the servers of a referral and remember them. -/
def takeReferral (P : Platform) (recurse : Resolve) (bailiwick : Name) (response : Message) (zone : Name)
    (nsNames : List Name) (visited : List Text) : Resolution (Turn × List Text) := do
  let (nextIps, visited) ← referralServers P recurse bailiwick zone nsNames response visited
  if nextIps.isEmpty then pure (.done (.error .glueResolutionFailed), visited)
  else do
    writeDelegation P response zone nextIps
    pure (.next (.fromReferral zone nextIps), visited)

/-- Resolve the target of an alias. -/
def takeRedirect (recurse : Resolve) (name : Name) (rtype : RecordType) (key : Text) (target : Name)
    (hop : Message) (visited : List Text) : Resolution (Except RecursorError Message × List Text) :=
  if visited.contains key then pure (.error .noProgress, visited)
  else do
    match ← recurse target rtype (key :: visited) with
    | (.ok resp, visited) => pure (.ok (mergeRedirectionResponse name rtype hop resp), visited)
    | (.error e, visited) => pure (.error e, visited)

/-! ### The loop -/

/-- One turn of the loop. -/
def turn (P : Platform) (recurse : Resolve) (name : Name) (rtype : RecordType) (frame : Frame)
    (visited : List Text) : Resolution (Turn × List Text) := do
  match ← queryServersWithFallback frame.currentServers name rtype with
  | none =>
      if frame.usingCached then do
        purgeDelegationFor P name rtype
        pure (.next .fromRoot, visited)
      else pure (.done (.error .allNameserversFailed), visited)
  | some response =>
      match judgeResponse P name rtype frame response with
      | .done result => pure (.done result, visited)
      | .redirect key target hop => do
          let (result, visited) ← takeRedirect recurse name rtype key target hop visited
          pure (.done result, visited)
      | .referral zone nsNames => takeReferral P recurse frame.bailiwick response zone nsNames visited

/-- The loop over the turns that are left. -/
def turns (P : Platform) (recurse : Resolve) (name : Name) (rtype : RecordType) :
    Nat → Frame → List Text → Resolution (Except RecursorError Message × List Text)
  | 0, _, visited => pure (.error .stepLimitExceeded, visited)
  | left + 1, frame, visited => do
      match ← turn P recurse name rtype frame visited with
      | (.done result, visited) => pure (result, visited)
      | (.next frame, visited) => turns P recurse name rtype left frame visited

/-- `resolve_internal`, with the levels of nesting that are left. -/
def resolveInternal (P : Platform) : Nat → Resolve
  | 0, _, _, visited => pure (.error .depthExceeded, visited)
  | levels + 1, name, rtype, visited => do
      let frame ← startFrame P name rtype
      turns P (resolveInternal P levels) name rtype maxSteps frame visited

/-- `resolve`. -/
def resolve (P : Platform) (name : Name) (rtype : RecordType) :
    Resolution (Except RecursorError Message) := do
  let (result, _) ← resolveInternal P (maxDepth + 1) name rtype []
  pure result

end Stepwise

/-! ### Alone -/

/-- What the outside of a resolution answers. -/
def REnv.outside (env : REnv) (tick : Nat) : ∀ q : Ask, q.Answer
  | .clock => env.clock tick
  | .servers ips name rtype => env.reply tick ips name rtype

/-- A result with the parts of the state that a routine knows. -/
abbrev seenFrom {α : Type} (r : α × RState) : (α × List Text) × Nat × TextMap DelegationEntry :=
  ((r.1, r.2.visited), r.2.tick, r.2.delegationCache)

section Alone

variable {env : REnv}

/-- The routine of a nested resolution does what the resolution says. -/
def AgreesAlone (env : REnv) (stepwise : Stepwise.Resolve) (recurse : Resolve) : Prop :=
  ∀ name rtype s, (stepwise name rtype s.visited).alone env.outside s.tick s.delegationCache =
    seenFrom (recurse name rtype s)

theorem TextMap.remove_of_none {V : Type} {m : TextMap V} {key : Text} (h : m key = none) :
    m.remove key = m := by
  funext k
  unfold TextMap.remove
  split
  · rename_i hk
    rw [hk, h]
  · rfl

theorem cacheRemove_alone (key : Text) (tick : Nat) (cache : TextMap DelegationEntry) :
    (Stepwise.cacheRemove key).alone env.outside tick cache =
      ((cache key).isSome, tick, cache.remove key) := rfl

theorem askServers_alone (servers : List IpAddr) (name : Name) (rtype : RecordType) (tick : Nat)
    (cache : TextMap DelegationEntry) :
    (Stepwise.askServers servers name rtype).alone env.outside tick cache =
      (env.reply tick servers name rtype, tick + 1, cache) := rfl

theorem queryServersWithFallback_alone (servers : List IpAddr) (name : Name) (rtype : RecordType)
    (s : RState) :
    (Stepwise.queryServersWithFallback servers name rtype).alone env.outside s.tick s.delegationCache =
      ((queryServersWithFallback env servers name rtype s).1,
        (queryServersWithFallback env servers name rtype s).2.tick, s.delegationCache) := by
  by_cases hnone : servers.isEmpty = true
  · simp only [Stepwise.queryServersWithFallback, queryServersWithFallback, if_pos hnone,
      Routine.alone_pure]
  · simp only [Stepwise.queryServersWithFallback, queryServersWithFallback, if_neg hnone,
      Routine.alone_bind, askServers_alone, Routine.alone_pure]
    cases env.reply s.tick servers name rtype with
    | none => rfl
    | some msg => simp [Option.filter, acceptableReply]

/-- A query only counts as an event. -/
theorem queryServersWithFallback_tick (env : REnv) (servers : List IpAddr) (name : Name)
    (rtype : RecordType) (s : RState) :
    ∃ reply tick, queryServersWithFallback env servers name rtype s = (reply, { s with tick := tick }) := by
  unfold queryServersWithFallback
  split
  · exact ⟨none, s.tick, rfl⟩
  · exact ⟨_, s.tick + 1, rfl⟩

theorem purgeFrom_alone (P : Platform) (names : List Name) (tick : Nat)
    (cache : TextMap DelegationEntry) :
    (Stepwise.purgeFrom P names).alone env.outside tick cache = ((), tick, purgeFrom P names cache) := by
  induction names generalizing cache with
  | nil => rfl
  | cons current rest ih =>
      simp only [Stepwise.purgeFrom, purgeFrom, Routine.alone_bind, cacheRemove_alone]
      cases hentry : cache (P.nameKey current) with
      | some entry => rfl
      | none =>
          simp only [Option.isSome_none]
          rw [ih, TextMap.remove_of_none hentry]
          rfl

theorem findCachedStartFrom_alone (P : Platform) (now : Nat) (names : List Name) (tick : Nat)
    (cache : TextMap DelegationEntry) :
    (Stepwise.findCachedStartFrom P now names).alone env.outside tick cache =
      (findCachedStartFrom P now cache names, tick, cache) := by
  induction names with
  | nil => rfl
  | cons current rest ih =>
      simp only [Stepwise.findCachedStartFrom, findCachedStartFrom, Routine.alone_bind,
        Stepwise.cacheGet, Routine.alone_look]
      cases cache (P.nameKey current) with
      | none => exact ih
      | some entry =>
          simp only
          split
          · rfl
          · exact ih

theorem nowSecs_alone (tick : Nat) (cache : TextMap DelegationEntry) :
    Stepwise.nowSecs.alone env.outside tick cache = (env.clock tick, tick + 1, cache) := rfl

theorem startFrame_alone (name : Name) (rtype : RecordType) (s : RState) :
    (Stepwise.startFrame env.platform name rtype).alone env.outside s.tick s.delegationCache =
      ((startFrame env name rtype s).1, s.tick + 1, s.delegationCache) := by
  simp only [Stepwise.startFrame, Stepwise.findCachedStart, startFrame, findCachedStart,
    RState.readClock, Routine.alone_bind, nowSecs_alone, findCachedStartFrom_alone]
  cases findCachedStartFrom env.platform (env.clock s.tick) s.delegationCache
      (delegationStart name rtype).ancestors with
  | none => rfl
  | some start => rfl

/-- The start of a call only reads the clock. -/
theorem startFrame_readClock (name : Name) (rtype : RecordType) (s : RState) :
    (startFrame env name rtype s).2 = { s with tick := s.tick + 1 } := by
  simp only [startFrame, findCachedStart, RState.readClock]
  cases findCachedStartFrom env.platform (env.clock s.tick) s.delegationCache
      (delegationStart name rtype).ancestors with
  | none => rfl
  | some start => rfl

section Nested

variable {stepwise : Stepwise.Resolve} {recurse : Resolve} (hrecurse : AgreesAlone env stepwise recurse)
include hrecurse

theorem resolveAddresses_alone (nsName : Name) (rtype : RecordType) (s : RState) :
    (Stepwise.resolveAddresses stepwise nsName rtype s.visited).alone env.outside s.tick
      s.delegationCache = seenFrom (resolveAddresses recurse nsName rtype s) := by
  simp only [Stepwise.resolveAddresses, resolveAddresses, Routine.alone_bind, hrecurse nsName rtype s]
  rcases recurse nsName rtype s with ⟨result, s'⟩
  cases result with
  | ok resp => rfl
  | error e => rfl

theorem resolveNameserver_alone (nsName : Name) (s : RState) :
    (Stepwise.resolveNameserver env.platform stepwise nsName s.visited).alone env.outside s.tick
      s.delegationCache = seenFrom (resolveNameserver env recurse nsName s) := by
  simp only [Stepwise.resolveNameserver, resolveNameserver]
  split
  · rfl
  · generalize asciiText "ns:resolve:" ++ env.platform.nameKey nsName = key
    have hv4 : (Stepwise.resolveAddresses stepwise nsName .A (key :: s.visited)).alone env.outside s.tick
        s.delegationCache = seenFrom (resolveAddresses recurse nsName .A (s.visit key)) :=
      resolveAddresses_alone hrecurse nsName .A (s.visit key)
    rw [Routine.alone_bind, hv4]
    rcases resolveAddresses recurse nsName .A (s.visit key) with ⟨v4, s'⟩
    rw [Routine.alone_bind, resolveAddresses_alone hrecurse nsName .AAAA s']
    rfl

theorem resolveNameservers_alone (nsNames : List Name) (ips : List IpAddr) (s : RState) :
    (Stepwise.resolveNameservers env.platform stepwise nsNames ips s.visited).alone env.outside s.tick
      s.delegationCache = seenFrom (resolveNameservers env recurse nsNames ips s) := by
  induction nsNames generalizing ips s with
  | nil => rfl
  | cons nsName rest ih =>
      unfold Stepwise.resolveNameservers resolveNameservers
      rw [Routine.alone_bind, resolveNameserver_alone hrecurse nsName s]
      rcases resolveNameserver env recurse nsName s with ⟨more, s'⟩
      simp only [seenFrom]
      by_cases henough : 4 ≤ (ips ++ more).length
      · simp only [if_pos henough]
        rfl
      · simp only [if_neg henough]
        exact ih (ips ++ more) s'

theorem referralServers_alone (bailiwick zone : Name) (nsNames : List Name) (response : Message)
    (s : RState) :
    (Stepwise.referralServers env.platform stepwise bailiwick zone nsNames response s.visited).alone
      env.outside s.tick s.delegationCache =
        seenFrom (referralServers env recurse bailiwick zone nsNames response s) := by
  simp only [Stepwise.referralServers, referralServers]
  split
  · simp only [Routine.alone_bind, resolveNameservers_alone hrecurse (nsNames.take 4) [] s]
    rfl
  · rfl

theorem takeReferral_alone (frame : Frame) (recorded : TextMap DelegationEntry) (response : Message)
    (zone : Name) (nsNames : List Name) (s : RState) :
    (Stepwise.takeReferral env.platform stepwise frame.bailiwick response zone nsNames s.visited).alone
      env.outside s.tick s.delegationCache =
        seenFrom (takeReferral env recurse frame recorded response zone nsNames s) := by
  unfold Stepwise.takeReferral takeReferral
  rw [Routine.alone_bind, referralServers_alone hrecurse frame.bailiwick zone nsNames response s]
  rcases referralServers env recurse frame.bailiwick zone nsNames response s with ⟨ips, s'⟩
  by_cases hnone : ips.isEmpty = true
  · simp only [seenFrom, if_pos hnone]
    rfl
  · simp only [seenFrom, if_neg hnone]
    rfl

theorem takeRedirect_alone (name : Name) (rtype : RecordType) (key : Text) (target : Name)
    (hop : Message) (s : RState) :
    (Stepwise.takeRedirect stepwise name rtype key target hop s.visited).alone env.outside s.tick
      s.delegationCache = seenFrom (takeRedirect recurse name rtype key target hop s) := by
  simp only [Stepwise.takeRedirect, takeRedirect]
  split
  · rfl
  · have htarget := hrecurse target rtype (s.visit key)
    simp only [RState.visit] at htarget
    simp only [Routine.alone_bind, htarget, RState.visit]
    rcases recurse target rtype { s with visited := key :: s.visited } with ⟨result, s'⟩
    cases result with
    | ok resp => rfl
    | error e => rfl

/-- One turn. -/
theorem turn_alone (name : Name) (rtype : RecordType) (frame : Frame) (s : RState) :
    (Stepwise.turn env.platform stepwise name rtype frame s.visited).alone env.outside s.tick
      s.delegationCache = seenFrom (turn env recurse name rtype frame s) := by
  obtain ⟨reply, tick, hquery⟩ :=
    queryServersWithFallback_tick env frame.currentServers name rtype s
  unfold Stepwise.turn turn
  rw [Routine.alone_bind, queryServersWithFallback_alone frame.currentServers name rtype s, hquery]
  cases reply with
  | none =>
      by_cases hcached : frame.usingCached = true
      · simp only [if_pos hcached, Stepwise.purgeDelegationFor, Routine.alone_bind, purgeFrom_alone]
        rfl
      · simp only [if_neg hcached]
        rfl
  | some response =>
      simp only
      cases judgeResponse env.platform name rtype frame response with
      | done result => rfl
      | redirect key target hop =>
          have htarget := takeRedirect_alone hrecurse name rtype key target hop { s with tick := tick }
          simp only [Routine.alone_bind] at htarget ⊢
          rw [htarget]
          rfl
      | referral zone nsNames =>
          exact takeReferral_alone hrecurse frame _ response zone nsNames { s with tick := tick }

theorem turns_alone (name : Name) (rtype : RecordType) (left : Nat) (frame : Frame) (s : RState) :
    (Stepwise.turns env.platform stepwise name rtype left frame s.visited).alone env.outside s.tick
      s.delegationCache = seenFrom (turns env recurse name rtype left frame s) := by
  induction left generalizing frame s with
  | zero => rfl
  | succ left ih =>
      simp only [Stepwise.turns, turns, Routine.alone_bind, turn_alone hrecurse name rtype frame s]
      rcases turn env recurse name rtype frame s with ⟨outcome, s'⟩
      cases outcome with
      | done result => rfl
      | next frame => exact ih frame s'

end Nested

theorem resolveInternal_alone (env : REnv) (levels : Nat) :
    AgreesAlone env (Stepwise.resolveInternal env.platform levels) (resolveInternal env levels) := by
  induction levels with
  | zero => exact fun name rtype s => rfl
  | succ levels ih =>
      intro name rtype s
      simp only [Stepwise.resolveInternal, resolveInternal, Routine.alone_bind, startFrame_alone,
        startFrame_readClock]
      exact turns_alone ih name rtype maxSteps _ { s with tick := s.tick + 1 }

/-- **A resolution alone.**  With nobody else about, the routine comes to the result of `resolve`, after as
many events from outside, and leaves the same delegation cache. -/
theorem resolve_alone (env : REnv) (name : Name) (rtype : RecordType) (s : RState) :
    (Stepwise.resolve env.platform name rtype).alone env.outside s.tick s.delegationCache =
      ((resolve env name rtype s).1, (resolve env name rtype s).2.tick,
        (resolve env name rtype s).2.delegationCache) := by
  have hcall := resolveInternal_alone env (maxDepth + 1) name rtype { s with visited := [] }
  simp only at hcall
  simp only [Stepwise.resolve, Routine.alone_bind, hcall]
  rfl

end Alone

end Recursor
end UnifiedDns
