import UnifiedDns.Dnssec.Redirection
import UnifiedDns.Recursor.Upstream

/-!
# The recursive resolver

`RecursiveResolver::resolve_internal`: the loop over delegations, with the delegation cache, the set of
names visited and the nested resolutions for aliases and nameserver addresses.

* `REnv` — the platform, the clock and the servers.  What a list of servers answers is indexed by the
  number of outside events so far, so that every server may answer as it likes each time.
* `RState` — the delegation cache and the visited set.  `referrals` is a ghost: the referrals that were
  written to the cache; no modelled function reads it.
* `Frame` — the local variables of the loop, with the zone of a cached start as a ghost.
* `judgeResponse` — what one response means; it reads nothing but its arguments.
* `turn`, `turns`, `resolveInternal` — one turn of the loop, the loop, one call.  The nested call is a
  parameter of the first two.
-/

namespace UnifiedDns
namespace Recursor

open Dnssec (dnameSubstitute extractDnameTarget)

structure DelegationEntry where
  servers : List IpAddr
  expiresAt : Nat

/-- The outside of a resolution. -/
structure REnv where
  platform : Platform
  /-- `now_secs()` at the given outside event. -/
  clock : Nat → Nat
  /-- The first matching reply from one of the servers at the given outside event. -/
  reply : Nat → List IpAddr → Name → RecordType → Option Message

/-- The local variables of the loop. -/
structure Frame where
  currentServers : List IpAddr
  usingCached : Bool
  lastZone : Option Name
  bailiwick : Name
  /-- A ghost: the zone whose cached servers are in use, until a referral or a retry. -/
  cachedFrom : Option Name

/-- A referral that was written to the delegation cache (a ghost). -/
structure Referral where
  /-- The loop when the servers were asked. -/
  frame : Frame
  /-- The delegation cache when the servers were asked. -/
  recorded : TextMap DelegationEntry
  message : Message
  zone : Name
  nsNames : List Name
  /-- The servers written. -/
  servers : List IpAddr

structure RState where
  tick : Nat
  delegationCache : TextMap DelegationEntry
  visited : List Text
  referrals : List Referral

namespace RState

/-- `RecursiveResolver::new`. -/
def init : RState where
  tick := 0
  delegationCache := TextMap.empty
  visited := []
  referrals := []

/-- `now_secs()`. -/
def readClock (env : REnv) (s : RState) : Nat × RState :=
  (env.clock s.tick, { s with tick := s.tick + 1 })

/-- `visited.insert`. -/
def visit (key : Text) (s : RState) : RState := { s with visited := key :: s.visited }

end RState

/-- `query_servers_with_fallback`: the first reply with an acceptable response code. -/
def queryServersWithFallback (env : REnv) (servers : List IpAddr) (name : Name)
    (rtype : RecordType) (s : RState) : Option Message × RState :=
  if servers.isEmpty then (none, s)
  else
    let reply := match env.reply s.tick servers name rtype with
      | some msg =>
          if msg.responseCode = .noError ∨ msg.responseCode = .nxDomain then some msg else none
      | none => none
    (reply, { s with tick := s.tick + 1 })

/-- Where the search for a delegation of a question starts: above the name for a DS question. -/
def delegationStart (name : Name) (rtype : RecordType) : Name :=
  if rtype = .DS then name.baseName else name

/-- The loop of `purge_delegation_for`. -/
def purgeFrom (P : Platform) : List Name → TextMap DelegationEntry → TextMap DelegationEntry
  | [], cache => cache
  | current :: rest, cache =>
      if (cache (P.nameKey current)).isSome then cache.remove (P.nameKey current)
      else purgeFrom P rest cache

/-- `purge_delegation_for`. -/
def purgeDelegationFor (env : REnv) (name : Name) (rtype : RecordType) (s : RState) : RState :=
  { s with delegationCache :=
      purgeFrom env.platform (delegationStart name rtype).ancestors s.delegationCache }

/-- The loop of `find_cached_start`, with the zone it finds. -/
def findCachedStartFrom (P : Platform) (now : Nat) (cache : TextMap DelegationEntry) :
    List Name → Option (Name × List IpAddr)
  | [] => none
  | current :: rest =>
      match cache (P.nameKey current) with
      | none => findCachedStartFrom P now cache rest
      | some entry =>
          if now < entry.expiresAt then some (current, entry.servers)
          else findCachedStartFrom P now cache rest

/-- `find_cached_start`. -/
def findCachedStart (env : REnv) (name : Name) (rtype : RecordType) (s : RState) :
    Option (Name × List IpAddr) × RState :=
  let (now, s) := s.readClock env
  (findCachedStartFrom env.platform now s.delegationCache (delegationStart name rtype).ancestors, s)

/-- The loop starts over from the root servers. -/
def Frame.fromRoot : Frame := ⟨rootServers, false, none, .root, none⟩

/-- The loop starts from the servers cached for `zone`. -/
def Frame.fromCache (zone : Name) (ips : List IpAddr) : Frame := ⟨ips, true, none, .root, some zone⟩

/-- The loop goes on with the servers of a referral. -/
def Frame.fromReferral (zone : Name) (ips : List IpAddr) : Frame :=
  ⟨ips, false, some zone, zone, none⟩

/-- The local variables before the first turn. -/
def startFrame (env : REnv) (name : Name) (rtype : RecordType) (s : RState) : Frame × RState :=
  match findCachedStart env name rtype s with
  | (some (zone, ips), s) => (if !ips.isEmpty then .fromCache zone ips else .fromRoot, s)
  | (none, s) => (.fromRoot, s)

/-! ### What a response means -/

inductive Verdict
  /-- The call returns. -/
  | done (result : Except RecursorError Message)
  /-- Resolve `target`, unless `key` has been visited, and merge the result with `hop`. -/
  | redirect (key : Text) (target : Name) (hop : Message)
  /-- The servers refer to the servers of `zone`. -/
  | referral (zone : Name) (nsNames : List Name)

/-- The section holds a record of the name and type. -/
def hasRecord (records : List Record) (name : Name) (rtype : RecordType) : Bool :=
  records.any fun r => r.name == name && decide (r.recordType = rtype)

/-- How the CNAME chain inside an answer section ends. -/
inductive CnameEnd
  | loop
  | answered
  | target (name : Name)

/-- The loop that follows CNAME records inside a response, with the turns that are left; every turn
adds a key of a CNAME target of the section, so there are never more turns than records and one. -/
def followCnames (P : Platform) (records : List Record) (rtype : RecordType) :
    Nat → List Text → Name → CnameEnd
  | 0, _, _ => .loop
  | turns + 1, seen, current =>
      let key := P.nameKey current
      if seen.contains key then .loop
      else if hasRecord records current rtype then .answered
      else
        match Dnssec.cnameTargetAt records current with
        | some next => followCnames P records rtype turns (key :: seen) next
        | none => .target current

/-- The first DNAME above `name` with a readable target: owner, target and time to live. -/
def dnameMatch (records : List Record) (name : Name) : Option (Name × Name × Nat) :=
  records.findSome? fun r =>
    if decide (r.recordType = dnameRecordType) && r.name.zoneOf name && r.name != name then
      match extractDnameTarget r with
      | some target => some (r.name, target, r.ttl)
      | none => none
    else none

/-- The DNAME branch. -/
def judgeDname (P : Platform) (name : Name) (rtype : RecordType) (response : Message)
    (dnameOwner target : Name) (dnameTtl : Nat) : Verdict :=
  match dnameSubstitute P name dnameOwner target with
  | .ok substituted =>
      let hop :=
        if hasRecord response.answers name .CNAME then response
        else { response with
          answers := response.answers ++ [⟨name, .IN, dnameTtl, .cname substituted⟩] }
      if hasRecord hop.answers substituted rtype then .done (.ok hop)
      else .redirect (asciiText "dname:" ++ P.nameKey substituted) substituted hop
  | .error .yxDomain => .done (.ok { response with responseCode := .yxDomain })
  | .error _ => .done (.error .noProgress)

/-- The answer section: a final answer, an alias, or nothing for this question. -/
def judgeAnswers (P : Platform) (name : Name) (rtype : RecordType) (response : Message) :
    Option Verdict :=
  if response.answers.isEmpty then none
  else if hasRecord response.answers name rtype then some (.done (.ok response))
  else
    match Dnssec.cnameTargetAt response.answers name with
    | some firstTarget =>
        match followCnames P response.answers rtype (response.answers.length + 2)
            [P.nameKey name] firstTarget with
        | .loop => some (.done (.error .noProgress))
        | .answered => some (.done (.ok response))
        | .target current =>
            some (.redirect (asciiText "cname:" ++ P.nameKey current) current response)
    | none =>
        match dnameMatch response.answers name with
        | some (dnameOwner, target, ttl) =>
            some (judgeDname P name rtype response dnameOwner target ttl)
        | none => none

/-- The first SOA of the authority section is the SOA of a zone of the name. -/
def hasAuthoritativeSoa (name : Name) (rtype : RecordType) (response : Message) : Bool :=
  match response.nameServers.find? Record.isSoa with
  | some soa =>
      soa.name.zoneOf name || soa.name == name ||
        (decide (rtype = .DS) && (name.zoneOf soa.name || soa.name.zoneOf name))
  | none => false

/-- The NS records of a response. -/
def nsRecords (response : Message) : List Record :=
  response.nameServers.filter fun r => decide (r.recordType = .NS)

/-- The nameserver an NS record names. -/
def nsTarget (rec : Record) : Option Name :=
  match rec.data with
  | .ns nsdname => some nsdname
  | _ => none

/-- The authority section of a response that is not final: where it refers to. -/
def judgeReferral (name : Name) (frame : Frame) (response : Message) : Verdict :=
  if response.nameServers.isEmpty then .done (.error .noProgress)
  else
    match nsRecords response with
    | [] => .done (.ok response)
    | first :: rest =>
        let delegationOwner := first.name
        if rest.any fun r => r.name != delegationOwner then .done (.error .noProgress)
        else
          let nsNames := (first :: rest).filterMap nsTarget
          if nsNames.isEmpty then .done (.ok response)
          else if frame.lastZone.any (· == delegationOwner) then .done (.error .noProgress)
          else if !(delegationOwner.zoneOf name || delegationOwner == name) ||
              !(frame.bailiwick.isRoot || frame.bailiwick.zoneOf delegationOwner ||
                frame.bailiwick == delegationOwner) then .done (.error .noProgress)
          else .referral delegationOwner nsNames

/-- What one response means to the loop. -/
def judgeResponse (P : Platform) (name : Name) (rtype : RecordType) (frame : Frame)
    (response : Message) : Verdict :=
  match judgeAnswers P name rtype response with
  | some verdict => verdict
  | none =>
      if hasAuthoritativeSoa name rtype response then .done (.ok response)
      else if response.responseCode = .nxDomain ∧ response.authoritative = true then
        .done (.ok response)
      else judgeReferral name frame response

/-! ### Following a referral -/

/-- The additional records that are taken as glue. -/
def glueRecords (bailiwick zone : Name) (nsNames : List Name) (response : Message) : List Record :=
  response.additionals.filter fun add =>
    nsNames.any (· == add.name) &&
      (bailiwick.isRoot || bailiwick.zoneOf add.name || bailiwick == add.name ||
        zone.zoneOf add.name || zone == add.name)

/-- A nested resolution. -/
abbrev Resolve := Name → RecordType → RState → Except RecursorError Message × RState

/-- The safe addresses of the answer to a nested resolution; a failure gives none. -/
def resolveAddresses (recurse : Resolve) (nsName : Name) (rtype : RecordType) (s : RState) :
    List IpAddr × RState :=
  match recurse nsName rtype s with
  | (.ok resp, s) =>
      let addresses := (resp.answers.filter fun r => decide (r.recordType = rtype)).filterMap addressOf
      (filterSafeIps addresses, s)
  | (.error _, s) => ([], s)

/-- The addresses of one nameserver, unless it has been resolved before. -/
def resolveNameserver (env : REnv) (recurse : Resolve) (nsName : Name) (s : RState) :
    List IpAddr × RState :=
  let key := asciiText "ns:resolve:" ++ env.platform.nameKey nsName
  if s.visited.contains key then ([], s)
  else
    let (v4, s) := resolveAddresses recurse nsName .A (s.visit key)
    let (v6, s) := resolveAddresses recurse nsName .AAAA s
    (v4 ++ v6, s)

/-- The loop over the nameservers that are left, until four addresses are known. -/
def resolveNameservers (env : REnv) (recurse : Resolve) :
    List Name → List IpAddr → RState → List IpAddr × RState
  | [], ips, s => (ips, s)
  | nsName :: rest, ips, s =>
      let (more, s) := resolveNameserver env recurse nsName s
      if 4 ≤ (ips ++ more).length then (ips ++ more, s)
      else resolveNameservers env recurse rest (ips ++ more) s

/-- The addresses of the servers a referral leads to: its glue, or resolved addresses. -/
def referralServers (env : REnv) (recurse : Resolve) (bailiwick zone : Name)
    (nsNames : List Name) (response : Message) (s : RState) : List IpAddr × RState :=
  let glue := filterSafeIps ((glueRecords bailiwick zone nsNames response).filterMap addressOf)
  if glue.isEmpty then
    let (ips, s) := resolveNameservers env recurse (nsNames.take 4) [] s
    (ips.eraseDups, s)
  else (glue, s)

/-- `delegation_cache.insert`, with the ghost record of the referral. -/
def writeDelegation (env : REnv) (referral : Referral) (s : RState) : RState :=
  let ttl := delegationTtl referral.message
  let (now, s) := s.readClock env
  { s with
    delegationCache := s.delegationCache.insert (env.platform.nameKey referral.zone)
      ⟨referral.servers, now + ttl⟩
    referrals := referral :: s.referrals }

/-- How a turn of the loop ends. -/
inductive Turn
  | done (result : Except RecursorError Message)
  | next (frame : Frame)

/-- Go to the servers of a referral and remember them. -/
def takeReferral (env : REnv) (recurse : Resolve) (frame : Frame)
    (recorded : TextMap DelegationEntry) (response : Message) (zone : Name) (nsNames : List Name)
    (s : RState) : Turn × RState :=
  let (nextIps, s) := referralServers env recurse frame.bailiwick zone nsNames response s
  if nextIps.isEmpty then (.done (.error .glueResolutionFailed), s)
  else
    (.next (.fromReferral zone nextIps),
      writeDelegation env ⟨frame, recorded, response, zone, nsNames, nextIps⟩ s)

/-- Resolve the target of an alias. -/
def takeRedirect (recurse : Resolve) (name : Name) (rtype : RecordType) (key : Text)
    (target : Name) (hop : Message) (s : RState) : Except RecursorError Message × RState :=
  if s.visited.contains key then (.error .noProgress, s)
  else
    match recurse target rtype (s.visit key) with
    | (.ok resp, s) => (.ok (mergeRedirectionResponse name rtype hop resp), s)
    | (.error e, s) => (.error e, s)

/-- One turn of the loop. -/
def turn (env : REnv) (recurse : Resolve) (name : Name) (rtype : RecordType) (frame : Frame)
    (s : RState) : Turn × RState :=
  let recorded := s.delegationCache
  match queryServersWithFallback env frame.currentServers name rtype s with
  | (none, s) =>
      if frame.usingCached then (.next .fromRoot, purgeDelegationFor env name rtype s)
      else (.done (.error .allNameserversFailed), s)
  | (some response, s) =>
      match judgeResponse env.platform name rtype frame response with
      | .done result => (.done result, s)
      | .redirect key target hop =>
          let (result, s) := takeRedirect recurse name rtype key target hop s
          (.done result, s)
      | .referral zone nsNames => takeReferral env recurse frame recorded response zone nsNames s

/-- The loop over the turns that are left. -/
def turns (env : REnv) (recurse : Resolve) (name : Name) (rtype : RecordType) :
    Nat → Frame → RState → Except RecursorError Message × RState
  | 0, _, s => (.error .stepLimitExceeded, s)
  | left + 1, frame, s =>
      match turn env recurse name rtype frame s with
      | (.done result, s) => (result, s)
      | (.next frame, s) => turns env recurse name rtype left frame s

/-- `resolve_internal`, with the levels of nesting that are left. -/
def resolveInternal (env : REnv) : Nat → Resolve
  | 0, _, _, s => (.error .depthExceeded, s)
  | levels + 1, name, rtype, s =>
      let (frame, s) := startFrame env name rtype s
      turns env (resolveInternal env levels) name rtype maxSteps frame s

/-- `resolve`. -/
def resolve (env : REnv) (name : Name) (rtype : RecordType) (s : RState) :
    Except RecursorError Message × RState :=
  resolveInternal env (maxDepth + 1) name rtype { s with visited := [] }

end Recursor
end UnifiedDns
