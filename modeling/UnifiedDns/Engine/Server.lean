import UnifiedDns.Dnssec.Validator
import UnifiedDns.Engine.RateLimit
import UnifiedDns.Engine.Response

/-!
# The server around the cache

`process_dns_query`, the revalidation task it spawns, `preload_domains`, the saves of the cache and the
load at start-up, as steps of one machine.

A task that waits for the resolver is kept in `tasks` and finishes in a step of its own, so that any
other steps may come in between; a query reads the clock and the cache in one step.  What the resolver
and the validator return to a task is an argument of its last step.

* `ServerEnv` — the platform, the message codec, the validator's environment and the configuration.
* `ServerState` — the shared state.  `cacheReplies` is a ghost: the replies that were built from a cache
  entry; no modelled function reads it.
* `receive` — a request up to its reply or to the wait for the resolver.
* `finish` — the end of a waiting task.
* `step` — one event; `ServerRun` — the states events lead to.
-/

namespace UnifiedDns
namespace Engine

open Dnssec (DnssecStatus)

/-- The outside of the server; `W` stands for the octets of a message. -/
structure ServerEnv (W : Type) where
  platform : Platform
  /-- `Message::to_bytes`. -/
  encode : Message → Option W
  /-- `Message::read`. -/
  decode : W → Option Message
  /-- The number of octets. -/
  size : W → Nat
  validator : Dnssec.Env
  /-- `max_stale_secs()`. -/
  maxStale : Nat
  dnssecEnforce : Bool

/-- Decoding inverts encoding. -/
def ServerEnv.Lossless {W : Type} (env : ServerEnv W) : Prop :=
  ∀ msg wire, env.encode msg = some wire → env.decode wire = some msg

/-- A decoded request and where it came from. -/
structure ClientRequest where
  message : Message
  protocol : Protocol
  clientIp : IpAddr

/-- A request with what the rate limiter says of it. -/
structure Request extends ClientRequest where
  /-- The verdict of `check_query`. -/
  action : RrlAction

/-- A wire that could not be encoded is the empty buffer. -/
inductive ProcessOutcome (W : Type)
  | success (wire : W)
  | servFail (wire : Option W)
  | truncated (wire : Option W)
  | dropped
  | malformed

/-- A task that waits for the resolver. -/
inductive Task
  /-- A request that missed the cache, with the clock reading it made. -/
  | foreground (req : Request) (query : Query) (now : Nat)
  /-- A revalidation, with the request's question. -/
  | revalidation (query : Query)
  /-- One question of `preload_domains`. -/
  | prewarm (query : Query)

/-- The question a task asks. -/
def Task.query : Task → Query
  | .foreground _ query _ => query
  | .revalidation query => query
  | .prewarm query => query

/-- A reply built from a cache entry (a ghost). -/
structure CacheReply (W : Type) where
  time : Nat
  entry : CacheEntry W
  query : Query
  response : Message

structure ServerState (W : Type) where
  now : Nat
  cache : TextMap (CacheEntry W)
  inFlight : TextMap Unit
  tasks : List Task
  /-- The cache file. -/
  disk : TextMap (CacheEntry W)
  /-- The clock reading and the collected entries of a save under way. -/
  saving : Option (Nat × TextMap (CacheEntry W))
  cacheReplies : List (CacheReply W)

/-- The first start, without a cache file. -/
def ServerState.init (W : Type) : ServerState W where
  now := 0
  cache := TextMap.empty
  inFlight := TextMap.empty
  tasks := []
  disk := TextMap.empty
  saving := none
  cacheReplies := []

variable {W : Type}

/-- The question the resolver asks for a query: it asks for class `IN` only. -/
def resolvedQuery (query : Query) : Query := { query with queryClass := .IN }

/-- The cache key of a question. -/
def queryKey (env : ServerEnv W) (query : Query) : Text :=
  cacheKey env.platform query.name query.queryType

/-- `cache.insert` of a message that has just been resolved, when it can be encoded. -/
def insertResolved (env : ServerEnv W) (query : Query) (msg : Message) (status : DnssecStatus)
    (now : Nat) (s : ServerState W) : ServerState W :=
  match env.encode msg with
  | none => s
  | some wire =>
      let entry : CacheEntry W :=
        ⟨wire, calculateCacheTtl msg status now, now, now, status, resolvedQuery query⟩
      { s with cache := s.cache.insert (queryKey env query) entry }

/-! ### A request -/

/-- The reply from an entry that has not expired; nothing when its octets do not decode or the response
cannot be encoded. -/
def serveEntry (env : ServerEnv W) (req : Request) (query : Query) (entry : CacheEntry W)
    (s : ServerState W) : Option (ProcessOutcome W × ServerState W) :=
  match env.decode entry.rawWire with
  | none => none
  | some cachedMsg =>
      let (maxPayload, dnssecOk) := clientEdns req.message
      let response := constructClientResponse cachedMsg query.queryType entry.dnssecStatus
        (entry.freshnessAt s.now env.maxStale) entry.cachedAt req.message maxPayload dnssecOk s.now
      match env.encode response with
      | none => none
      | some wire =>
          if shouldChallengeLargeResponse req.protocol req.clientIp (env.size wire) maxPayload then
            some (.truncated (env.encode (truncatedResponse req.message.id query)), s)
          else
            some (.success wire,
              { s with cacheReplies := ⟨s.now, entry, query, response⟩ :: s.cacheReplies })

/-- The request waits for the resolver. -/
def missCache (req : Request) (query : Query) (s : ServerState W) : ServerState W :=
  { s with tasks := s.tasks ++ [.foreground req query s.now] }

/-- A stale entry is revalidated in the background, unless that is already under way. -/
def spawnRevalidation (env : ServerEnv W) (query : Query) (s : ServerState W) : ServerState W :=
  match s.inFlight (queryKey env query) with
  | some () => s
  | none =>
      { s with
        inFlight := s.inFlight.insert (queryKey env query) ()
        tasks := s.tasks ++ [.revalidation query] }

/-- The cache hit path of `process_dns_query`. -/
def lookupCache (env : ServerEnv W) (req : Request) (query : Query) (s : ServerState W) :
    Option (ProcessOutcome W) × ServerState W :=
  match s.cache (queryKey env query) with
  | none => (none, missCache req query s)
  | some entry =>
      let freshness := entry.freshnessAt s.now env.maxStale
      if freshness = .expired then (none, missCache req query s)
      else
        let s := if freshness = .stale then spawnRevalidation env query s else s
        match serveEntry env req query entry s with
        | some (outcome, s) => (some outcome, s)
        | none => (none, missCache req query s)

/-- `process_dns_query` on a decoded request, up to its outcome or to the wait for the resolver. -/
def receive (env : ServerEnv W) (req : Request) (s : ServerState W) :
    Option (ProcessOutcome W) × ServerState W :=
  match req.message.queries with
  | [query] =>
      match req.action with
      | .truncate =>
          (some (.truncated (env.encode (truncatedResponse req.message.id query))), s)
      | .drop => (some .dropped, s)
      | .allow => lookupCache env req query s
  | _ => (some .malformed, s)

/-! ### The end of a task -/

/-- The cache miss path of `process_dns_query` after the resolver has returned. -/
def finishForeground (env : ServerEnv W) (req : Request) (query : Query) (now : Nat)
    (result : Option (Message × DnssecStatus)) (s : ServerState W) :
    ProcessOutcome W × ServerState W :=
  let servFail := env.encode (servfailResponse req.message.id query)
  match result with
  | none => (.servFail servFail, s)
  | some (msg, status) =>
      if status = .bogus ∧ env.dnssecEnforce = true ∧ req.message.checkingDisabled = false then
        (.servFail servFail, s)
      else
        let resp := canonicalResponse msg status
        let s :=
          if isCacheable resp && isCacheableDnssec status then
            insertResolved env query resp status now s
          else s
        let (maxPayload, dnssecOk) := clientEdns req.message
        let response := constructClientResponse resp query.queryType status .fresh now req.message
          maxPayload dnssecOk now
        match env.encode response with
        | none => (.servFail servFail, s)
        | some wire =>
            if shouldChallengeLargeResponse req.protocol req.clientIp (env.size wire) maxPayload then
              (.truncated (env.encode (truncatedResponse req.message.id query)), s)
            else (.success wire, s)

/-- `existing.last_revalidated_at = now_secs()`. -/
def touchEntry (env : ServerEnv W) (query : Query) (s : ServerState W) : ServerState W :=
  match s.cache (queryKey env query) with
  | none => s
  | some entry =>
      let touched := { entry with lastRevalidatedAt := s.now }
      { s with cache := s.cache.insert (queryKey env query) touched }

/-- What the revalidation task does with its result. -/
def applyRevalidation (env : ServerEnv W) (query : Query)
    (result : Option (Message × DnssecStatus)) (s : ServerState W) : ServerState W :=
  match result with
  | none => s
  | some (msg, status) =>
      if status = .bogus then s
      else if isCacheable msg && isCacheableDnssec status then
        insertResolved env query (canonicalResponse msg status) status s.now s
      else touchEntry env query s

/-- The body of the revalidation task after the resolver has returned; it always releases the key. -/
def finishRevalidation (env : ServerEnv W) (query : Query)
    (result : Option (Message × DnssecStatus)) (s : ServerState W) : ServerState W :=
  let s := applyRevalidation env query result s
  { s with inFlight := s.inFlight.remove (queryKey env query) }

/-- One question of `preload_domains` after the resolver has returned. -/
def finishPrewarm (env : ServerEnv W) (query : Query) (result : Option (Message × DnssecStatus))
    (s : ServerState W) : ServerState W :=
  match result with
  | none => s
  | some (msg, status) =>
      if !isCacheable msg then s
      else if status = .bogus ∨ status = .insecureUnknown then s
      else insertResolved env query (prewarmResponse msg status) status s.now s

/-- A task ends with what the resolver and the validator returned. -/
def finish (env : ServerEnv W) (task : Task) (result : Option (Message × DnssecStatus))
    (s : ServerState W) : Option (ProcessOutcome W) × ServerState W :=
  match task with
  | .foreground req query now =>
      let (outcome, s) := finishForeground env req query now result s
      (some outcome, s)
  | .revalidation query => (none, finishRevalidation env query result s)
  | .prewarm query => (none, finishPrewarm env query result s)

/-! ### Saving and loading -/

/-- The entries that have not expired. -/
def unexpired (env : ServerEnv W) (now : Nat) (entries : TextMap (CacheEntry W)) :
    TextMap (CacheEntry W) := fun key =>
  match entries key with
  | none => none
  | some entry => if entry.freshnessAt now env.maxStale ≠ .expired then some entry else none

/-- `save_cache_to_disk_sync` comes to one entry of the cache. -/
def saveItem (env : ServerEnv W) (key : Text) (s : ServerState W) : ServerState W :=
  match s.saving with
  | none => s
  | some (now, collected) =>
      match unexpired env now s.cache key with
      | none => s
      | some entry => { s with saving := some (now, collected.insert key entry) }

/-- How a save leaves the file: as it was, replaced, or cut short. -/
inductive SaveOutcome
  | kept
  | swapped
  | truncated

/-- The collected entries are written, and the file is swapped in unless something is seen to fail. A file
that was cut short does not parse, so it holds no entry. -/
def saveEnd (outcome : SaveOutcome) (s : ServerState W) : ServerState W :=
  match s.saving with
  | none => s
  | some (_, collected) =>
      let disk :=
        match outcome with
        | .kept => s.disk
        | .swapped => collected
        | .truncated => TextMap.empty
      { s with disk := disk, saving := none }

/-- The server stops and starts again: `load_cache_from_disk` into an empty cache. -/
def restart (env : ServerEnv W) (s : ServerState W) : ServerState W :=
  { s with
    cache := unexpired env s.now s.disk
    inFlight := TextMap.empty
    tasks := []
    saving := none }

/-! ### Runs -/

inductive Event
  /-- Time passes. -/
  | wait (seconds : Nat)
  | receive (req : Request)
  /-- The waiting task with this number ends. -/
  | finish (index : Nat) (result : Option (Message × DnssecStatus))
  /-- `preload_domains` comes to a question. -/
  | prewarm (name : Name) (rtype : RecordType)
  | saveStart
  | saveItem (key : Text)
  | saveEnd (outcome : SaveOutcome)
  | restart

/-- One event. -/
def step (env : ServerEnv W) (event : Event) (s : ServerState W) : ServerState W :=
  match event with
  | .wait seconds => { s with now := s.now + seconds }
  | .receive req => (receive env req s).2
  | .finish index result =>
      match s.tasks[index]? with
      | none => s
      | some task => (finish env task result { s with tasks := s.tasks.eraseIdx index }).2
  | .prewarm name rtype =>
      let query : Query := ⟨name, rtype, .IN⟩
      if (s.cache (queryKey env query)).isSome then s
      else { s with tasks := s.tasks ++ [.prewarm query] }
  | .saveStart => { s with saving := some (s.now, TextMap.empty) }
  | .saveItem key => saveItem env key s
  | .saveEnd outcome => saveEnd outcome s
  | .restart => restart env s

/-- `validate_message` judged the message so, in some state of the validator. -/
def Judged (env : ServerEnv W) (query : Query) (msg : Message) (status : DnssecStatus) : Prop :=
  ∃ v, (Dnssec.validateMessage env.validator msg query.name query.queryType v).1 = status

/-- A task ends with a status the validator gave the message for the question of the task; pre-warming
asks for addresses only. -/
def Possible (env : ServerEnv W) (s : ServerState W) : Event → Prop
  | .finish index (some (msg, status)) =>
      ∀ task, s.tasks[index]? = some task → Judged env task.query msg status
  | .prewarm _ rtype => rtype = .A ∨ rtype = .AAAA
  | _ => True

/-- The states a run of the server reaches. -/
inductive ServerRun (env : ServerEnv W) : ServerState W → Prop
  | init : ServerRun env (.init W)
  | step (event : Event) {s : ServerState W} (h : ServerRun env s)
      (hpossible : Possible env s event) : ServerRun env (step env event s)

end Engine
end UnifiedDns
