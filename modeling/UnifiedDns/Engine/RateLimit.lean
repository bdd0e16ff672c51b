import UnifiedDns.Platform

/-!
# The rate limiter

`ratelimit.rs`: a token bucket for each client network, and for UDP a count of the queries of a network
for one name and type in one second.

* `Bucket.refill`, `Bucket.take` — the token bucket of a network.
* `DomainRateBucket.count` — the packed count of a second.
* `checkQuery` — the verdict on a query, with the changed tables.
* `shouldChallengeLargeResponse`, `cleanup` — the size check and the periodic pruning.

Token counts are integers and times are natural numbers of milliseconds or seconds.
-/

namespace UnifiedDns
namespace Engine

/-- The transports, as `process_dns_query` is told them. -/
inductive Protocol
  | udp
  | tcp
  | dot
  | doh
deriving DecidableEq, Repr

inductive RrlAction
  | allow
  | truncate
  | drop
deriving DecidableEq, Repr

structure Bucket where
  tokens : Int
  lastRefillMillis : Nat
  lastSeenMillis : Nat
deriving DecidableEq, Repr

structure DomainRateBucket where
  /-- The second in the upper 32 bits, the number of queries in it in the lower 32 bits. -/
  state : Nat
  penalizedUntilSec : Nat
deriving DecidableEq, Repr

/-- The parameters of a rate limiter; `subnetText` prints an address. -/
structure LimiterConfig where
  platform : Platform
  subnetText : IpAddr → Text
  capacity : Int
  refillPerSec : Int

structure RateLimiter where
  subnetBuckets : IpAddr → Option Bucket
  /-- A table with one entry for a key. -/
  rrlBuckets : List (Text × DomainRateBucket)

/-- `RateLimiter::new`. -/
def RateLimiter.new : RateLimiter where
  subnetBuckets _ := none
  rrlBuckets := []

/-- `MAX_TRACKED_RRL_ENTRIES`. -/
def maxTrackedRrlEntries : Nat := 65536

/-- `IpAddr::is_loopback`. -/
def isLoopback : IpAddr → Bool
  | .v4 a => decide (a.o0 = 127)
  | .v6 a => decide (a = ⟨0, 0, 0, 0, 0, 0, 0, 1⟩)

/-- `to_subnet`: the /24 of an IPv4 address, the /64 of an IPv6 address. -/
def toSubnet : IpAddr → IpAddr
  | .v4 a => .v4 { a with o3 := 0 }
  | .v6 a => .v6 { a with s4 := 0, s5 := 0, s6 := 0, s7 := 0 }

/-- A new bucket is full. -/
def Bucket.full (config : LimiterConfig) (nowMillis : Nat) : Bucket :=
  ⟨config.capacity, nowMillis, nowMillis⟩

/-- The refill for the time since the last one that gave a token. -/
def Bucket.refill (config : LimiterConfig) (nowMillis : Nat) (bucket : Bucket) : Bucket :=
  let elapsedMillis := nowMillis - bucket.lastRefillMillis
  let newTokens := ((elapsedMillis : Int) * config.refillPerSec).tdiv 1000
  if 0 < elapsedMillis ∧ 0 < newTokens then
    { bucket with
      lastRefillMillis := nowMillis
      tokens := min (bucket.tokens + newTokens) config.capacity }
  else bucket

/-- A token is taken, if there is one. -/
def Bucket.take (bucket : Bucket) : Option Bucket :=
  if 0 < bucket.tokens then some { bucket with tokens := bucket.tokens - 1 } else none

/-- The token bucket on a query: whether it got a token, and what becomes of the bucket. -/
def Bucket.spend (config : LimiterConfig) (nowMillis : Nat) (bucket : Bucket) : Bool × Bucket :=
  let bucket := { bucket with lastSeenMillis := nowMillis }.refill config nowMillis
  match bucket.take with
  | some bucket => (true, bucket)
  | none => (false, bucket)

/-- A new entry: no query in the current second yet. -/
def DomainRateBucket.fresh (nowSec : Nat) : DomainRateBucket := ⟨nowSec * 2 ^ 32 % 2 ^ 64, 0⟩

/-- The `fetch_update` of the packed count: the number of the query in its second. -/
def DomainRateBucket.count (nowSec : Nat) (bucket : DomainRateBucket) : Nat × DomainRateBucket :=
  let currEpoch := bucket.state / 2 ^ 32
  let currCount := bucket.state % 2 ^ 32
  if currEpoch < nowSec then (1, { bucket with state := nowSec * 2 ^ 32 % 2 ^ 64 + 1 })
  else
    let newCount := min (currCount + 1) 4294967295
    (newCount, { bucket with state := currEpoch * 2 ^ 32 + newCount })

/-- The duplicate policy on one query for a tracked key. -/
def DomainRateBucket.judge (nowSec : Nat) (bucket : DomainRateBucket) :
    RrlAction × DomainRateBucket :=
  if nowSec < bucket.penalizedUntilSec then
    (.drop, { bucket with penalizedUntilSec := nowSec + 3 })
  else
    let (queryCount, bucket) := bucket.count nowSec
    if queryCount = 1 then (.allow, bucket)
    else if queryCount = 2 then (.truncate, bucket)
    else (.drop, { bucket with penalizedUntilSec := nowSec + 3 })

/-- The entry under `key`. -/
def findRrl (key : Text) (table : List (Text × DomainRateBucket)) : Option DomainRateBucket :=
  (table.find? fun entry => decide (entry.1 = key)).map Prod.snd

/-- Put an entry under `key`, in the place of the old one. -/
def storeRrl (key : Text) (bucket : DomainRateBucket) :
    List (Text × DomainRateBucket) → List (Text × DomainRateBucket)
  | [] => [(key, bucket)]
  | entry :: rest =>
      if entry.1 = key then (key, bucket) :: rest else entry :: storeRrl key bucket rest

/-- The key of the duplicate policy. -/
def rrlKey (config : LimiterConfig) (subnet : IpAddr) (qname : Name) (qtype : RecordType) : Text :=
  config.subnetText subnet ++ asciiText ":" ++ config.platform.nameKey qname ++ asciiText ":" ++
    config.platform.typeText qtype

/-- The duplicate policy for UDP; a full table lets new keys pass. -/
def checkDuplicate (nowSec : Nat) (key : Text) (limiter : RateLimiter) : RrlAction × RateLimiter :=
  match findRrl key limiter.rrlBuckets with
  | none =>
      if maxTrackedRrlEntries ≤ limiter.rrlBuckets.length then (.allow, limiter)
      else
        let (action, bucket) := (DomainRateBucket.fresh nowSec).judge nowSec
        (action, { limiter with rrlBuckets := storeRrl key bucket limiter.rrlBuckets })
  | some bucket =>
      let (action, bucket) := bucket.judge nowSec
      (action, { limiter with rrlBuckets := storeRrl key bucket limiter.rrlBuckets })

/-- `check_query`. -/
def checkQuery (config : LimiterConfig) (nowMillis : Nat) (protocol : Protocol) (clientIp : IpAddr)
    (qname : Name) (qtype : RecordType) (limiter : RateLimiter) : RrlAction × RateLimiter :=
  if isLoopback clientIp then (.allow, limiter)
  else if protocol = .udp ∧ qtype = .ANY then (.drop, limiter)
  else
    let subnet := toSubnet clientIp
    let (granted, bucket) :=
      ((limiter.subnetBuckets subnet).getD (.full config nowMillis)).spend config nowMillis
    let limiter := { limiter with
      subnetBuckets := fun ip => if ip = subnet then some bucket else limiter.subnetBuckets ip }
    if granted = false then (.drop, limiter)
    else if protocol ≠ .udp then (.allow, limiter)
    else checkDuplicate (nowMillis / 1000) (rrlKey config subnet qname qtype) limiter

/-- `should_challenge_large_response`. -/
def shouldChallengeLargeResponse (protocol : Protocol) (clientIp : IpAddr)
    (respBytes clientMaxPayload : Nat) : Bool :=
  if protocol ≠ .udp ∨ isLoopback clientIp = true then false
  else decide (clientMaxPayload < respBytes)

/-- `cleanup`: entries that were last seen before the cut-off are dropped. -/
def cleanup (nowMillis maxAgeMillis : Nat) (limiter : RateLimiter) : RateLimiter :=
  let cutoffMillis : Int := nowMillis - maxAgeMillis
  { subnetBuckets := fun ip =>
      match limiter.subnetBuckets ip with
      | none => none
      | some bucket => if cutoffMillis ≤ bucket.lastSeenMillis then some bucket else none
    rrlBuckets := limiter.rrlBuckets.filter fun entry =>
      decide (cutoffMillis.tdiv 1000 ≤ (entry.2.state / 2 ^ 32 : Nat)) }

end Engine
end UnifiedDns
