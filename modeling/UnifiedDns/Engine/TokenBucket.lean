import UnifiedDns.Engine.RateLimit
import UnifiedDns.Lib.TokenMeter

/-!
# The token bucket over whole runs

A run of the limiter as the bucket of one network sees it, against a meter that does not round.

* `LimiterEvent`, `limiterStep`, `limiterRun` — queries and cleanup passes.
* `Visit`, `visitBucket` — what an event does to one bucket; `limiterRun_bucket` ties the two.
* `acquired` — the times at which a network got a token.
* `BucketBelow` — the bucket holds no more than the meter that paid for the same queries.
* `token_bucket_bound` — the token count and the number of tokens in a window are bounded.
-/

namespace UnifiedDns
namespace Engine

inductive LimiterEvent
  | query (nowMillis : Nat) (protocol : Protocol) (clientIp : IpAddr) (qname : Name)
      (qtype : RecordType)
  | cleanup (nowMillis maxAgeMillis : Nat)

/-- The clock reading of an event. -/
def LimiterEvent.time : LimiterEvent → Nat
  | .query nowMillis _ _ _ _ => nowMillis
  | .cleanup nowMillis _ => nowMillis

def limiterStep (config : LimiterConfig) (limiter : RateLimiter) : LimiterEvent → RateLimiter
  | .query nowMillis protocol clientIp qname qtype =>
      (checkQuery config nowMillis protocol clientIp qname qtype limiter).2
  | .cleanup nowMillis maxAgeMillis => cleanup nowMillis maxAgeMillis limiter

/-- The limiter after a list of events. -/
def limiterRun (config : LimiterConfig) (events : List LimiterEvent) (limiter : RateLimiter) :
    RateLimiter :=
  events.foldl (limiterStep config) limiter

/-- A query that comes to the bucket of the network `net`. -/
def comesTo (net : IpAddr) (protocol : Protocol) (clientIp : IpAddr) (qtype : RecordType) : Bool :=
  !isLoopback clientIp && !(decide (protocol = .udp) && decide (qtype = .ANY)) &&
    decide (toSubnet clientIp = net)

/-- The bucket a query comes to: the stored one or a new one. -/
def bucketAt (config : LimiterConfig) (nowMillis : Nat) (bucket : Option Bucket) : Bucket :=
  bucket.getD (.full config nowMillis)

/-- The query gets a token of the network. -/
def acquires (config : LimiterConfig) (net : IpAddr) (limiter : RateLimiter) : LimiterEvent → Bool
  | .query nowMillis protocol clientIp _ qtype =>
      comesTo net protocol clientIp qtype &&
        ((bucketAt config nowMillis (limiter.subnetBuckets net)).spend config nowMillis).1
  | .cleanup _ _ => false

/-- The times at which queries of the network got a token. -/
def acquired (config : LimiterConfig) (net : IpAddr) : RateLimiter → List LimiterEvent → List Nat
  | _, [] => []
  | limiter, event :: rest =>
      (if acquires config net limiter event then [event.time] else []) ++
        acquired config net (limiterStep config limiter event) rest

/-! ### One bucket -/

/-- What an event is to one bucket. -/
inductive Visit
  | spend (nowMillis : Nat)
  | prune (nowMillis maxAgeMillis : Nat)

def Visit.time : Visit → Nat
  | .spend nowMillis => nowMillis
  | .prune nowMillis _ => nowMillis

/-- The visit an event pays to the bucket of a network, if any. -/
def LimiterEvent.visit (net : IpAddr) : LimiterEvent → Option Visit
  | .query nowMillis protocol clientIp _ qtype =>
      if comesTo net protocol clientIp qtype then some (.spend nowMillis) else none
  | .cleanup nowMillis maxAgeMillis => some (.prune nowMillis maxAgeMillis)

def visitBucket (config : LimiterConfig) (bucket : Option Bucket) : Visit → Option Bucket
  | .spend nowMillis => some ((bucketAt config nowMillis bucket).spend config nowMillis).2
  | .prune nowMillis maxAgeMillis =>
      bucket.filter fun b => decide ((nowMillis : Int) - maxAgeMillis ≤ b.lastSeenMillis)

/-- The times at which the visits got a token. -/
def granted (config : LimiterConfig) : Option Bucket → List Visit → List Nat
  | _, [] => []
  | bucket, .spend nowMillis :: rest =>
      (if ((bucketAt config nowMillis bucket).spend config nowMillis).1 then [nowMillis] else []) ++
        granted config (visitBucket config bucket (.spend nowMillis)) rest
  | bucket, .prune nowMillis maxAgeMillis :: rest =>
      granted config (visitBucket config bucket (.prune nowMillis maxAgeMillis)) rest

/-- The visits of a run to the bucket of a network. -/
def visits (net : IpAddr) (events : List LimiterEvent) : List Visit :=
  events.filterMap (LimiterEvent.visit net)

theorem checkDuplicate_subnetBuckets (nowSec : Nat) (key : Text) (limiter : RateLimiter) :
    (checkDuplicate nowSec key limiter).2.subnetBuckets = limiter.subnetBuckets := by
  unfold checkDuplicate
  -- The counts and the size of the table stay closed here: reducing them on open terms does not end.
  generalize DomainRateBucket.judge nowSec = judge
  generalize maxTrackedRrlEntries = limit
  generalize DomainRateBucket.fresh nowSec = fresh
  cases findRrl key limiter.rrlBuckets with
  | none =>
      cases judge fresh
      by_cases hfull : limit ≤ limiter.rrlBuckets.length
      · exact congrArg (fun r : RrlAction × RateLimiter => r.2.subnetBuckets) (if_pos hfull)
      · exact congrArg (fun r : RrlAction × RateLimiter => r.2.subnetBuckets) (if_neg hfull)
  | some bucket =>
      cases judge bucket
      rfl

/-- The limiter after a query has come to the bucket of its network. -/
def spentLimiter (config : LimiterConfig) (nowMillis : Nat) (clientIp : IpAddr) (limiter : RateLimiter) :
    RateLimiter :=
  { limiter with
    subnetBuckets := fun ip =>
      if ip = toSubnet clientIp then
        some ((bucketAt config nowMillis (limiter.subnetBuckets (toSubnet clientIp))).spend config
          nowMillis).2
      else limiter.subnetBuckets ip }

/-- The verdict on a query that has to pay a token. -/
theorem checkQuery_counted (config : LimiterConfig) (nowMillis : Nat) (protocol : Protocol)
    (clientIp : IpAddr) (qname : Name) (qtype : RecordType) (limiter : RateLimiter)
    (hloopback : ¬ isLoopback clientIp = true) (hany : ¬ (protocol = .udp ∧ qtype = .ANY)) :
    checkQuery config nowMillis protocol clientIp qname qtype limiter =
      if ((bucketAt config nowMillis (limiter.subnetBuckets (toSubnet clientIp))).spend config
          nowMillis).1 = false then
        (.drop, spentLimiter config nowMillis clientIp limiter)
      else if protocol ≠ .udp then (.allow, spentLimiter config nowMillis clientIp limiter)
      else checkDuplicate (nowMillis / 1000) (rrlKey config (toSubnet clientIp) qname qtype)
        (spentLimiter config nowMillis clientIp limiter) := by
  unfold checkQuery
  rw [if_neg hloopback, if_neg hany]
  generalize checkDuplicate (nowMillis / 1000) = duplicate
  rfl

theorem comesTo_of_counted (net : IpAddr) {protocol : Protocol} {clientIp : IpAddr} {qtype : RecordType}
    (hloopback : ¬ isLoopback clientIp = true) (hany : ¬ (protocol = .udp ∧ qtype = .ANY)) :
    comesTo net protocol clientIp qtype = decide (toSubnet clientIp = net) := by
  have hnotAny : (decide (protocol = .udp) && decide (qtype = .ANY)) = false := by
    simpa using hany
  simp [comesTo, hloopback, hnotAny]

/-- A query that comes to the bucket changes it, and the others leave it alone. -/
theorem checkQuery_bucket (config : LimiterConfig) (net : IpAddr) (nowMillis : Nat)
    (protocol : Protocol) (clientIp : IpAddr) (qname : Name) (qtype : RecordType)
    (limiter : RateLimiter) :
    (checkQuery config nowMillis protocol clientIp qname qtype limiter).2.subnetBuckets net =
      if comesTo net protocol clientIp qtype then
        visitBucket config (limiter.subnetBuckets net) (.spend nowMillis)
      else limiter.subnetBuckets net := by
  by_cases hloopback : isLoopback clientIp = true
  · rw [checkQuery, if_pos hloopback, if_neg (by simp [comesTo, hloopback])]
  · by_cases hany : protocol = .udp ∧ qtype = .ANY
    · rw [checkQuery, if_neg hloopback, if_pos hany, if_neg (by simp [comesTo, hany])]
    · have hspent : (checkQuery config nowMillis protocol clientIp qname qtype limiter).2.subnetBuckets =
          (spentLimiter config nowMillis clientIp limiter).subnetBuckets := by
        rw [checkQuery_counted config nowMillis protocol clientIp qname qtype limiter hloopback hany]
        split
        · rfl
        · split
          · rfl
          · exact checkDuplicate_subnetBuckets _ _ _
      rw [hspent, comesTo_of_counted net hloopback hany]
      by_cases hnet : toSubnet clientIp = net
      · subst hnet
        rw [if_pos (decide_eq_true rfl)]
        exact if_pos rfl
      · rw [if_neg (by simpa using hnet)]
        exact if_neg (Ne.symm hnet)

theorem cleanup_bucket (config : LimiterConfig) (net : IpAddr) (nowMillis maxAgeMillis : Nat)
    (limiter : RateLimiter) :
    (cleanup nowMillis maxAgeMillis limiter).subnetBuckets net =
      visitBucket config (limiter.subnetBuckets net) (.prune nowMillis maxAgeMillis) := by
  cases hbucket : limiter.subnetBuckets net with
  | none => simp only [cleanup, visitBucket, hbucket, Option.filter_none]
  | some bucket => simp only [cleanup, visitBucket, hbucket, Option.filter, decide_eq_true_eq]

/-- The bucket at `key` after an event. -/
theorem limiterStep_bucket (config : LimiterConfig) (limiter : RateLimiter) (event : LimiterEvent)
    (key : IpAddr) :
    (limiterStep config limiter event).subnetBuckets key =
      match event.visit key with
      | none => limiter.subnetBuckets key
      | some visit => visitBucket config (limiter.subnetBuckets key) visit := by
  cases event with
  | query nowMillis protocol clientIp qname qtype =>
      rw [limiterStep, checkQuery_bucket]
      by_cases hcomes : comesTo key protocol clientIp qtype = true
      · rw [if_pos hcomes, LimiterEvent.visit, if_pos hcomes]
      · rw [if_neg hcomes, LimiterEvent.visit, if_neg hcomes]
  | cleanup nowMillis maxAgeMillis => exact cleanup_bucket config key nowMillis maxAgeMillis limiter

/-- The bucket of a network after a run is the bucket after the visits of the run. -/
theorem limiterRun_bucket (config : LimiterConfig) (net : IpAddr) (events : List LimiterEvent)
    (limiter : RateLimiter) :
    (limiterRun config events limiter).subnetBuckets net =
      (visits net events).foldl (visitBucket config) (limiter.subnetBuckets net) := by
  induction events generalizing limiter with
  | nil => rfl
  | cons event rest ih =>
      show (limiterRun config rest (limiterStep config limiter event)).subnetBuckets net = _
      rw [ih, limiterStep_bucket]
      cases hvisit : event.visit net with
      | none => simp only [visits, List.filterMap_cons, hvisit]
      | some visit => simp only [visits, List.filterMap_cons, hvisit, List.foldl_cons]

/-- The tokens of a run are the tokens its visits get. -/
theorem acquired_eq_granted (config : LimiterConfig) (net : IpAddr) (events : List LimiterEvent)
    (limiter : RateLimiter) :
    acquired config net limiter events =
      granted config (limiter.subnetBuckets net) (visits net events) := by
  induction events generalizing limiter with
  | nil => rfl
  | cons event rest ih =>
      show (if acquires config net limiter event then [event.time] else []) ++
        acquired config net (limiterStep config limiter event) rest = _
      rw [ih]
      cases event with
      | query nowMillis protocol clientIp qname qtype =>
          have hbucket := checkQuery_bucket config net nowMillis protocol clientIp qname qtype limiter
          by_cases hcomes : comesTo net protocol clientIp qtype = true
          · simp only [hcomes, if_true] at hbucket
            simp only [visits, List.filterMap_cons, LimiterEvent.visit, hcomes, if_true, granted,
              acquires, Bool.true_and, LimiterEvent.time, limiterStep, hbucket]
          · simp only [hcomes, Bool.false_eq_true, if_false] at hbucket
            simp only [visits, List.filterMap_cons, LimiterEvent.visit, hcomes, Bool.false_eq_true,
              if_false, acquires, Bool.false_and, List.nil_append, limiterStep, hbucket]
      | cleanup nowMillis maxAgeMillis =>
          simp only [visits, List.filterMap_cons, LimiterEvent.visit, granted, acquires,
            Bool.false_eq_true, if_false, List.nil_append, limiterStep, cleanup_bucket config]

/-! ### The bucket and the meter -/

/-- The rate of the configuration as a meter: a token is 1000 thousandths. -/
def meter (config : LimiterConfig) : Meter Int :=
  ⟨1000 * config.capacity, config.refillPerSec, 1000⟩

/-- A stored bucket between two visits: the count is within its bounds, and a bucket that was just used
is not full. -/
structure Bucket.WellFormed (config : LimiterConfig) (nowMillis : Nat) (bucket : Bucket) : Prop where
  nonneg : 0 ≤ bucket.tokens
  le_capacity : bucket.tokens ≤ config.capacity
  notFull : bucket.tokens < config.capacity ∨ bucket.tokens = 0
  refilled : bucket.lastRefillMillis ≤ bucket.lastSeenMillis
  seen : bucket.lastSeenMillis ≤ nowMillis

/-- The thousandths of a token that the bucket stands for: its tokens and the time not refilled yet. -/
def Bucket.credit (config : LimiterConfig) (nowMillis : Nat) (bucket : Bucket) : Int :=
  1000 * bucket.tokens + config.refillPerSec * ((nowMillis : Int) - bucket.lastRefillMillis)

/-- What `refill` does: nothing while less than a token has come together, else it credits the whole
tokens and starts again. -/
theorem Bucket.refill_cases {config : LimiterConfig} {nowMillis : Nat} (bucket : Bucket)
    (hrate : 0 ≤ config.refillPerSec) (hrefilled : bucket.lastRefillMillis ≤ nowMillis) :
    (config.refillPerSec * ((nowMillis : Int) - bucket.lastRefillMillis) < 1000 ∧
      bucket.refill config nowMillis = bucket) ∨
    ∃ newTokens : Int, 0 < newTokens ∧
      1000 * newTokens ≤ config.refillPerSec * ((nowMillis : Int) - bucket.lastRefillMillis) ∧
      config.refillPerSec * ((nowMillis : Int) - bucket.lastRefillMillis) < 1000 * newTokens + 1000 ∧
      bucket.refill config nowMillis = { bucket with
        lastRefillMillis := nowMillis
        tokens := min (bucket.tokens + newTokens) config.capacity } := by
  have hcast : ((nowMillis - bucket.lastRefillMillis : Nat) : Int) =
      (nowMillis : Int) - bucket.lastRefillMillis := by omega
  have hgain : 0 ≤ config.refillPerSec * ((nowMillis : Int) - bucket.lastRefillMillis) :=
    mul_nonneg hrate (by omega)
  have hdiv : ((nowMillis - bucket.lastRefillMillis : Nat) * config.refillPerSec : Int).tdiv 1000 =
      config.refillPerSec * ((nowMillis : Int) - bucket.lastRefillMillis) / 1000 := by
    rw [hcast, mul_comm, Int.tdiv_eq_ediv_of_nonneg hgain]
  simp only [Bucket.refill, hdiv]
  generalize hproduct : config.refillPerSec * ((nowMillis : Int) - bucket.lastRefillMillis) = gain
    at hgain ⊢
  by_cases hnew : 0 < nowMillis - bucket.lastRefillMillis ∧ 0 < gain / 1000
  · right
    rw [if_pos hnew]
    exact ⟨gain / 1000, hnew.2, by omega, by omega, rfl⟩
  · left
    rw [if_neg hnew]
    refine ⟨?_, rfl⟩
    by_cases helapsed : 0 < nowMillis - bucket.lastRefillMillis
    · have hnone : ¬ 0 < gain / 1000 := fun hpos => hnew ⟨helapsed, hpos⟩
      omega
    · have hzero : (nowMillis : Int) - bucket.lastRefillMillis = 0 := by omega
      rw [← hproduct, hzero, mul_zero]
      omega

theorem Bucket.credit_add (config : LimiterConfig) (nowMillis later : Nat) (bucket : Bucket) :
    bucket.credit config later =
      bucket.credit config nowMillis + config.refillPerSec * ((later : Int) - nowMillis) := by
  unfold Bucket.credit
  ring

/-- From `nowMillis` on, the bucket stands for no more than the meter holds. A missing bucket stands for
a full one. -/
def BucketBelow (config : LimiterConfig) (level last : Int) (nowMillis : Nat) : Option Bucket → Prop
  | none => ∀ later : Nat, nowMillis ≤ later →
      (meter config).depth ≤ (meter config).fill level last later
  | some bucket => bucket.WellFormed config nowMillis ∧ ∀ later : Nat, nowMillis ≤ later →
      min (meter config).depth (bucket.credit config later) ≤ (meter config).fill level last later

section Simulation

variable {config : LimiterConfig} {level last : Int} {nowMillis : Nat} {bucket : Option Bucket}

/-- The bucket of a query after its refill, before a token is taken. -/
def readyBucket (config : LimiterConfig) (time : Nat) (bucket : Option Bucket) : Bucket :=
  { bucketAt config time bucket with lastSeenMillis := time }.refill config time

theorem readyBucket_none (config : LimiterConfig) (time : Nat) :
    readyBucket config time none = .full config time := by
  simp [readyBucket, bucketAt, Bucket.full, Bucket.refill]

theorem readyBucket_some (hrate : 0 ≤ config.refillPerSec) {stored : Bucket} {time : Nat}
    (hbefore : stored.lastRefillMillis ≤ time) :
    (config.refillPerSec * ((time : Int) - stored.lastRefillMillis) < 1000 ∧
      readyBucket config time (some stored) = { stored with lastSeenMillis := time }) ∨
    ∃ newTokens : Int, 0 < newTokens ∧
      1000 * newTokens ≤ config.refillPerSec * ((time : Int) - stored.lastRefillMillis) ∧
      config.refillPerSec * ((time : Int) - stored.lastRefillMillis) < 1000 * newTokens + 1000 ∧
      readyBucket config time (some stored) =
        ⟨min (stored.tokens + newTokens) config.capacity, time, time⟩ :=
  Bucket.refill_cases { stored with lastSeenMillis := time } hrate hbefore

theorem Bucket.WellFormed.refilled_le {stored : Bucket} (hwell : stored.WellFormed config nowMillis)
    {time : Nat} (htime : nowMillis ≤ time) : stored.lastRefillMillis ≤ time :=
  hwell.refilled.trans (hwell.seen.trans htime)

theorem spend_eq (config : LimiterConfig) (time : Nat) (bucket : Option Bucket) :
    (bucketAt config time bucket).spend config time =
      if 0 < (readyBucket config time bucket).tokens then
        (true, { readyBucket config time bucket with
          tokens := (readyBucket config time bucket).tokens - 1 })
      else (false, readyBucket config time bucket) := by
  by_cases htoken : 0 < (readyBucket config time bucket).tokens
  · rw [if_pos htoken]
    unfold readyBucket at htoken
    simp only [Bucket.spend, Bucket.take, if_pos htoken, readyBucket]
  · rw [if_neg htoken]
    unfold readyBucket at htoken
    simp only [Bucket.spend, Bucket.take, if_neg htoken, readyBucket]

/-- A bucket that is ready to be spent from at `time`. -/
structure Bucket.Ready (config : LimiterConfig) (time : Nat) (bucket : Bucket) : Prop where
  nonneg : 0 ≤ bucket.tokens
  le_capacity : bucket.tokens ≤ config.capacity
  /-- Only a bucket that was just refilled is full. -/
  notFull : bucket.tokens < config.capacity ∨ bucket.tokens = 0 ∨ bucket.lastRefillMillis = time
  refilled : bucket.lastRefillMillis ≤ time
  seen : bucket.lastSeenMillis = time
  /-- Less than a token has come up since the last refill. -/
  fraction : config.refillPerSec * ((time : Int) - bucket.lastRefillMillis) < 1000

theorem readyBucket_ready (hcapacity : 0 ≤ config.capacity) (hrate : 0 ≤ config.refillPerSec)
    (hwell : ∀ stored ∈ bucket, stored.WellFormed config nowMillis) {time : Nat}
    (htime : nowMillis ≤ time) : (readyBucket config time bucket).Ready config time := by
  have hrestart : config.refillPerSec * ((time : Int) - time) < 1000 := by
    rw [sub_self, mul_zero]
    omega
  cases bucket with
  | none =>
      rw [readyBucket_none]
      exact ⟨hcapacity, le_rfl, Or.inr (Or.inr rfl), le_rfl, rfl, hrestart⟩
  | some stored =>
      have hbefore := (hwell stored rfl).refilled_le htime
      obtain ⟨hnonneg, hle, hnotFull, -, -⟩ := hwell stored rfl
      rcases readyBucket_some hrate hbefore with ⟨hless, heq⟩ | ⟨newTokens, hpos, -, -, heq⟩
      · rw [heq]
        exact ⟨hnonneg, hle, hnotFull.imp_right Or.inl, hbefore, rfl, hless⟩
      · rw [heq]
        refine ⟨le_min ?_ hcapacity, min_le_right _ _, Or.inr (Or.inr rfl), le_rfl, rfl, hrestart⟩
        show 0 ≤ stored.tokens + newTokens
        omega

/-- The stored bucket after a query, with or without its token. -/
theorem Bucket.Ready.spend {ready : Bucket} {time : Nat} (hready : ready.Ready config time) :
    (0 < ready.tokens → Bucket.WellFormed config time { ready with tokens := ready.tokens - 1 }) ∧
      (¬ 0 < ready.tokens → Bucket.WellFormed config time ready) := by
  obtain ⟨hnonneg, hle, -, hrefilled, hseen, -⟩ := hready
  constructor
  · intro htoken
    refine ⟨?_, ?_, Or.inl ?_, hrefilled.trans hseen.ge, hseen.le⟩
    · show 0 ≤ ready.tokens - 1
      omega
    · show ready.tokens - 1 ≤ config.capacity
      omega
    · show ready.tokens - 1 < config.capacity
      omega
  · intro hnone
    exact ⟨hnonneg, hle, Or.inr (le_antisymm (not_lt.mp hnone) hnonneg), hrefilled.trans hseen.ge,
      hseen.le⟩

/-- What a ready bucket has beyond its tokens does not take it over the depth. -/
theorem Bucket.Ready.credit_le {ready : Bucket} {time : Nat} (hready : ready.Ready config time)
    (htoken : 0 < ready.tokens) : ready.credit config time ≤ (meter config).depth := by
  have hfraction := hready.fraction
  have hle := hready.le_capacity
  show 1000 * ready.tokens + config.refillPerSec * ((time : Int) - ready.lastRefillMillis) ≤
    1000 * config.capacity
  rcases hready.notFull with hlt | hzero | hnow
  · omega
  · omega
  · rw [hnow, sub_self, mul_zero]
    omega

/-- The refill credits no more than the time that has passed. -/
theorem BucketBelow.ready (hrate : 0 ≤ config.refillPerSec)
    (hbelow : BucketBelow config level last nowMillis bucket) {time : Nat} (htime : nowMillis ≤ time)
    {later : Nat} (hlater : time ≤ later) :
    min (meter config).depth ((readyBucket config time bucket).credit config later) ≤
      (meter config).fill level last later := by
  cases bucket with
  | none => exact (min_le_left _ _).trans (hbelow later (htime.trans hlater))
  | some stored =>
      obtain ⟨hwell, hmeter⟩ := hbelow
      rcases readyBucket_some hrate (hwell.refilled_le htime) with
        ⟨-, heq⟩ | ⟨newTokens, -, hpaid, -, heq⟩
      · rw [heq]
        exact hmeter later (htime.trans hlater)
      · refine le_trans (min_le_min_left _ ?_) (hmeter later (htime.trans hlater))
        rw [heq, stored.credit_add config time]
        show 1000 * min (stored.tokens + newTokens) config.capacity +
          config.refillPerSec * ((later : Int) - time) ≤ 1000 * stored.tokens +
            config.refillPerSec * ((time : Int) - stored.lastRefillMillis) + _
        omega

theorem BucketBelow.wellFormed (hbelow : BucketBelow config level last nowMillis bucket) :
    ∀ stored ∈ bucket, stored.WellFormed config nowMillis := by
  rintro stored rfl
  exact hbelow.1

/-- A query that gets a token pays its cost out of the meter, and the others leave the meter alone. -/
theorem BucketBelow.spend (hcapacity : 0 ≤ config.capacity) (hrate : 0 ≤ config.refillPerSec)
    (hbelow : BucketBelow config level last nowMillis bucket) {time : Nat} (htime : nowMillis ≤ time) :
    (((bucketAt config time bucket).spend config time).1 = true ∧
      (meter config).cost ≤ (meter config).fill level last time ∧
      BucketBelow config ((meter config).fill level last time - (meter config).cost) time time
        (visitBucket config bucket (.spend time))) ∨
    (((bucketAt config time bucket).spend config time).1 = false ∧
      BucketBelow config level last time (visitBucket config bucket (.spend time))) := by
  have hready := readyBucket_ready hcapacity hrate hbelow.wellFormed htime
  have hmeter (later : Nat) (hlater : time ≤ later) := hbelow.ready hrate htime hlater
  rw [visitBucket, spend_eq]
  generalize readyBucket config time bucket = ready at *
  by_cases htoken : 0 < ready.tokens
  · left
    have hcredit : ready.credit config time ≤ (meter config).fill level last time := by
      have hnow := hmeter time le_rfl
      rwa [min_eq_right (hready.credit_le htoken)] at hnow
    rw [if_pos htoken]
    refine ⟨rfl, ?_, hready.spend.1 htoken, fun later hlater => ?_⟩
    · have hgain : 0 ≤ config.refillPerSec * ((time : Int) - ready.lastRefillMillis) :=
        mul_nonneg hrate (sub_nonneg.mpr (Int.ofNat_le.mpr hready.refilled))
      refine le_trans ?_ hcredit
      show (1000 : Int) ≤ 1000 * ready.tokens +
        config.refillPerSec * ((time : Int) - ready.lastRefillMillis)
      omega
    · refine min_le_min_left _ ?_
      have hspent : ({ ready with tokens := ready.tokens - 1 } : Bucket).credit config later =
          ready.credit config time - 1000 + config.refillPerSec * ((later : Int) - time) := by
        unfold Bucket.credit
        ring
      rw [hspent]
      show _ ≤ (meter config).fill level last time - 1000 + config.refillPerSec * ((later : Int) - time)
      linarith
  · right
    rw [if_neg htoken]
    exact ⟨rfl, hready.spend.2 htoken, hmeter⟩

/-- A pass that forgets a bucket forgets one that would be full again. -/
theorem BucketBelow.prune (hrate : 0 ≤ config.refillPerSec)
    (hbelow : BucketBelow config level last nowMillis bucket) (time : Nat) {maxAgeMillis : Nat}
    (hage : config.capacity * 1000 ≤ config.refillPerSec * maxAgeMillis) :
    BucketBelow config level last (max nowMillis time)
      (visitBucket config bucket (.prune time maxAgeMillis)) := by
  cases bucket with
  | none => exact fun later hlater => hbelow later (le_trans (le_max_left _ _) hlater)
  | some stored =>
      obtain ⟨hwell, hmeter⟩ := hbelow
      have hrefilled := hwell.refilled
      have hnonneg := hwell.nonneg
      by_cases hkept : (time : Int) - maxAgeMillis ≤ stored.lastSeenMillis
      · rw [visitBucket, Option.filter, if_pos (decide_eq_true hkept)]
        exact ⟨{ hwell with seen := hwell.seen.trans (le_max_left _ _) }, fun later hlater =>
          hmeter later (le_trans (le_max_left _ _) hlater)⟩
      · rw [visitBucket, Option.filter, if_neg (by simpa using hkept)]
        intro later hlater
        refine le_trans (le_of_eq (min_eq_left ?_).symm)
          (hmeter later (le_trans (le_max_left _ _) hlater))
        have hlong : (maxAgeMillis : Int) ≤ (later : Int) - stored.lastRefillMillis := by
          have htime : time ≤ later := le_trans (le_max_right _ _) hlater
          omega
        have hgain := mul_le_mul_of_nonneg_left hlong hrate
        show 1000 * config.capacity ≤ 1000 * stored.tokens +
          config.refillPerSec * ((later : Int) - stored.lastRefillMillis)
        linarith

end Simulation

/-! ### Runs -/

/-- Queries come in the order of their clock readings, and no earlier pass has read a later time. -/
def InClockOrder (visits : List Visit) : Prop :=
  visits.Pairwise fun earlier later => ∀ time, later = .spend time → earlier.time ≤ time

/-- Every pass spares a bucket for as long as it needs to fill up. -/
def SparesUnfilled (config : LimiterConfig) (visits : List Visit) : Prop :=
  ∀ time maxAgeMillis, Visit.prune time maxAgeMillis ∈ visits →
    config.capacity * 1000 ≤ config.refillPerSec * maxAgeMillis

/-- The meter covers the tokens of a run, and the bucket stays below it. -/
theorem visits_below {config : LimiterConfig} (hcapacity : 0 ≤ config.capacity)
    (hrate : 0 ≤ config.refillPerSec) {visits : List Visit} {level last : Int} {nowMillis : Nat}
    {bucket : Option Bucket} (hbelow : BucketBelow config level last nowMillis bucket)
    (hnow : ∀ time, Visit.spend time ∈ visits → nowMillis ≤ time) (horder : InClockOrder visits)
    (hspares : SparesUnfilled config visits) :
    (meter config).Covers level last ((granted config bucket visits).map Nat.cast) ∧
      ∃ level' last' nowMillis',
        BucketBelow config level' last' nowMillis' (visits.foldl (visitBucket config) bucket) := by
  induction visits generalizing level last nowMillis bucket with
  | nil => exact ⟨trivial, level, last, nowMillis, hbelow⟩
  | cons visit rest ih =>
      obtain ⟨hfirst, horderRest⟩ := List.pairwise_cons.mp horder
      have hlater (time : Nat) (hmem : Visit.spend time ∈ rest) : visit.time ≤ time :=
        hfirst _ hmem time rfl
      have hsparesRest : SparesUnfilled config rest := fun time maxAgeMillis hmem =>
        hspares time maxAgeMillis (List.mem_cons_of_mem _ hmem)
      cases visit with
      | spend time =>
          have htime : nowMillis ≤ time := hnow time List.mem_cons_self
          rcases hbelow.spend hcapacity hrate htime with ⟨htoken, hpaid, hnext⟩ | ⟨hnone, hnext⟩
          · obtain ⟨hcovers, hrun⟩ := ih hnext hlater horderRest hsparesRest
            refine ⟨?_, hrun⟩
            rw [granted, if_pos htoken]
            exact ⟨hpaid, hcovers⟩
          · obtain ⟨hcovers, hrun⟩ := ih hnext hlater horderRest hsparesRest
            refine ⟨?_, hrun⟩
            rw [granted, if_neg (by simp [hnone])]
            exact hcovers
      | prune time maxAgeMillis =>
          have hnext := hbelow.prune hrate time (hspares time maxAgeMillis List.mem_cons_self)
          exact ih hnext (fun later hmem => max_le (hnow later (List.mem_cons_of_mem _ hmem))
            (hlater later hmem)) horderRest hsparesRest

/-- A network without a bucket is below the full meter. -/
theorem bucketBelow_none {config : LimiterConfig} (hrate : 0 ≤ config.refillPerSec) :
    BucketBelow config (meter config).depth 0 0 none := by
  intro later _
  refine le_min le_rfl ?_
  have hgain : 0 ≤ config.refillPerSec * ((later : Int) - 0) := mul_nonneg hrate (by omega)
  show (meter config).depth ≤ (meter config).depth + config.refillPerSec * ((later : Int) - 0)
  omega

theorem granted_sorted {config : LimiterConfig} {visits : List Visit} (horder : InClockOrder visits)
    (bucket : Option Bucket) : (granted config bucket visits).Pairwise (· ≤ ·) := by
  have hmem : ∀ {visits : List Visit} {bucket : Option Bucket} {time : Nat},
      time ∈ granted config bucket visits → Visit.spend time ∈ visits := by
    intro visits
    induction visits with
    | nil => exact fun h => absurd h List.not_mem_nil
    | cons visit rest ih =>
        intro bucket time h
        cases visit with
        | prune => exact List.mem_cons_of_mem _ (ih h)
        | spend own =>
            rcases List.mem_append.mp h with hown | hrest
            · split at hown
              · rw [List.mem_singleton.mp hown]
                exact List.mem_cons_self
              · exact absurd hown List.not_mem_nil
            · exact List.mem_cons_of_mem _ (ih hrest)
  induction visits generalizing bucket with
  | nil => exact List.Pairwise.nil
  | cons visit rest ih =>
      obtain ⟨hfirst, horderRest⟩ := List.pairwise_cons.mp horder
      cases visit with
      | prune => exact ih horderRest _
      | spend time =>
          rw [granted]
          split
          · exact List.pairwise_cons.mpr
              ⟨fun later hlater => hfirst _ (hmem hlater) later rfl, ih horderRest _⟩
          · exact ih horderRest _

theorem inWindow_cast (start millis : Nat) (times : List Nat) :
    Meter.inWindow (start : Int) ((start : Int) + millis) (times.map Nat.cast) =
      times.countP fun time => decide (start ≤ time ∧ time ≤ start + millis) := by
  rw [Meter.inWindow, List.countP_map]
  congr 1
  funext time
  apply decide_eq_decide.mpr
  omega

/-- **The token bucket keeps its bounds.** For every network and every run of queries and cleanup passes
that spare a bucket until it could be full again: the stored tokens stay between 0 and the capacity, and
in a window of `millis` milliseconds no more queries get a token than the capacity and what the rate
gives in that time. -/
theorem token_bucket_bound (config : LimiterConfig) (hcapacity : 0 ≤ config.capacity)
    (hrate : 0 ≤ config.refillPerSec) (net : IpAddr) (events : List LimiterEvent)
    (horder : InClockOrder (visits net events))
    (hspares : ∀ nowMillis maxAgeMillis, LimiterEvent.cleanup nowMillis maxAgeMillis ∈ events →
      config.capacity * 1000 ≤ config.refillPerSec * maxAgeMillis) :
    (∀ bucket, (limiterRun config events .new).subnetBuckets net = some bucket →
      0 ≤ bucket.tokens ∧ bucket.tokens ≤ config.capacity) ∧
    ∀ start millis : Nat,
      1000 * (((acquired config net .new events).countP fun time =>
        decide (start ≤ time ∧ time ≤ start + millis) : Nat) : Int) ≤
          1000 * config.capacity + config.refillPerSec * millis := by
  have hspares' : SparesUnfilled config (visits net events) := by
    intro time maxAgeMillis hmem
    obtain ⟨event, hevent, hvisit⟩ := List.mem_filterMap.mp hmem
    cases event with
    | query nowMillis protocol clientIp qname qtype =>
        simp only [LimiterEvent.visit] at hvisit
        split at hvisit <;> simp at hvisit
    | cleanup nowMillis age =>
        obtain ⟨rfl, rfl⟩ : nowMillis = time ∧ age = maxAgeMillis := by
          simpa [LimiterEvent.visit] using hvisit
        exact hspares nowMillis age hevent
  obtain ⟨hcovers, level, last, now, hrun⟩ := visits_below hcapacity hrate
    (bucketBelow_none hrate) (fun time _ => Nat.zero_le time) horder hspares'
  constructor
  · intro bucket hbucket
    have hstored := limiterRun_bucket config net events .new
    rw [hbucket] at hstored
    have hwell : BucketBelow config level last now (some bucket) := by
      rw [hstored]
      exact hrun
    exact ⟨hwell.1.nonneg, hwell.1.le_capacity⟩
  · intro start millis
    rw [acquired_eq_granted]
    have hsorted : ((granted config none (visits net events)).map (Nat.cast : Nat → Int)).Pairwise
        (· ≤ ·) :=
      (granted_sorted horder none).map _ fun _ _ hle => Int.ofNat_le.mpr hle
    have hconforms := hcovers.conforms hrate (by decide : (0 : Int) ≤ 1000)
      (mul_nonneg (by decide) hcapacity) hsorted
    have hwindow := hconforms start (start + millis) (by omega)
    rw [inWindow_cast, add_sub_cancel_left] at hwindow
    exact hwindow

/-- A burst of two and a token a second. -/
def slowLimiter : LimiterConfig where
  platform := .plain
  subnetText _ := []
  capacity := 2
  refillPerSec := 1

def someNetwork : IpAddr := .v4 ⟨198, 51, 100, 0⟩

/-- A query over TCP from a host of that network. -/
def tcpQuery (nowMillis : Nat) : LimiterEvent :=
  .query nowMillis .tcp (.v4 ⟨198, 51, 100, 7⟩) .root .A

/-- The burst, a query too many, a pass that forgets the bucket, and one more query. -/
theorem token_bucket_bound_evicted :
    acquired slowLimiter someNetwork .new
        [tcpQuery 0, tcpQuery 0, tcpQuery 0, .cleanup 5000 2000, tcpQuery 5000] = [0, 0, 5000] ∧
      ∀ start millis : Nat,
        1000 * (((acquired slowLimiter someNetwork .new
          [tcpQuery 0, tcpQuery 0, tcpQuery 0, .cleanup 5000 2000, tcpQuery 5000]).countP fun time =>
            decide (start ≤ time ∧ time ≤ start + millis) : Nat) : Int) ≤ 1000 * 2 + 1 * millis := by
  refine ⟨by decide, (token_bucket_bound slowLimiter (by decide) (by decide) someNetwork _ ?_ ?_).2⟩
  · show InClockOrder [.spend 0, .spend 0, .spend 0, .prune 5000 2000, .spend 5000]
    simp [InClockOrder, Visit.time]
  · intro nowMillis maxAgeMillis hmem
    obtain ⟨rfl, rfl⟩ : nowMillis = 5000 ∧ maxAgeMillis = 2000 := by simpa [tcpQuery] using hmem
    decide

end Engine
end UnifiedDns
