import UnifiedDns.Engine.TokenBucket

/-!
# What the refill rounds away

A refill credits whole tokens and then starts again from now, so a fraction of a token that had come up
is gone.  A client that keeps to the configured rate pays for it.

* `NeverThrottled` — a network that leaves one token of the burst alone and keeps to the rate gets every
  token it asks for.
* `NoCreditLost` — between two queries an unfilled bucket is credited what the rate gives, up to one
  token.
* `Serves` — one bucket gives a token at each of some times.
* `greedySchedule` — queries as soon as a token has come up, and one more in every thousand rounds.
* `rounding_harmless_iff` — the configurations for which the two laws hold.
-/

namespace UnifiedDns
namespace Engine

/-- Queries that all come to the bucket of one network, in the order of their clock readings. -/
structure QueriesOf (net : IpAddr) (events : List LimiterEvent) : Prop where
  spends : ∀ event ∈ events, event.visit net = some (.spend event.time)
  sorted : events.Pairwise fun earlier later => earlier.time ≤ later.time

/-- What a client may send that keeps to the rate and leaves one token of the burst alone. -/
def sparingMeter (config : LimiterConfig) : Meter Int :=
  ⟨1000 * (config.capacity - 1), config.refillPerSec, 1000⟩

/-- Conforming clients are never throttled. -/
def NeverThrottled (config : LimiterConfig) : Prop :=
  ∀ (net : IpAddr) (events : List LimiterEvent), QueriesOf net events →
    (sparingMeter config).Conforms (events.map fun event => (event.time : Int)) →
      acquired config net .new events = events.map LimiterEvent.time

/-- The stored tokens of a network. -/
def storedTokens (net : IpAddr) (limiter : RateLimiter) : Int :=
  match limiter.subnetBuckets net with
  | some bucket => bucket.tokens
  | none => 0

/-- The tokens credited to a network: what it got and what its bucket gained. -/
def credited (config : LimiterConfig) (net : IpAddr) (limiter : RateLimiter)
    (events : List LimiterEvent) : Int :=
  storedTokens net (limiterRun config events limiter) - storedTokens net limiter +
    (acquired config net limiter events).length

/-- No query of the list finds the bucket full, its own token counted in. -/
def StaysUnfilled (config : LimiterConfig) (net : IpAddr) : RateLimiter → List LimiterEvent → Prop
  | _, [] => True
  | limiter, event :: rest =>
      storedTokens net (limiterStep config limiter event) +
          (if acquires config net limiter event then 1 else 0) < config.capacity ∧
        StaysUnfilled config net (limiterStep config limiter event) rest

/-- From one query to a later one the credit is what the rate gives, up to one token, if the bucket is
never full in between. -/
def NoCreditLost (config : LimiterConfig) : Prop :=
  ∀ (net : IpAddr) (before : List LimiterEvent) (first : LimiterEvent) (during : List LimiterEvent)
    (final : LimiterEvent), QueriesOf net (before ++ first :: (during ++ [final])) →
      StaysUnfilled config net (limiterRun config (before ++ [first]) .new) (during ++ [final]) →
        |1000 * credited config net (limiterRun config (before ++ [first]) .new) (during ++ [final]) -
          config.refillPerSec * ((final.time : Int) - first.time)| < 1000

/-! ### One bucket -/

/-- The bucket gives a token at each of the times. -/
def Serves (config : LimiterConfig) : Option Bucket → List Nat → Prop
  | _, [] => True
  | bucket, time :: rest =>
      ((bucketAt config time bucket).spend config time).1 = true ∧
        Serves config (visitBucket config bucket (.spend time)) rest

section Bucket

variable {config : LimiterConfig} {net : IpAddr} {events : List LimiterEvent} {nowMillis : Nat}

theorem QueriesOf.visits_eq (h : QueriesOf net events) :
    visits net events = (events.map LimiterEvent.time).map .spend := by
  rw [visits, List.map_map]
  have hspends := h.spends
  clear h
  induction events with
  | nil => rfl
  | cons event rest ih =>
      obtain ⟨hevent, hrest⟩ := List.forall_mem_cons.mp hspends
      rw [List.filterMap_cons, hevent, List.map_cons, ih hrest]
      rfl

theorem granted_sublist (config : LimiterConfig) (bucket : Option Bucket) (times : List Nat) :
    (granted config bucket (times.map .spend)).Sublist times := by
  induction times generalizing bucket with
  | nil => exact List.Sublist.slnil
  | cons time rest ih =>
      show ((if ((bucketAt config time bucket).spend config time).1 then [time] else []) ++
        granted config _ (rest.map .spend)).Sublist (time :: rest)
      split
      · exact (ih _).cons_cons time
      · exact (ih _).cons time

theorem granted_eq_iff (config : LimiterConfig) (bucket : Option Bucket) (times : List Nat) :
    granted config bucket (times.map .spend) = times ↔ Serves config bucket times := by
  induction times generalizing bucket with
  | nil => exact ⟨fun _ => trivial, fun _ => rfl⟩
  | cons time rest ih =>
      show (if ((bucketAt config time bucket).spend config time).1 then [time] else []) ++
        granted config (visitBucket config bucket (.spend time)) (rest.map .spend) = time :: rest ↔ _
      rw [Serves]
      by_cases htoken : ((bucketAt config time bucket).spend config time).1 = true
      · rw [if_pos htoken, List.singleton_append, List.cons_inj_right, ih]
        exact (and_iff_right htoken).symm
      · rw [if_neg htoken, List.nil_append]
        refine ⟨fun heq => ?_, fun hserves => absurd hserves.1 htoken⟩
        have hlength := (granted_sublist config (visitBucket config bucket (.spend time)) rest).length_le
        rw [heq, List.length_cons] at hlength
        omega

/-- The tokens of a ready bucket, in closed form. -/
theorem readyBucket_tokens {stored : Bucket} (hrate : 0 ≤ config.refillPerSec)
    (hwell : stored.WellFormed config nowMillis) {time : Nat} (htime : nowMillis ≤ time) :
    (readyBucket config time (some stored)).tokens =
      min (stored.tokens + config.refillPerSec * ((time : Int) - stored.lastRefillMillis) / 1000)
        config.capacity := by
  have hbefore := hwell.refilled_le htime
  have hgain : 0 ≤ config.refillPerSec * ((time : Int) - stored.lastRefillMillis) :=
    mul_nonneg hrate (sub_nonneg.mpr (Int.ofNat_le.mpr hbefore))
  have hle := hwell.le_capacity
  rcases readyBucket_some hrate hbefore with ⟨hless, heq⟩ | ⟨newTokens, -, hpaid, hrest, heq⟩
  · rw [heq]
    show stored.tokens = _
    omega
  · rw [heq]
    show min (stored.tokens + newTokens) config.capacity = _
    omega

theorem serves_cons (config : LimiterConfig) (bucket : Option Bucket) (time : Nat) (rest : List Nat) :
    Serves config bucket (time :: rest) ↔ 0 < (readyBucket config time bucket).tokens ∧
      Serves config (some { readyBucket config time bucket with
        tokens := (readyBucket config time bucket).tokens - 1 }) rest := by
  rw [Serves, visitBucket, spend_eq]
  split
  · simp_all
  · simp_all

end Bucket

/-! ### Where rounding does no harm -/

section Harmless

variable {config : LimiterConfig} {level last : Int} {nowMillis : Nat} {bucket : Option Bucket}

/-- At every later time the bucket has a token for each whole cost the meter holds. -/
def BucketAbove (config : LimiterConfig) (level last : Int) (nowMillis : Nat) (bucket : Option Bucket) :
    Prop :=
  (∀ stored ∈ bucket, stored.WellFormed config nowMillis) ∧ ∀ later : Nat, nowMillis ≤ later →
    (sparingMeter config).fill level last later < 1000 * (readyBucket config later bucket).tokens + 1000

/-- The configurations whose rounding no conforming client notices. -/
def RoundingUnnoticed (config : LimiterConfig) : Prop :=
  config.capacity ≤ 2 ∨ config.refillPerSec % 1000 = 0 ∨
    config.capacity - 1 ≤ config.refillPerSec / 1000

/-- A whole number of tokens a millisecond gives whole tokens. -/
theorem whole_gain {rate : Int} (hwhole : rate % 1000 = 0) (elapsed : Int) :
    ∃ tokens, rate * elapsed = 1000 * tokens :=
  (Int.dvd_of_emod_eq_zero hwhole).mul_right elapsed

/-- The level after a token is paid, and what a bucket with one token less holds later. -/
theorem RoundingUnnoticed.step (hunnoticed : RoundingUnnoticed config)
    (hrate : 0 ≤ config.refillPerSec) {elapsed sinceRefill tokens level : Int}
    (helapsed : 0 ≤ elapsed) (hsince : elapsed ≤ sinceRefill) (hpaid : 1000 ≤ level)
    (hdepth : level ≤ 1000 * (config.capacity - 1)) (habove : level < 1000 * tokens + 1000) :
    min (1000 * (config.capacity - 1)) (level - 1000 + config.refillPerSec * elapsed) <
      1000 * min (tokens - 1 + config.refillPerSec * sinceRefill / 1000) config.capacity + 1000 := by
  have hmono : config.refillPerSec * elapsed ≤ config.refillPerSec * sinceRefill :=
    mul_le_mul_of_nonneg_left hsince hrate
  have hgain : 0 ≤ config.refillPerSec * elapsed := mul_nonneg hrate helapsed
  rcases hunnoticed with hsmall | hexact | hfast
  · omega
  · -- The gain of the meter is a number of whole tokens.
    obtain ⟨gained, hgained⟩ := whole_gain hexact elapsed
    omega
  · rcases helapsed.lt_or_eq with hpos | hzero
    · -- One millisecond gives back all that the client may ask for.
      have hmilli : config.refillPerSec ≤ config.refillPerSec * sinceRefill :=
        le_mul_of_one_le_right hrate (by omega)
      omega
    · rw [← hzero, mul_zero] at *
      omega

theorem BucketAbove.spend (hcapacity : 1 ≤ config.capacity) (hrate : 0 ≤ config.refillPerSec)
    (hunnoticed : RoundingUnnoticed config) (habove : BucketAbove config level last nowMillis bucket)
    {time : Nat} (htime : nowMillis ≤ time)
    (hpaid : 1000 ≤ (sparingMeter config).fill level last time) :
    0 < (readyBucket config time bucket).tokens ∧
      BucketAbove config ((sparingMeter config).fill level last time - 1000) time time
        (some { readyBucket config time bucket with
          tokens := (readyBucket config time bucket).tokens - 1 }) := by
  obtain ⟨hwell, hmeter⟩ := habove
  have hready := readyBucket_ready (by omega) hrate hwell htime
  have hnow := hmeter time htime
  have hdepth := (sparingMeter config).fill_le_depth level last time
  generalize readyBucket config time bucket = ready at hready hnow ⊢
  have htoken : 0 < ready.tokens := by omega
  have hspent := hready.spend.1 htoken
  refine ⟨htoken, ?_, fun later hlater => ?_⟩
  · rintro stored ⟨⟩
    exact hspent
  · rw [readyBucket_tokens hrate hspent hlater]
    exact hunnoticed.step hrate (sub_nonneg.mpr (Int.ofNat_le.mpr hlater))
      (sub_le_sub_left (Int.ofNat_le.mpr hready.refilled) _) hpaid hdepth hnow

theorem BucketAbove.serves (hcapacity : 1 ≤ config.capacity) (hrate : 0 ≤ config.refillPerSec)
    (hunnoticed : RoundingUnnoticed config) {times : List Nat}
    (habove : BucketAbove config level last nowMillis bucket) (hnow : ∀ time ∈ times, nowMillis ≤ time)
    (hsorted : times.Pairwise (· ≤ ·))
    (hcovers : (sparingMeter config).Covers level last (times.map Nat.cast)) :
    Serves config bucket times := by
  induction times generalizing level last nowMillis bucket with
  | nil => trivial
  | cons time rest ih =>
      obtain ⟨hfirst, hsortedRest⟩ := List.pairwise_cons.mp hsorted
      obtain ⟨hpaid, hrest⟩ := hcovers
      obtain ⟨htoken, hnext⟩ :=
        habove.spend hcapacity hrate hunnoticed (hnow time List.mem_cons_self) hpaid
      exact (serves_cons config bucket time rest).mpr ⟨htoken, ih hnext hfirst hsortedRest hrest⟩

theorem bucketAbove_none (config : LimiterConfig) (level last : Int) :
    BucketAbove config level last 0 none := by
  refine ⟨fun stored h => absurd h (Option.not_mem_none stored), fun later _ => ?_⟩
  have hdepth := (sparingMeter config).fill_le_depth level last later
  rw [readyBucket_none]
  show _ < 1000 * config.capacity + 1000
  refine lt_of_le_of_lt hdepth ?_
  show 1000 * (config.capacity - 1) < _
  omega

end Harmless

theorem neverThrottled_of_unnoticed {config : LimiterConfig} (hcapacity : 1 ≤ config.capacity)
    (hrate : 0 ≤ config.refillPerSec) (hunnoticed : RoundingUnnoticed config) :
    NeverThrottled config := by
  intro net events hqueries hconforms
  have hsorted : (events.map LimiterEvent.time).Pairwise (· ≤ ·) :=
    List.pairwise_map.mpr hqueries.sorted
  have hcast : events.map (fun event => (event.time : Int)) =
      (events.map LimiterEvent.time).map Nat.cast := by
    rw [List.map_map]
    rfl
  have hsortedInt : ((events.map LimiterEvent.time).map (Nat.cast : Nat → Int)).Pairwise (· ≤ ·) :=
    hsorted.map _ fun _ _ hle => Int.ofNat_le.mpr hle
  have hdepth : 0 ≤ (sparingMeter config).depth := by
    show 0 ≤ 1000 * (config.capacity - 1)
    omega
  have hlast : ∀ time ∈ (events.map LimiterEvent.time).map (Nat.cast : Nat → Int), 0 ≤ time := by simp
  rw [hcast, Meter.conforms_iff_covers hrate (by decide : (0 : Int) ≤ 1000) hdepth hsortedInt
    hlast] at hconforms
  rw [acquired_eq_granted, hqueries.visits_eq]
  apply (granted_eq_iff config none _).mpr
  exact (bucketAbove_none config _ 0).serves hcapacity hrate hunnoticed (fun _ _ => Nat.zero_le _)
    hsorted hconforms

/-! ### Credit over a period -/

section Credit

variable {config : LimiterConfig} {net : IpAddr} {nowMillis : Nat} {limiter : RateLimiter}
  {event : LimiterEvent}

/-- The configurations whose rounding costs no credit. -/
def RoundingExact (config : LimiterConfig) : Prop :=
  config.refillPerSec % 1000 = 0 ∨ config.capacity ≤ 1 ∨
    config.capacity ≤ config.refillPerSec / 1000

/-- A stored bucket right after a query: less than a token has come up since its last refill. -/
structure Bucket.Rested (config : LimiterConfig) (nowMillis : Nat) (bucket : Bucket) : Prop where
  wellFormed : bucket.WellFormed config nowMillis
  fraction : config.refillPerSec * ((nowMillis : Int) - bucket.lastRefillMillis) < 1000

variable (config limiter) in
theorem visit_spend_inv (hvisit : event.visit net = some (.spend event.time)) :
    (limiterStep config limiter event).subnetBuckets net =
        visitBucket config (limiter.subnetBuckets net) (.spend event.time) ∧
      acquires config net limiter event =
        ((bucketAt config event.time (limiter.subnetBuckets net)).spend config event.time).1 := by
  cases event with
  | cleanup nowMillis maxAgeMillis => simp [LimiterEvent.visit] at hvisit
  | query time protocol clientIp qname qtype =>
      have hcomes : comesTo net protocol clientIp qtype = true := by
        by_contra hnot
        simp [LimiterEvent.visit, hnot] at hvisit
      refine ⟨(checkQuery_bucket config net time protocol clientIp qname qtype limiter).trans
        (if_pos hcomes), ?_⟩
      simp only [acquires, hcomes, Bool.true_and, LimiterEvent.time]

/-- A query refills the bucket and takes a token, if there is one. -/
theorem queryStep (hcapacity : 0 ≤ config.capacity) (hrate : 0 ≤ config.refillPerSec)
    (hwell : ∀ stored ∈ limiter.subnetBuckets net, stored.WellFormed config nowMillis)
    (hvisit : event.visit net = some (.spend event.time)) (htime : nowMillis ≤ event.time) :
    ∃ next : Bucket, (limiterStep config limiter event).subnetBuckets net = some next ∧
      next.Rested config event.time ∧
      next.lastRefillMillis =
        (readyBucket config event.time (limiter.subnetBuckets net)).lastRefillMillis ∧
      next.tokens + (if acquires config net limiter event then 1 else 0) =
        (readyBucket config event.time (limiter.subnetBuckets net)).tokens := by
  obtain ⟨hstep, hacquires⟩ := visit_spend_inv config limiter hvisit
  have hready := readyBucket_ready hcapacity hrate hwell htime
  rw [hstep, hacquires, visitBucket, spend_eq]
  generalize readyBucket config event.time (limiter.subnetBuckets net) = ready at hready ⊢
  by_cases htoken : 0 < ready.tokens
  · rw [if_pos htoken]
    refine ⟨_, rfl, ⟨hready.spend.1 htoken, hready.fraction⟩, rfl, ?_⟩
    show ready.tokens - 1 + 1 = ready.tokens
    omega
  · rw [if_neg htoken]
    exact ⟨_, rfl, ⟨hready.spend.2 htoken, hready.fraction⟩, rfl, add_zero _⟩

/-- The clock after some events. -/
def clockAfter (nowMillis : Nat) (events : List LimiterEvent) : Nat :=
  events.foldl (fun _ event => event.time) nowMillis

theorem queryRun_wellFormed (hcapacity : 0 ≤ config.capacity) (hrate : 0 ≤ config.refillPerSec)
    {events : List LimiterEvent} (hqueries : QueriesOf net events)
    (hnow : ∀ event ∈ events, nowMillis ≤ event.time)
    (hwell : ∀ stored ∈ limiter.subnetBuckets net, stored.WellFormed config nowMillis) :
    ∀ stored ∈ (limiterRun config events limiter).subnetBuckets net,
      stored.WellFormed config (clockAfter nowMillis events) := by
  induction events generalizing nowMillis limiter with
  | nil => exact hwell
  | cons event rest ih =>
      obtain ⟨hspends, hsorted⟩ := hqueries
      obtain ⟨hfirst, hsortedRest⟩ := List.pairwise_cons.mp hsorted
      obtain ⟨hevent, hspendsRest⟩ := List.forall_mem_cons.mp hspends
      obtain ⟨next, hnext, hrested, -⟩ :=
        queryStep hcapacity hrate hwell hevent (hnow event List.mem_cons_self)
      refine ih ⟨hspendsRest, hsortedRest⟩ hfirst ?_
      rw [hnext]
      rintro stored ⟨⟩
      exact hrested.wellFormed

/-- Where rounding is exact, the credit of a refill is what the rate gives since the last one. -/
theorem RoundingExact.refill (hexact : RoundingExact config) (hrate : 0 ≤ config.refillPerSec)
    {stored : Bucket} (hwell : stored.WellFormed config nowMillis) {time : Nat}
    (htime : nowMillis ≤ time)
    (hunfilled : (readyBucket config time (some stored)).tokens < config.capacity) :
    1000 * ((readyBucket config time (some stored)).tokens - stored.tokens) = config.refillPerSec *
      (((readyBucket config time (some stored)).lastRefillMillis : Int) - stored.lastRefillMillis) := by
  have hbefore := hwell.refilled_le htime
  have hnonneg := hwell.nonneg
  rcases readyBucket_some hrate hbefore with ⟨-, heq⟩ | ⟨newTokens, hpos, hpaid, hrest, heq⟩
  · rw [heq, sub_self, sub_self, mul_zero, mul_zero]
  · rw [heq] at hunfilled ⊢
    dsimp only at hunfilled ⊢
    rcases hexact with hwhole | hone | hfast
    · obtain ⟨gained, hgained⟩ := whole_gain hwhole ((time : Int) - stored.lastRefillMillis)
      omega
    · -- A new token would fill the bucket.
      omega
    · -- A millisecond fills the bucket.
      exfalso
      rcases (sub_nonneg.mpr (Int.ofNat_le.mpr hbefore)).lt_or_eq with hlater | hzero
      · have hmilli : config.refillPerSec ≤
            config.refillPerSec * ((time : Int) - stored.lastRefillMillis) :=
          le_mul_of_one_le_right hrate (by omega)
        omega
      · rw [← hzero, mul_zero] at hpaid
        omega

theorem RoundingExact.credited (hexact : RoundingExact config) (hcapacity : 0 ≤ config.capacity)
    (hrate : 0 ≤ config.refillPerSec) {events : List LimiterEvent} (hqueries : QueriesOf net events)
    (hnow : ∀ event ∈ events, nowMillis ≤ event.time) {stored : Bucket}
    (hstored : limiter.subnetBuckets net = some stored) (hrested : stored.Rested config nowMillis)
    (hunfilled : StaysUnfilled config net limiter events) :
    ∃ final : Bucket, (limiterRun config events limiter).subnetBuckets net = some final ∧
      final.Rested config (clockAfter nowMillis events) ∧
      1000 * credited config net limiter events =
        config.refillPerSec * ((final.lastRefillMillis : Int) - stored.lastRefillMillis) := by
  induction events generalizing nowMillis limiter stored with
  | nil =>
      refine ⟨stored, hstored, hrested, ?_⟩
      simp [Engine.credited, limiterRun, acquired]
  | cons event rest ih =>
      obtain ⟨hspends, hsorted⟩ := hqueries
      obtain ⟨hfirst, hsortedRest⟩ := List.pairwise_cons.mp hsorted
      obtain ⟨hevent, hspendsRest⟩ := List.forall_mem_cons.mp hspends
      obtain ⟨hbelow, hunfilledRest⟩ := hunfilled
      have htime := hnow event List.mem_cons_self
      obtain ⟨next, hnext, hnextRested, hrefill, htokens⟩ := queryStep hcapacity hrate
        (by rw [hstored]; rintro _ ⟨⟩; exact hrested.wellFormed) hevent htime
      have hnextTokens : storedTokens net (limiterStep config limiter event) = next.tokens := by
        rw [storedTokens, hnext]
      have htokensNow : storedTokens net limiter = stored.tokens := by
        rw [storedTokens, hstored]
      rw [hstored] at hrefill htokens
      rw [hnextTokens, htokens] at hbelow
      have hone := hexact.refill hrate hrested.wellFormed htime hbelow
      obtain ⟨final, hfinal, hfinalRested, hcredited⟩ :=
        ih ⟨hspendsRest, hsortedRest⟩ hfirst hnext hnextRested hunfilledRest
      refine ⟨final, hfinal, hfinalRested, ?_⟩
      have hsplit : Engine.credited config net limiter (event :: rest) =
          (readyBucket config event.time (some stored)).tokens - stored.tokens +
            Engine.credited config net (limiterStep config limiter event) rest := by
        unfold Engine.credited
        rw [hnextTokens, htokensNow, ← htokens, acquired, List.length_append]
        show storedTokens net (limiterRun config rest (limiterStep config limiter event)) - _ + _ = _
        split <;> push_cast <;> simp only [List.length_cons, List.length_nil] <;> push_cast <;> ring
      rw [hsplit, mul_add, hone, hcredited, ← hrefill]
      ring

end Credit

theorem noCreditLost_of_exact {config : LimiterConfig} (hcapacity : 1 ≤ config.capacity)
    (hrate : 0 ≤ config.refillPerSec) (hexact : RoundingExact config) : NoCreditLost config := by
  intro net before first during final hqueries hunfilled
  have hsplit : before ++ first :: (during ++ [final]) =
      (before ++ [first]) ++ (during ++ [final]) := by simp
  rw [hsplit] at hqueries
  obtain ⟨hspends, hsorted⟩ := hqueries
  obtain ⟨hspendsBefore, hspendsDuring⟩ := List.forall_mem_append.mp hspends
  obtain ⟨hsortedBefore, hsortedDuring, hcross⟩ := List.pairwise_append.mp hsorted
  have hnow : ∀ event ∈ during ++ [final], first.time ≤ event.time :=
    fun event hmem => hcross first (by simp) event hmem
  -- The bucket right after the first query of the period.
  obtain ⟨hsortedEarlier, -, hcrossFirst⟩ := List.pairwise_append.mp hsortedBefore
  have hwell : ∀ stored ∈ (limiterRun config before .new).subnetBuckets net,
      stored.WellFormed config (clockAfter 0 before) := queryRun_wellFormed (by omega) hrate
    ⟨fun event hmem => hspendsBefore event (List.mem_append_left _ hmem), hsortedEarlier⟩
    (fun _ _ => Nat.zero_le _) (fun stored h => absurd h (Option.not_mem_none stored))
  have hclock : clockAfter 0 before ≤ first.time := by
    rcases List.eq_nil_or_concat before with rfl | ⟨earlier, own, rfl⟩
    · exact Nat.zero_le _
    · rw [clockAfter, List.concat_eq_append, List.foldl_append]
      exact hcrossFirst own (by simp) first (by simp)
  obtain ⟨stored, hstored, hrested, -⟩ := queryStep (by omega) hrate hwell
    (hspendsBefore first (by simp)) hclock
  have hrun : limiterRun config (before ++ [first]) .new =
      limiterStep config (limiterRun config before .new) first := by
    rw [limiterRun, List.foldl_append]
    rfl
  rw [← hrun] at hstored
  obtain ⟨last, -, hlast, hcredited⟩ := hexact.credited (by omega) hrate
    ⟨hspendsDuring, hsortedDuring⟩ hnow hstored hrested hunfilled
  have hend : clockAfter first.time (during ++ [final]) = final.time := by
    rw [clockAfter, List.foldl_append]
    rfl
  rw [hend] at hlast
  have hleft : 0 ≤ config.refillPerSec * ((first.time : Int) - stored.lastRefillMillis) :=
    mul_nonneg hrate (sub_nonneg.mpr (Int.ofNat_le.mpr
      (hrested.wellFormed.refilled.trans hrested.wellFormed.seen)))
  have hright : 0 ≤ config.refillPerSec * ((final.time : Int) - last.lastRefillMillis) :=
    mul_nonneg hrate (sub_nonneg.mpr (Int.ofNat_le.mpr
      (hlast.wellFormed.refilled.trans hlast.wellFormed.seen)))
  have hfirst := hrested.fraction
  have hfinal := hlast.fraction
  have hsum : config.refillPerSec * ((last.lastRefillMillis : Int) - stored.lastRefillMillis) -
      config.refillPerSec * ((final.time : Int) - first.time) =
        config.refillPerSec * ((first.time : Int) - stored.lastRefillMillis) -
          config.refillPerSec * ((final.time : Int) - last.lastRefillMillis) := by ring
  rw [hcredited, hsum]
  exact abs_lt.mpr ⟨by linarith, by linarith⟩

/-! ### Queries as soon as a token has come up -/

section Schedule

variable {config : LimiterConfig} {limiter : RateLimiter}

/-- Rounds of queries, a gap apart, after round `k`. -/
def rounds (gap : Nat) (load : Nat → Nat) : Nat → Nat → List Nat
  | _, 0 => []
  | k, left + 1 => List.replicate (load (k + 1)) ((k + 1) * gap) ++ rounds gap load (k + 1) left

/-- The tokens of a gap, and one query more in every thousandth round. -/
def greedyLoad (quota k : Nat) : Nat := quota + if k % 1000 = 0 then 1 else 0

/-- The burst less one, then two thousand rounds. -/
def greedySchedule (config : LimiterConfig) (gap quota : Nat) : List Nat :=
  List.replicate (config.capacity - 1).toNat 0 ++ rounds gap (greedyLoad quota) 0 2000

theorem rounds_succ (gap : Nat) (load : Nat → Nat) (k left : Nat) :
    rounds gap load k (left + 1) = rounds gap load k left ++
      List.replicate (load (k + left + 1)) ((k + left + 1) * gap) := by
  induction left generalizing k with
  | zero => simp [rounds]
  | succ left ih =>
      show List.replicate (load (k + 1)) ((k + 1) * gap) ++ rounds gap load (k + 1) (left + 1) =
        (List.replicate (load (k + 1)) ((k + 1) * gap) ++ rounds gap load (k + 1) left) ++ _
      rw [ih, List.append_assoc]
      have hindex : k + 1 + left + 1 = k + (left + 1) + 1 := by omega
      rw [hindex]

theorem mem_rounds {gap : Nat} {load : Nat → Nat} {k left time : Nat}
    (h : time ∈ rounds gap load k left) : (k + 1) * gap ≤ time := by
  induction left generalizing k with
  | zero => exact absurd h List.not_mem_nil
  | succ left ih =>
      rcases List.mem_append.mp h with hround | hlater
      · exact (List.eq_of_mem_replicate hround).ge
      · exact (Nat.mul_le_mul_right gap (by omega)).trans (ih hlater)

theorem rounds_sorted (gap : Nat) (load : Nat → Nat) (k left : Nat) :
    (rounds gap load k left).Pairwise (· ≤ ·) := by
  induction left generalizing k with
  | zero => exact List.Pairwise.nil
  | succ left ih =>
      refine List.pairwise_append.mpr ⟨List.pairwise_replicate.mpr (Or.inr le_rfl), ih _, ?_⟩
      intro time hround later hlater
      rw [List.eq_of_mem_replicate hround]
      exact (Nat.mul_le_mul_right gap (by omega)).trans (mem_rounds hlater)

theorem burst_rounds_sorted (n gap : Nat) (load : Nat → Nat) (left : Nat) :
    (List.replicate n 0 ++ rounds gap load 0 left).Pairwise (· ≤ ·) := by
  refine List.pairwise_append.mpr
    ⟨List.pairwise_replicate.mpr (Or.inr le_rfl), rounds_sorted _ _ _ _, ?_⟩
  intro time hburst later _
  rw [List.eq_of_mem_replicate hburst]
  exact Nat.zero_le later

/-- A gap in which whole tokens come up and a fraction is left over. -/
theorem exists_gap {rate : Int} (hrate : 0 ≤ rate) (hfraction : rate % 1000 ≠ 0) :
    ∃ gap quota : Nat, 0 < quota ∧ (quota : Int) ≤ max 1 (rate / 1000) ∧
      1000 * (quota : Int) < rate * gap ∧ rate * gap < 1000 * quota + 1000 := by
  rcases lt_or_ge rate 1000 with hslow | hfast
  · obtain ⟨n, hn⟩ : ∃ n : Nat, (n : Int) = 1000 / rate :=
      ⟨(1000 / rate).toNat, Int.toNat_of_nonneg (Int.ediv_nonneg (by decide) hrate)⟩
    have hpos : 0 < rate := by omega
    have hdiv := Int.emod_add_mul_ediv 1000 rate
    have hless := Int.emod_lt_of_pos 1000 hpos
    have hnonneg := Int.emod_nonneg 1000 hpos.ne'
    rw [← hn] at hdiv
    refine ⟨n + 1, 1, by decide, le_max_left _ _, ?_, ?_⟩
    · push_cast
      linarith [mul_add rate (n : Int) 1]
    · push_cast
      linarith [mul_add rate (n : Int) 1]
  · obtain ⟨n, hn⟩ : ∃ n : Nat, (n : Int) = rate / 1000 :=
      ⟨(rate / 1000).toNat, Int.toNat_of_nonneg (by omega)⟩
    refine ⟨1, n, by omega, by omega, ?_, ?_⟩
    · push_cast
      omega
    · push_cast
      omega

/-- A client that sends a greedy schedule conforms. -/
theorem greedySchedule_conforms (hcapacity : 1 ≤ config.capacity) (hrate : 0 ≤ config.refillPerSec)
    {gap quota : Nat} (hquota : (quota : Int) ≤ config.capacity - 2)
    (hgap : 1000 * (quota : Int) < config.refillPerSec * gap) :
    (sparingMeter config).Conforms ((greedySchedule config gap quota).map Nat.cast) := by
  have hround (k left : Nat) (level : Int) (hdepth : level ≤ 1000 * (config.capacity - 1))
      (hlevel : ((k % 1000 : Nat) : Int) ≤ level) :
      (sparingMeter config).Covers level ((k * gap : Nat) : Int)
        ((rounds gap (greedyLoad quota) k left).map Nat.cast) := by
    induction left generalizing k level with
    | zero => trivial
    | succ left ih =>
        have hfill : (sparingMeter config).fill level ((k * gap : Nat) : Int)
            (((k + 1) * gap : Nat) : Int) =
              min (1000 * (config.capacity - 1)) (level + config.refillPerSec * gap) := by
          have helapsed : (((k + 1) * gap : Nat) : Int) - ((k * gap : Nat) : Int) = gap := by
            push_cast
            ring
          rw [Meter.fill, helapsed]
          rfl
        have hnext : ∀ time ∈ (rounds gap (greedyLoad quota) k (left + 1)).map (Nat.cast : Nat → Int),
            (((k + 1) * gap : Nat) : Int) ≤ time := by
          intro time hmem
          obtain ⟨own, hown, rfl⟩ := List.mem_map.mp hmem
          exact Int.ofNat_le.mpr (mem_rounds hown)
        apply (Meter.covers_fill hrate hnext).mp
        rw [hfill, rounds, List.map_append, List.map_replicate]
        -- In a thousand rounds the left-over fractions pay for one more query.
        have hpaid : ((greedyLoad quota (k + 1) : Nat) : Int) * 1000 + (((k + 1) % 1000 : Nat) : Int) ≤
            min (1000 * (config.capacity - 1)) (level + config.refillPerSec * gap) := by
          unfold greedyLoad
          split
          · omega
          · omega
        refine Meter.covers_replicate (by decide : (0 : Int) ≤ 1000) (min_le_left _ _) ?_ ?_
        · show ((greedyLoad quota (k + 1) : Nat) : Int) * 1000 ≤ _
          omega
        · refine ih (k + 1) _ ?_ ?_
          · show _ - ((greedyLoad quota (k + 1) : Nat) : Int) * 1000 ≤ _
            omega
          · show _ ≤ _ - ((greedyLoad quota (k + 1) : Nat) : Int) * 1000
            omega
  have hcovers : (sparingMeter config).Covers (1000 * (config.capacity - 1)) ((0 : Nat) : Int)
      ((greedySchedule config gap quota).map Nat.cast) := by
    rw [greedySchedule, List.map_append, List.map_replicate]
    have hburst : (((config.capacity - 1).toNat : Nat) : Int) = config.capacity - 1 :=
      Int.toNat_of_nonneg (by omega)
    refine Meter.covers_replicate (by decide : (0 : Int) ≤ 1000) le_rfl ?_ ?_
    · show _ * (1000 : Int) ≤ _
      omega
    · have hstart := hround 0 2000 (1000 * (config.capacity - 1) -
        (((config.capacity - 1).toNat : Nat) : Int) * 1000) (by omega) (by omega)
      rw [Nat.zero_mul] at hstart
      exact hstart
  refine hcovers.conforms hrate (by decide : (0 : Int) ≤ 1000) ?_ ?_
  · show 0 ≤ 1000 * (config.capacity - 1)
    omega
  · exact (burst_rounds_sorted _ gap _ 2000).map _ fun _ _ hle => Int.ofNat_le.mpr hle

end Schedule

theorem limiterRun_append (config : LimiterConfig) (first second : List LimiterEvent)
    (limiter : RateLimiter) :
    limiterRun config (first ++ second) limiter =
      limiterRun config second (limiterRun config first limiter) :=
  List.foldl_append

theorem acquired_append (config : LimiterConfig) (net : IpAddr) (first second : List LimiterEvent)
    (limiter : RateLimiter) :
    acquired config net limiter (first ++ second) = acquired config net limiter first ++
      acquired config net (limiterRun config first limiter) second := by
  induction first generalizing limiter with
  | nil => rfl
  | cons event rest ih =>
      show _ ++ acquired config net _ (rest ++ second) = (_ ++ _) ++ _
      rw [ih, List.append_assoc]
      rfl

theorem StaysUnfilled.append {config : LimiterConfig} {net : IpAddr} {limiter : RateLimiter}
    {first second : List LimiterEvent} (hfirst : StaysUnfilled config net limiter first)
    (hsecond : StaysUnfilled config net (limiterRun config first limiter) second) :
    StaysUnfilled config net limiter (first ++ second) := by
  induction first generalizing limiter with
  | nil => exact hsecond
  | cons event rest ih => exact ⟨hfirst.1, ih hfirst.2 hsecond⟩

section Drain

variable {config : LimiterConfig} {net : IpAddr} {query : Nat → LimiterEvent} {limiter : RateLimiter}
  (hvisit : ∀ time, (query time).visit net = some (.spend time))
  (htime : ∀ time, (query time).time = time)

theorem readyBucket_now (config : LimiterConfig) (time : Nat) (tokens : Int) :
    readyBucket config time (some ⟨tokens, time, time⟩) = ⟨tokens, time, time⟩ := by
  simp [readyBucket, bucketAt, Bucket.refill]

/-- The bucket one gap after it was last refilled. -/
theorem readyBucket_gap (hrate : 0 ≤ config.refillPerSec) {gap quota : Nat} (hquota : 0 < quota)
    (hgap : 1000 * (quota : Int) < config.refillPerSec * gap)
    (hless : config.refillPerSec * gap < 1000 * quota + 1000) (k : Nat) {tokens : Int}
    (hroom : tokens + quota < config.capacity) :
    readyBucket config ((k + 1) * gap) (some ⟨tokens, k * gap, k * gap⟩) =
      ⟨tokens + quota, (k + 1) * gap, (k + 1) * gap⟩ := by
  have helapsed : (((k + 1) * gap : Nat) : Int) - ((k * gap : Nat) : Int) = gap := by
    push_cast
    ring
  have hbefore : (⟨tokens, k * gap, k * gap⟩ : Bucket).lastRefillMillis ≤ (k + 1) * gap :=
    Nat.mul_le_mul_right gap (Nat.le_succ k)
  rcases readyBucket_some hrate hbefore with
    ⟨hnone, -⟩ | ⟨newTokens, -, hpaid, hrest, heq⟩
  · rw [helapsed] at hnone
    omega
  · rw [helapsed] at hpaid hrest
    have hnew : newTokens = quota := by omega
    rw [heq, hnew, min_eq_left hroom.le]

include hvisit htime

theorem query_step {time : Nat} {tokens : Int}
    (hready : readyBucket config time (limiter.subnetBuckets net) = ⟨tokens, time, time⟩) :
    (limiterStep config limiter (query time)).subnetBuckets net =
        some ⟨if 0 < tokens then tokens - 1 else tokens, time, time⟩ ∧
      acquires config net limiter (query time) = decide (0 < tokens) := by
  have hspend : (query time).visit net = some (.spend (query time).time) := by
    rw [htime]
    exact hvisit time
  obtain ⟨hstep, hacquires⟩ := visit_spend_inv config limiter hspend
  rw [hstep, hacquires, htime, visitBucket, spend_eq, hready]
  by_cases htoken : 0 < tokens
  · simp [htoken]
  · simp [htoken]

/-- Several queries at one time, each with its token. -/
theorem burst_run {time n : Nat} {tokens : Int} (hn : 0 < n) (htokens : (n : Int) ≤ tokens)
    (hready : readyBucket config time (limiter.subnetBuckets net) = ⟨tokens, time, time⟩) :
    (limiterRun config (List.replicate n (query time)) limiter).subnetBuckets net =
        some ⟨tokens - n, time, time⟩ ∧
      acquired config net limiter (List.replicate n (query time)) = List.replicate n time ∧
      (tokens < config.capacity →
        StaysUnfilled config net limiter (List.replicate n (query time))) := by
  induction n generalizing limiter tokens with
  | zero => exact absurd hn (lt_irrefl 0)
  | succ n ih =>
      obtain ⟨hstep, hacquires⟩ := query_step hvisit htime hready
      rw [if_pos (by omega)] at hstep
      rw [decide_eq_true (by omega)] at hacquires
      have hstored : storedTokens net (limiterStep config limiter (query time)) = tokens - 1 := by
        rw [storedTokens, hstep]
      have hfirst : tokens < config.capacity →
          storedTokens net (limiterStep config limiter (query time)) +
            (if acquires config net limiter (query time) then 1 else 0) < config.capacity := by
        intro hroom
        rw [hstored, hacquires, if_pos rfl]
        omega
      rw [List.replicate_succ, List.replicate_succ, acquired, hacquires, if_pos rfl, htime]
      rcases Nat.eq_zero_or_pos n with rfl | hpos
      · exact ⟨hstep, rfl, fun hroom => ⟨hfirst hroom, trivial⟩⟩
      · have hnow : readyBucket config time
            ((limiterStep config limiter (query time)).subnetBuckets net) = ⟨tokens - 1, time, time⟩ := by
          rw [hstep, readyBucket_now]
        obtain ⟨hrun, hgot, hunfilled⟩ := ih hpos (by omega) hnow
        refine ⟨?_, by rw [hgot, List.singleton_append], fun hroom =>
          ⟨hfirst hroom, hunfilled (by omega)⟩⟩
        show (limiterRun config (List.replicate n (query time))
          (limiterStep config limiter (query time))).subnetBuckets net = _
        rw [hrun]
        push_cast
        congr 2
        omega

/-- Rounds of queries that all get their tokens; `tokens` is what the bucket keeps after each round. -/
theorem rounds_run (hrate : 0 ≤ config.refillPerSec) {gap quota : Nat} (hquota : 0 < quota)
    (hgap : 1000 * (quota : Int) < config.refillPerSec * gap)
    (hless : config.refillPerSec * gap < 1000 * quota + 1000) (load : Nat → Nat) (tokens : Nat → Int)
    (hload : ∀ k, 0 < load (k + 1)) (k left : Nat)
    (hnext : ∀ j < k + left, tokens (j + 1) = tokens j + quota - load (j + 1))
    (hpaid : ∀ j ≤ k + left, 0 ≤ tokens j) (hroom : ∀ j, tokens j + quota < config.capacity)
    (hbucket : limiter.subnetBuckets net = some ⟨tokens k, k * gap, k * gap⟩) :
    (limiterRun config ((rounds gap load k left).map query) limiter).subnetBuckets net =
        some ⟨tokens (k + left), (k + left) * gap, (k + left) * gap⟩ ∧
      acquired config net limiter ((rounds gap load k left).map query) = rounds gap load k left ∧
      StaysUnfilled config net limiter ((rounds gap load k left).map query) := by
  induction left generalizing k limiter with
  | zero => exact ⟨hbucket, rfl, trivial⟩
  | succ left ih =>
      have hready : readyBucket config ((k + 1) * gap) (limiter.subnetBuckets net) =
          ⟨tokens k + quota, (k + 1) * gap, (k + 1) * gap⟩ := by
        rw [hbucket, readyBucket_gap hrate hquota hgap hless k (hroom k)]
      have hstep := hnext k (by omega)
      have hleft := hpaid (k + 1) (by omega)
      obtain ⟨hround, hgot, hunfilled⟩ :=
        burst_run hvisit htime (hload k) (by omega) hready
      rw [← hstep] at hround
      have hindex : k + 1 + left = k + (left + 1) := by omega
      obtain ⟨hrest, hgotRest, hunfilledRest⟩ := ih (k + 1)
        (fun j hj => hnext j (by omega)) (fun j hj => hpaid j (by omega)) hround
      rw [hindex] at hrest
      rw [rounds, List.map_append, List.map_replicate, limiterRun_append, acquired_append, hgot,
        hgotRest]
      exact ⟨hrest, rfl, (hunfilled (hroom k)).append hunfilledRest⟩

end Drain

/-! ### Where rounding does harm -/

theorem tcpQuery_visit (time : Nat) : (tcpQuery time).visit someNetwork = some (.spend time) := rfl

theorem queriesOf_map {times : List Nat} (hsorted : times.Pairwise (· ≤ ·)) :
    QueriesOf someNetwork (times.map tcpQuery) where
  spends event hmem := by
    obtain ⟨time, -, rfl⟩ := List.mem_map.mp hmem
    rfl
  sorted := List.pairwise_map.mpr hsorted

theorem acquired_length_le (config : LimiterConfig) (net : IpAddr) (events : List LimiterEvent)
    (limiter : RateLimiter) : (acquired config net limiter events).length ≤ events.length := by
  induction events generalizing limiter with
  | nil => exact le_rfl
  | cons event rest ih =>
      have hrest := ih (limiterStep config limiter event)
      rw [acquired, List.length_append, List.length_cons]
      split
      · rw [List.length_singleton]
        omega
      · rw [List.length_nil]
        omega

/-- A burst out of a new bucket. -/
theorem burst_new (config : LimiterConfig) {n : Nat} (hn : 0 < n)
    (hcapacity : (n : Int) ≤ config.capacity) :
    (limiterRun config (List.replicate n (tcpQuery 0)) .new).subnetBuckets someNetwork =
      some ⟨config.capacity - n, 0, 0⟩ :=
  (burst_run tcpQuery_visit (fun _ => rfl) hn hcapacity (readyBucket_none config 0)).1

/-- Before its last query a greedy schedule has drained the bucket. -/
theorem greedySchedule_drained {config : LimiterConfig} (hcapacity : 2 ≤ config.capacity)
    (hrate : 0 ≤ config.refillPerSec) {gap quota : Nat} (hquota : 0 < quota)
    (hfits : (quota : Int) ≤ config.capacity - 2)
    (hgap : 1000 * (quota : Int) < config.refillPerSec * gap)
    (hless : config.refillPerSec * gap < 1000 * quota + 1000) :
    ∃ before, greedySchedule config gap quota = before ++ [(1999 + 1) * gap] ∧
      (limiterRun config (before.map tcpQuery) .new).subnetBuckets someNetwork =
        some ⟨0, (1999 + 1) * gap, (1999 + 1) * gap⟩ := by
  -- The burst leaves one token, and the extra query of round 1000 takes it.
  have hburst := burst_new config (n := (config.capacity - 1).toNat) (by omega) (by omega)
  have hone : config.capacity - (((config.capacity - 1).toNat : Nat) : Int) = 1 := by omega
  rw [hone] at hburst
  have hload (k : Nat) : 0 < greedyLoad quota (k + 1) := by
    unfold greedyLoad
    omega
  have hnext : ∀ j < 0 + 1999, (1 - (((j + 1) / 1000 : Nat) : Int)) =
      1 - ((j / 1000 : Nat) : Int) + quota - greedyLoad quota (j + 1) := by
    intro j hj
    unfold greedyLoad
    split <;> omega
  obtain ⟨hrounds, -⟩ := rounds_run tcpQuery_visit (fun _ => rfl) hrate hquota hgap hless
    (greedyLoad quota) (fun k => 1 - ((k / 1000 : Nat) : Int)) hload 0 1999 hnext
    (fun j hj => by omega) (fun j => by omega) (by rw [hburst, Nat.zero_mul]; rfl)
  rw [Nat.zero_add] at hrounds
  -- In round 2000 the tokens of the gap are gone before the extra query.
  have hready : readyBucket config ((1999 + 1) * gap) (some ⟨1 - ((1999 / 1000 : Nat) : Int),
      1999 * gap, 1999 * gap⟩) = ⟨quota, (1999 + 1) * gap, (1999 + 1) * gap⟩ := by
    rw [readyBucket_gap hrate hquota hgap hless 1999 (by omega)]
    congr 1
    omega
  rw [← hrounds] at hready
  obtain ⟨hlast, -⟩ := burst_run tcpQuery_visit (fun _ => rfl) hquota le_rfl hready
  rw [sub_self] at hlast
  refine ⟨List.replicate (config.capacity - 1).toNat 0 ++ (rounds gap (greedyLoad quota) 0 1999 ++
    List.replicate quota ((1999 + 1) * gap)), ?_, ?_⟩
  · have hextra : greedyLoad quota (0 + 1999 + 1) = quota + 1 := by simp [greedyLoad]
    rw [greedySchedule, rounds_succ gap _ 0 1999, hextra, List.replicate_succ', Nat.zero_add]
    simp only [List.append_assoc]
  · rw [List.map_append, List.map_append, List.map_replicate, List.map_replicate, limiterRun_append,
      limiterRun_append]
    exact hlast

theorem not_neverThrottled {config : LimiterConfig} (hcapacity : 1 ≤ config.capacity)
    (hrate : 0 ≤ config.refillPerSec) (hnoticed : ¬ RoundingUnnoticed config) :
    ¬ NeverThrottled config := by
  intro hnever
  obtain ⟨hlarge, hfraction, hslow⟩ : ¬ config.capacity ≤ 2 ∧ ¬ config.refillPerSec % 1000 = 0 ∧
      ¬ config.capacity - 1 ≤ config.refillPerSec / 1000 := by
    simpa only [RoundingUnnoticed, not_or] using hnoticed
  obtain ⟨gap, quota, hquota, hfits, hgap, hless⟩ := exists_gap hrate hfraction
  have hfits' : (quota : Int) ≤ config.capacity - 2 := by omega
  have hsorted : (greedySchedule config gap quota).Pairwise (· ≤ ·) :=
    burst_rounds_sorted _ gap _ 2000
  have hconforms := greedySchedule_conforms hcapacity hrate hfits' hgap
  obtain ⟨before, hschedule, hdrained⟩ :=
    greedySchedule_drained (by omega) hrate hquota hfits' hgap hless
  rw [hschedule] at hsorted hconforms
  have hall := hnever someNetwork _ (queriesOf_map hsorted) (by rw [List.map_map]; exact hconforms)
  -- The last query finds no token.
  obtain ⟨-, hdropped⟩ := query_step tcpQuery_visit (fun _ => rfl)
    (by rw [hdrained]; exact readyBucket_now config ((1999 + 1) * gap) 0)
  rw [List.map_append, acquired_append, List.map_singleton, acquired, hdropped] at hall
  have hlength := congrArg List.length hall
  have hbefore := acquired_length_le config someNetwork (before.map tcpQuery) .new
  simp [acquired] at hlength hbefore
  omega

theorem length_rounds (gap quota k left : Nat) :
    (rounds gap (fun _ => quota) k left).length = left * quota := by
  induction left generalizing k with
  | zero => simp [rounds]
  | succ left ih =>
      rw [rounds, List.length_append, List.length_replicate, ih, Nat.succ_mul]
      omega

/-- A bucket that is drained and then used as soon as a token has come up loses a token in a thousand
rounds. -/
theorem not_noCreditLost {config : LimiterConfig} (hrate : 0 ≤ config.refillPerSec)
    (hinexact : ¬ RoundingExact config) : ¬ NoCreditLost config := by
  intro hlossless
  obtain ⟨hfraction, hlarge, hslow⟩ : ¬ config.refillPerSec % 1000 = 0 ∧ ¬ config.capacity ≤ 1 ∧
      ¬ config.capacity ≤ config.refillPerSec / 1000 := by
    simpa only [RoundingExact, not_or] using hinexact
  obtain ⟨gap, quota, hquota, hfits, hgap, hless⟩ := exists_gap hrate hfraction
  obtain ⟨burst, hcapacity⟩ : ∃ n : Nat, config.capacity = n + 1 :=
    ⟨(config.capacity - 1).toNat, by omega⟩
  have hdrained := burst_new config (n := burst + 1) (by omega) (by omega)
  have hnone : config.capacity - ((burst + 1 : Nat) : Int) = 0 := by omega
  rw [hnone, List.replicate_succ'] at hdrained
  obtain ⟨hrun, hgot, hunfilled⟩ := rounds_run tcpQuery_visit (fun _ => rfl) hrate hquota hgap hless
    (fun _ => quota) (fun _ => 0) (fun _ => hquota) 0 (999 + 1)
    (fun _ _ => by omega) (fun _ _ => le_rfl) (fun _ => by omega) (by rw [hdrained, Nat.zero_mul])
  obtain ⟨during, hduring⟩ : ∃ during : List Nat,
      rounds gap (fun _ => quota) 0 (999 + 1) = during ++ [(999 + 1) * gap] := by
    obtain ⟨others, hothers⟩ : ∃ n, quota = n + 1 := ⟨quota - 1, by omega⟩
    refine ⟨rounds gap (fun _ => quota) 0 999 ++ List.replicate others ((999 + 1) * gap), ?_⟩
    rw [rounds_succ, Nat.zero_add, List.append_assoc, ← List.replicate_succ', hothers]
  have hcount := length_rounds gap quota 0 (999 + 1)
  have hsorted : (List.replicate burst 0 ++ 0 :: (during ++ [(999 + 1) * gap])).Pairwise (· ≤ ·) := by
    rw [← hduring, List.append_cons, ← List.replicate_succ']
    exact burst_rounds_sorted (burst + 1) gap _ (999 + 1)
  have hqueries := queriesOf_map hsorted
  simp only [List.map_append, List.map_cons, List.map_nil, List.map_replicate] at hqueries
  rw [hduring, List.map_append, List.map_singleton] at hunfilled hgot hrun
  have hbound := hlossless someNetwork _ _ _ _ hqueries hunfilled
  have hcredited : credited config someNetwork
      (limiterRun config (List.replicate burst (tcpQuery 0) ++ [tcpQuery 0]) .new)
      (during.map tcpQuery ++ [tcpQuery ((999 + 1) * gap)]) = 1000 * quota := by
    rw [credited, storedTokens, storedTokens, hrun, hdrained, hgot, ← hduring, hcount]
    push_cast
    ring
  rw [hcredited] at hbound
  have hperiod : ((tcpQuery ((999 + 1) * gap)).time : Int) - (tcpQuery 0).time = 1000 * gap := by
    show (((999 + 1) * gap : Nat) : Int) - ((0 : Nat) : Int) = 1000 * gap
    push_cast
    ring
  rw [hperiod] at hbound
  have hlow := (abs_lt.mp hbound).1
  have hscaled : config.refillPerSec * (1000 * (gap : Int)) = 1000 * (config.refillPerSec * gap) := by
    ring
  omega

/-- **When rounding does no harm.** Conforming clients are never throttled just when the capacity is at
most two, the rate is a whole number of tokens a millisecond, or a millisecond gives what the client may
send at once; no credit is lost just when the rate is a whole number of tokens a millisecond, the
capacity is one, or a millisecond fills the bucket. -/
theorem rounding_harmless_iff (config : LimiterConfig) (hcapacity : 1 ≤ config.capacity)
    (hrate : 0 ≤ config.refillPerSec) :
    (NeverThrottled config ↔ config.capacity ≤ 2 ∨ config.refillPerSec % 1000 = 0 ∨
      config.capacity - 1 ≤ config.refillPerSec / 1000) ∧
    (NoCreditLost config ↔ config.refillPerSec % 1000 = 0 ∨ config.capacity ≤ 1 ∨
      config.capacity ≤ config.refillPerSec / 1000) := by
  constructor
  · constructor
    · intro hnever
      by_contra hnoticed
      exact not_neverThrottled hcapacity hrate hnoticed hnever
    · exact neverThrottled_of_unnoticed hcapacity hrate
  · constructor
    · intro hlossless
      by_contra hinexact
      exact not_noCreditLost hrate hinexact hlossless
    · exact noCreditLost_of_exact hcapacity hrate

/-- A burst of two and a token a second: a client that keeps one token back is served, yet credit is
lost. -/
theorem rounding_harmless_iff_slow : NeverThrottled slowLimiter ∧ ¬ NoCreditLost slowLimiter := by
  have hiff := rounding_harmless_iff slowLimiter (by decide) (by decide)
  exact ⟨hiff.1.mpr (by decide), fun hlossless => absurd (hiff.2.mp hlossless) (by decide)⟩

/-- A burst of three and a token a second. Two queries at once and then one or two every two seconds
conform, but the refills at 1999 and 3998 milliseconds throw 999 milliseconds away each, and the query at
4000 is dropped. -/
theorem conforming_client_throttled :
    QueriesOf someNetwork ([0, 0, 1999, 2000, 3998, 4000].map tcpQuery) ∧
      (sparingMeter { slowLimiter with capacity := 3 }).Conforms [0, 0, 1999, 2000, 3998, 4000] ∧
      acquired { slowLimiter with capacity := 3 } someNetwork .new
        ([0, 0, 1999, 2000, 3998, 4000].map tcpQuery) = [0, 0, 1999, 2000, 3998] ∧
      ¬ NeverThrottled { slowLimiter with capacity := 3 } := by
  have hqueries := queriesOf_map (by decide : [0, 0, 1999, 2000, 3998, 4000].Pairwise (· ≤ ·))
  have hconforms : (sparingMeter { slowLimiter with capacity := 3 }).Conforms
      [0, 0, 1999, 2000, 3998, 4000] := by
    have hcovers : (sparingMeter { slowLimiter with capacity := 3 }).Covers 2000 0
        [0, 0, 1999, 2000, 3998, 4000] := by
      simp [Meter.Covers, Meter.fill, sparingMeter, slowLimiter]
    exact hcovers.conforms (by decide) (by decide) (by decide) (by decide)
  have hacquired : acquired { slowLimiter with capacity := 3 } someNetwork .new
      ([0, 0, 1999, 2000, 3998, 4000].map tcpQuery) = [0, 0, 1999, 2000, 3998] := by decide
  refine ⟨hqueries, hconforms, hacquired, fun hnever => ?_⟩
  have hall := hnever someNetwork _ hqueries hconforms
  rw [hacquired] at hall
  exact absurd hall (by decide)

end Engine
end UnifiedDns
