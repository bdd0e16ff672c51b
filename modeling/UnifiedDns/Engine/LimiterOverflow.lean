import UnifiedDns.Engine.TokenBucket
import UnifiedDns.Lib.CheckedInt

/-!
# The arithmetic of the rate limiter under overflow checks

The release profile compiles overflow checks in and aborts on panic, so an `i64` operation of
`check_query` whose result does not fit ends the server.  The capacity and the rate come from the
environment and are not restricted.

* `Bucket.refillChecked` to `checkQueryChecked` — `check_query` with the check behind every operation.
* `RefillFits`, `SpendFits` — the operations on one bucket fit; by `checkQueryChecked_eq_some` nothing else
  can fail before the year 10000.
* `Bucket.Within`, `LimiterWithin` — the bounds that stored buckets keep, whatever the settings.
* `SettingsFit` — the settings that keep all results small.
* `mainLimiter` — the limiter that `main` starts.
* `neverOverflows_iff` — the settings with which no run overflows.
-/

namespace UnifiedDns
namespace Engine

open Checked

/-! ### The checked code -/

/-- The result of an `i64` operation. -/
def i64 (x : Int) : Option Int := checked 64 x

/-- `Bucket.refill` with its `i64` operations checked; a division by 1000 always fits. -/
def Bucket.refillChecked (config : LimiterConfig) (nowMillis : Nat) (bucket : Bucket) : Option Bucket := do
  let difference ← i64 ((nowMillis : Int) - bucket.lastRefillMillis)
  let elapsedMillis := max difference 0
  if 0 < elapsedMillis then
    let product ← i64 (elapsedMillis * config.refillPerSec)
    let newTokens := product.tdiv 1000
    if 0 < newTokens then
      let sum ← i64 (bucket.tokens + newTokens)
      some { bucket with
        lastRefillMillis := nowMillis
        tokens := min sum config.capacity }
    else some bucket
  else some bucket

/-- `Bucket.take` with its `i64` operation checked. -/
def Bucket.takeChecked (bucket : Bucket) : Option (Option Bucket) := do
  if 0 < bucket.tokens then
    let left ← i64 (bucket.tokens - 1)
    some (some { bucket with tokens := left })
  else some none

/-- `Bucket.spend` with its operations checked. -/
def Bucket.spendChecked (config : LimiterConfig) (nowMillis : Nat) (bucket : Bucket) :
    Option (Bool × Bucket) := do
  let bucket ← { bucket with lastSeenMillis := nowMillis }.refillChecked config nowMillis
  match ← bucket.takeChecked with
  | some bucket => some (true, bucket)
  | none => some (false, bucket)

/-- `DomainRateBucket.count` with its `i64` operation checked. The shifts of the packing work on `u64` by
a fixed amount: they lose high bits, but no check fails. -/
def DomainRateBucket.countChecked (nowSec : Nat) (bucket : DomainRateBucket) :
    Option (Nat × DomainRateBucket) := do
  let currEpoch : Nat := bucket.state / 2 ^ 32
  let currCount : Nat := bucket.state % 2 ^ 32
  if currEpoch < nowSec then some (1, { bucket with state := nowSec * 2 ^ 32 % 2 ^ 64 + 1 })
  else
    let next ← i64 ((currCount : Int) + 1)
    let newCount := min next.toNat 4294967295
    some (newCount, { bucket with state := currEpoch * 2 ^ 32 + newCount })

/-- `DomainRateBucket.judge` with its `i64` operations checked. -/
def DomainRateBucket.judgeChecked (nowSec : Nat) (bucket : DomainRateBucket) :
    Option (RrlAction × DomainRateBucket) := do
  if nowSec < bucket.penalizedUntilSec then
    let deadline ← i64 ((nowSec : Int) + 3)
    some (.drop, { bucket with penalizedUntilSec := deadline.toNat })
  else
    let (queryCount, bucket) ← bucket.countChecked nowSec
    if queryCount = 1 then some (.allow, bucket)
    else if queryCount = 2 then some (.truncate, bucket)
    else
      let deadline ← i64 ((nowSec : Int) + 3)
      some (.drop, { bucket with penalizedUntilSec := deadline.toNat })

/-- `checkDuplicate` with its operations checked. -/
def checkDuplicateChecked (nowSec : Nat) (key : Text) (limiter : RateLimiter) :
    Option (RrlAction × RateLimiter) :=
  match findRrl key limiter.rrlBuckets with
  | none =>
      if maxTrackedRrlEntries ≤ limiter.rrlBuckets.length then some (.allow, limiter)
      else
        ((DomainRateBucket.fresh nowSec).judgeChecked nowSec).map fun (action, bucket) =>
          (action, { limiter with rrlBuckets := storeRrl key bucket limiter.rrlBuckets })
  | some bucket =>
      (bucket.judgeChecked nowSec).map fun (action, bucket) =>
        (action, { limiter with rrlBuckets := storeRrl key bucket limiter.rrlBuckets })

/-- `check_query` with every `i64` operation checked; nothing when the server has aborted. -/
def checkQueryChecked (config : LimiterConfig) (nowMillis : Nat) (protocol : Protocol)
    (clientIp : IpAddr) (qname : Name) (qtype : RecordType) (limiter : RateLimiter) :
    Option (RrlAction × RateLimiter) :=
  if isLoopback clientIp then some (.allow, limiter)
  else if protocol = .udp ∧ qtype = .ANY then some (.drop, limiter)
  else
    let subnet := toSubnet clientIp
    match ((limiter.subnetBuckets subnet).getD (.full config nowMillis)).spendChecked config nowMillis with
    | none => none
    | some (granted, bucket) =>
        let limiter := { limiter with
          subnetBuckets := fun ip => if ip = subnet then some bucket else limiter.subnetBuckets ip }
        if granted = false then some (.drop, limiter)
        else if protocol ≠ .udp then some (.allow, limiter)
        else checkDuplicateChecked (nowMillis / 1000) (rrlKey config subnet qname qtype) limiter

/-- The limiter after an event, if the server still runs; a cleanup pass is taken as it is. -/
def limiterStepChecked (config : LimiterConfig) (limiter : RateLimiter) :
    LimiterEvent → Option RateLimiter
  | .query nowMillis protocol clientIp qname qtype =>
      (checkQueryChecked config nowMillis protocol clientIp qname qtype limiter).map Prod.snd
  | .cleanup nowMillis maxAgeMillis => some (cleanup nowMillis maxAgeMillis limiter)

/-! ### What can fail -/

/-- The last millisecond of the year 9999. -/
def lastReading : Nat := 253402300799999

section Bucket

variable {config : LimiterConfig} {nowMillis : Nat} {bucket : Bucket}

/-- The tokens for the time since the last refill. -/
def Bucket.newTokens (config : LimiterConfig) (nowMillis : Nat) (bucket : Bucket) : Int :=
  ((nowMillis - bucket.lastRefillMillis : Nat) * config.refillPerSec).tdiv 1000

/-- The operations of a refill fit. -/
@[mk_iff]
structure RefillFits (config : LimiterConfig) (nowMillis : Nat) (bucket : Bucket) : Prop where
  difference : Fits 64 ((nowMillis : Int) - bucket.lastRefillMillis)
  product : Fits 64 ((nowMillis - bucket.lastRefillMillis : Nat) * config.refillPerSec)
  sum : 0 < bucket.newTokens config nowMillis → Fits 64 (bucket.tokens + bucket.newTokens config nowMillis)

/-- The operations on the bucket of a query fit. -/
@[mk_iff]
structure SpendFits (config : LimiterConfig) (nowMillis : Nat) (bucket : Bucket) : Prop where
  refill : RefillFits config nowMillis bucket
  take : 0 < (bucket.refill config nowMillis).tokens → Fits 64 ((bucket.refill config nowMillis).tokens - 1)

theorem Bucket.refillChecked_eq_some {refilled : Bucket} :
    bucket.refillChecked config nowMillis = some refilled ↔
      RefillFits config nowMillis bucket ∧ refilled = bucket.refill config nowMillis := by
  have hmax : max ((nowMillis : Int) - bucket.lastRefillMillis) 0 =
      ((nowMillis - bucket.lastRefillMillis : Nat) : Int) := by omega
  have hnew : ((nowMillis - bucket.lastRefillMillis : Nat) * config.refillPerSec).tdiv 1000 =
      bucket.newTokens config nowMillis := rfl
  simp only [Bucket.refillChecked, i64, Option.bind_eq_bind, bind_checked, hmax, Bucket.refill, hnew,
    Nat.cast_pos]
  rw [refillFits_iff]
  rcases Nat.eq_zero_or_pos (nowMillis - bucket.lastRefillMillis) with hzero | hpos
  · -- No time has passed, and the source does not come to the product.
    have hnone : bucket.newTokens config nowMillis = 0 := by
      rw [Bucket.newTokens, hzero, Nat.cast_zero, zero_mul, Int.zero_tdiv]
    simp only [hzero, hnone, lt_irrefl, if_false, false_and, Nat.cast_zero, zero_mul, Fits.zero,
      false_implies, and_true, Option.ite_none_right_eq_some, Option.some.injEq, @eq_comm _ refilled]
  · simp only [hpos, if_true, true_and]
    by_cases hnew : 0 < bucket.newTokens config nowMillis
    · simp only [hnew, if_true, true_implies, Option.ite_none_right_eq_some, Option.some.injEq,
        and_assoc, @eq_comm _ refilled]
    · simp only [hnew, if_false, false_implies, and_true, Option.ite_none_right_eq_some,
        Option.some.injEq, and_assoc, @eq_comm _ refilled]

theorem Bucket.takeChecked_eq_some {taken : Option Bucket} :
    bucket.takeChecked = some taken ↔
      (0 < bucket.tokens → Fits 64 (bucket.tokens - 1)) ∧ taken = bucket.take := by
  simp only [Bucket.takeChecked, i64, Option.bind_eq_bind, bind_checked, Bucket.take]
  by_cases htoken : 0 < bucket.tokens
  · simp only [htoken, if_true, true_implies, Option.ite_none_right_eq_some, Option.some.injEq,
      @eq_comm _ taken]
  · simp only [htoken, if_false, false_implies, true_and, Option.some.injEq, @eq_comm _ taken]

/-- The checked operations on the bucket of a query go through exactly when they fit, and then do what
the operations without checks do. -/
theorem Bucket.spendChecked_eq_some {spent : Bool × Bucket} :
    bucket.spendChecked config nowMillis = some spent ↔
      SpendFits config nowMillis { bucket with lastSeenMillis := nowMillis } ∧
        spent = bucket.spend config nowMillis := by
  rw [spendFits_iff]
  unfold Bucket.spendChecked Bucket.spend
  generalize ({ bucket with lastSeenMillis := nowMillis } : Bucket) = seen
  constructor
  · intro h
    obtain ⟨refilled, hrefilled, h⟩ := Option.bind_eq_some_iff.mp h
    obtain ⟨hrefill, rfl⟩ := Bucket.refillChecked_eq_some.mp hrefilled
    obtain ⟨taken, htaken, h⟩ := Option.bind_eq_some_iff.mp h
    obtain ⟨htake, rfl⟩ := Bucket.takeChecked_eq_some.mp htaken
    refine ⟨⟨hrefill, htake⟩, ?_⟩
    cases hafter : (seen.refill config nowMillis).take with
    | none =>
        rw [hafter] at h
        simp only [hafter]
        exact (Option.some.inj h).symm
    | some left =>
        rw [hafter] at h
        simp only [hafter]
        exact (Option.some.inj h).symm
  · rintro ⟨⟨hrefill, htake⟩, rfl⟩
    rw [Option.bind_eq_bind, Bucket.refillChecked_eq_some.mpr ⟨hrefill, rfl⟩, Option.bind_some,
      Option.bind_eq_bind, Bucket.takeChecked_eq_some.mpr ⟨htake, rfl⟩, Option.bind_some]
    cases hafter : (seen.refill config nowMillis).take with
    | none => simp only [hafter]
    | some left => simp only [hafter]

end Bucket

/-! ### The duplicate policy never fails -/

theorem i64_natCast_add {n k : Nat} (h : n + k < 2 ^ 63) : i64 ((n : Int) + k) = some ((n + k : Nat) : Int) := by
  rw [← Nat.cast_add]
  exact checked_of_fits ⟨by omega, by omega⟩

theorem DomainRateBucket.countChecked_eq (nowSec : Nat) (bucket : DomainRateBucket) :
    bucket.countChecked nowSec = some (bucket.count nowSec) := by
  have hcount : bucket.state % 2 ^ 32 < 2 ^ 32 := Nat.mod_lt _ (by omega)
  unfold DomainRateBucket.countChecked DomainRateBucket.count
  simp only
  split
  · rfl
  · rw [Option.bind_eq_bind, show ((1 : Int) = ((1 : Nat) : Int)) from rfl, i64_natCast_add (by omega),
      Option.bind_some, Int.toNat_natCast]

theorem DomainRateBucket.judgeChecked_eq {nowSec : Nat} (h : nowSec + 3 < 2 ^ 63)
    (bucket : DomainRateBucket) : bucket.judgeChecked nowSec = some (bucket.judge nowSec) := by
  have hdeadline : i64 ((nowSec : Int) + 3) = some ((nowSec + 3 : Nat) : Int) := i64_natCast_add h
  unfold DomainRateBucket.judgeChecked DomainRateBucket.judge
  rw [hdeadline, countChecked_eq]
  simp only [Option.bind_eq_bind, Option.bind_some, Int.toNat_natCast]
  split
  · rfl
  · split
    · rfl
    · split
      · rfl
      · rfl

theorem checkDuplicateChecked_eq {nowSec : Nat} (h : nowSec + 3 < 2 ^ 63) (key : Text)
    (limiter : RateLimiter) :
    checkDuplicateChecked nowSec key limiter = some (checkDuplicate nowSec key limiter) := by
  have hjudge : DomainRateBucket.judgeChecked nowSec = fun bucket => some (bucket.judge nowSec) :=
    funext (DomainRateBucket.judgeChecked_eq h)
  rw [checkDuplicateChecked, checkDuplicate, hjudge]
  -- The counts and the size of the table stay closed here: reducing them on open terms does not end.
  generalize DomainRateBucket.judge nowSec = judge
  generalize maxTrackedRrlEntries = limit
  generalize DomainRateBucket.fresh nowSec = fresh
  cases findRrl key limiter.rrlBuckets with
  | none =>
      by_cases hfull : limit ≤ limiter.rrlBuckets.length
      · exact (if_pos hfull).trans (congrArg some (if_pos hfull)).symm
      · exact (if_neg hfull).trans (congrArg some (if_neg hfull)).symm
  | some bucket => rfl

/-! ### A query -/

section Query

variable {config : LimiterConfig} {nowMillis : Nat} {protocol : Protocol} {clientIp : IpAddr}
  {qname : Name} {qtype : RecordType} {limiter : RateLimiter}

/-- What has to fit for a query to go through: the operations on the bucket it comes to, if any. -/
def QueryFits (config : LimiterConfig) (nowMillis : Nat) (protocol : Protocol) (clientIp : IpAddr)
    (qtype : RecordType) (limiter : RateLimiter) : Prop :=
  comesTo (toSubnet clientIp) protocol clientIp qtype = true →
    SpendFits config nowMillis
      { bucketAt config nowMillis (limiter.subnetBuckets (toSubnet clientIp)) with
        lastSeenMillis := nowMillis }

theorem clock_second_lt (htime : nowMillis ≤ lastReading) : nowMillis / 1000 + 3 < 2 ^ 63 := by
  unfold lastReading at htime
  omega

/-- A query that has to pay a token goes through when the operations on its bucket do. -/
theorem checkQueryChecked_counted (htime : nowMillis ≤ lastReading)
    (hloopback : ¬ isLoopback clientIp = true) (hany : ¬ (protocol = .udp ∧ qtype = .ANY)) :
    checkQueryChecked config nowMillis protocol clientIp qname qtype limiter =
      ((bucketAt config nowMillis (limiter.subnetBuckets (toSubnet clientIp))).spendChecked config
        nowMillis).map fun _ => checkQuery config nowMillis protocol clientIp qname qtype limiter := by
  rw [checkQuery_counted config nowMillis protocol clientIp qname qtype limiter hloopback hany]
  unfold checkQueryChecked
  rw [if_neg hloopback, if_neg hany]
  simp only [checkDuplicateChecked_eq (clock_second_lt htime)]
  generalize checkDuplicate (nowMillis / 1000) = duplicate
  unfold spentLimiter bucketAt
  generalize (limiter.subnetBuckets (toSubnet clientIp)).getD (.full config nowMillis) = bucket
  cases hspend : bucket.spendChecked config nowMillis with
  | none => rfl
  | some spent =>
      obtain ⟨-, rfl⟩ := Bucket.spendChecked_eq_some.mp hspend
      -- What follows on the bucket cannot fail.
      rw [Option.map_some, apply_ite some, apply_ite some]

/-- Until the end of the year 9999 a query goes through exactly when the operations on its bucket fit, and
it then does what the code without checks does. -/
theorem checkQueryChecked_eq_some (htime : nowMillis ≤ lastReading)
    {result : RrlAction × RateLimiter} :
    checkQueryChecked config nowMillis protocol clientIp qname qtype limiter = some result ↔
      QueryFits config nowMillis protocol clientIp qtype limiter ∧
        result = checkQuery config nowMillis protocol clientIp qname qtype limiter := by
  by_cases hloopback : isLoopback clientIp = true
  · have hfree : QueryFits config nowMillis protocol clientIp qtype limiter := by
      intro hcomes
      simp [comesTo, hloopback] at hcomes
    rw [checkQueryChecked, checkQuery, if_pos hloopback, if_pos hloopback, Option.some.injEq, eq_comm]
    exact (and_iff_right hfree).symm
  · by_cases hany : protocol = .udp ∧ qtype = .ANY
    · have hfree : QueryFits config nowMillis protocol clientIp qtype limiter := by
        intro hcomes
        simp [comesTo, hany] at hcomes
      rw [checkQueryChecked, checkQuery, if_neg hloopback, if_neg hloopback, if_pos hany, if_pos hany,
        Option.some.injEq, eq_comm]
      exact (and_iff_right hfree).symm
    · have hcomes : comesTo (toSubnet clientIp) protocol clientIp qtype = true := by
        rw [comesTo_of_counted _ hloopback hany]
        exact decide_eq_true rfl
      rw [checkQueryChecked_counted htime hloopback hany, Option.map_eq_some_iff]
      constructor
      · rintro ⟨spent, hspent, rfl⟩
        exact ⟨fun _ => (Bucket.spendChecked_eq_some.mp hspent).1, rfl⟩
      · rintro ⟨hfits, rfl⟩
        exact ⟨_, Bucket.spendChecked_eq_some.mpr ⟨hfits hcomes, rfl⟩, rfl⟩

end Query

/-- A step goes through exactly when the operations on the bucket that the event visits fit. -/
theorem limiterStepChecked_eq_some {config : LimiterConfig} {limiter result : RateLimiter}
    {event : LimiterEvent} (htime : event.time ≤ lastReading) :
    limiterStepChecked config limiter event = some result ↔
      (∀ net nowMillis, event.visit net = some (.spend nowMillis) → SpendFits config nowMillis
        { bucketAt config nowMillis (limiter.subnetBuckets net) with lastSeenMillis := nowMillis }) ∧
      result = limiterStep config limiter event := by
  cases event with
  | query nowMillis protocol clientIp qname qtype =>
      have hfits : (∀ net time,
          (LimiterEvent.query nowMillis protocol clientIp qname qtype).visit net = some (.spend time) →
            SpendFits config time
              { bucketAt config time (limiter.subnetBuckets net) with lastSeenMillis := time }) ↔
          QueryFits config nowMillis protocol clientIp qtype limiter := by
        constructor
        · intro h hcomes
          exact h (toSubnet clientIp) nowMillis (if_pos hcomes)
        · intro h net time hvisit
          obtain ⟨hcomes, hspend⟩ := Option.ite_none_right_eq_some.mp hvisit
          cases hspend
          obtain rfl : toSubnet clientIp = net := by
            simp only [comesTo, Bool.and_eq_true, decide_eq_true_eq] at hcomes
            exact hcomes.2
          exact h hcomes
      rw [hfits, limiterStepChecked, limiterStep, Option.map_eq_some_iff]
      constructor
      · rintro ⟨answer, hanswer, rfl⟩
        obtain ⟨hquery, rfl⟩ := (checkQueryChecked_eq_some htime).mp hanswer
        exact ⟨hquery, rfl⟩
      · rintro ⟨hquery, rfl⟩
        exact ⟨_, (checkQueryChecked_eq_some htime).mpr ⟨hquery, rfl⟩, rfl⟩
  | cleanup nowMillis maxAgeMillis =>
      rw [limiterStepChecked, limiterStep, Option.some.injEq, eq_comm]
      refine (and_iff_right ?_).symm
      intro net time hvisit
      cases hvisit

/-! ### Settings that keep the results small -/

/-- The bounds of a bucket that holds `most` tokens at most; a capacity below 0 is never refilled. -/
structure Bucket.Within (config : LimiterConfig) (most : Int) (bucket : Bucket) : Prop where
  refilled : bucket.lastRefillMillis ≤ lastReading
  floor : min config.capacity 0 ≤ bucket.tokens
  ceiling : bucket.tokens ≤ max most 0

/-- A full refill after the longest time fits, and so does its sum with what a used bucket can hold. -/
@[mk_iff]
structure SettingsFit (config : LimiterConfig) : Prop where
  product : Fits 64 (lastReading * config.refillPerSec)
  sum : config.capacity - 1 + (lastReading * config.refillPerSec).tdiv 1000 < 2 ^ 63

instance (config : LimiterConfig) : Decidable (SettingsFit config) :=
  decidable_of_iff' _ (settingsFit_iff config)

section Bounds

variable {config : LimiterConfig} {nowMillis : Nat} {most : Int} {bucket : Bucket}

theorem Bucket.newTokens_of_le (h : nowMillis ≤ bucket.lastRefillMillis) :
    bucket.newTokens config nowMillis = 0 := by
  rw [Bucket.newTokens, Nat.sub_eq_zero_of_le h, Nat.cast_zero, zero_mul, Int.zero_tdiv]

theorem Bucket.refill_eq (config : LimiterConfig) (nowMillis : Nat) (bucket : Bucket) :
    bucket.refill config nowMillis =
      if 0 < bucket.newTokens config nowMillis then
        { bucket with
          lastRefillMillis := nowMillis
          tokens := min (bucket.tokens + bucket.newTokens config nowMillis) config.capacity }
      else bucket := by
  rw [Bucket.refill]
  by_cases hnew : 0 < bucket.newTokens config nowMillis
  · have helapsed : 0 < nowMillis - bucket.lastRefillMillis := by
      by_contra hnone
      rw [Bucket.newTokens_of_le (by omega)] at hnew
      exact lt_irrefl 0 hnew
    rw [if_pos hnew]
    exact if_pos ⟨helapsed, hnew⟩
  · rw [if_neg hnew]
    exact if_neg fun h => hnew h.2

theorem Bucket.within_full (htime : nowMillis ≤ lastReading) :
    (Bucket.full config nowMillis).Within config config.capacity :=
  ⟨htime, min_le_left _ _, le_max_left _ _⟩

theorem Bucket.Within.seen (h : bucket.Within config most) :
    Bucket.Within config most { bucket with lastSeenMillis := nowMillis } :=
  ⟨h.refilled, h.floor, h.ceiling⟩

theorem Bucket.Within.refill (h : bucket.Within config most) (hmost : most ≤ config.capacity)
    (htime : nowMillis ≤ lastReading) :
    (bucket.refill config nowMillis).Within config config.capacity := by
  have hfloor := h.floor
  have hceiling := h.ceiling
  rw [Bucket.refill_eq]
  split
  · refine ⟨htime, ?_, ?_⟩
    · show min config.capacity 0 ≤ min (bucket.tokens + bucket.newTokens config nowMillis) config.capacity
      omega
    · exact (min_le_right _ _).trans (le_max_left _ _)
  · exact ⟨h.refilled, hfloor, by omega⟩

/-- The bucket of a query before a token is taken, when the stored bucket had been used. -/
theorem readyBucket_within {held : Option Bucket} (htime : nowMillis ≤ lastReading)
    (hheld : ∀ stored, held = some stored → stored.Within config (config.capacity - 1)) :
    (readyBucket config nowMillis held).Within config config.capacity := by
  cases held with
  | none =>
      rw [readyBucket_none]
      exact Bucket.within_full htime
  | some stored => exact (hheld stored rfl).seen.refill (by omega) htime

/-- The bucket after a query has been used. -/
theorem spent_within {held : Option Bucket}
    (hready : (readyBucket config nowMillis held).Within config config.capacity) :
    ((bucketAt config nowMillis held).spend config nowMillis).2.Within config (config.capacity - 1) := by
  have hceiling := hready.ceiling
  rw [spend_eq]
  split
  · refine ⟨hready.refilled, ?_, ?_⟩
    · show min config.capacity 0 ≤ (readyBucket config nowMillis held).tokens - 1
      omega
    · show (readyBucket config nowMillis held).tokens - 1 ≤ max (config.capacity - 1) 0
      omega
  · refine ⟨hready.refilled, hready.floor, ?_⟩
    show (readyBucket config nowMillis held).tokens ≤ max (config.capacity - 1) 0
    omega

theorem RefillFits.of_le (hrefilled : bucket.lastRefillMillis ≤ lastReading)
    (h : nowMillis ≤ bucket.lastRefillMillis) : RefillFits config nowMillis bucket := by
  unfold lastReading at hrefilled
  refine ⟨⟨by omega, by omega⟩, ?_, fun hnew => ?_⟩
  · rw [Nat.sub_eq_zero_of_le h, Nat.cast_zero, zero_mul]
    exact Fits.zero
  · rw [Bucket.newTokens_of_le h] at hnew
    exact absurd hnew (lt_irrefl 0)

/-- The tokens of a refill are at most those of the longest time. -/
theorem Bucket.newTokens_le (htime : nowMillis ≤ lastReading)
    (hnew : 0 < bucket.newTokens config nowMillis) :
    bucket.newTokens config nowMillis ≤ (lastReading * config.refillPerSec).tdiv 1000 := by
  have helapsed : ((nowMillis - bucket.lastRefillMillis : Nat) : Int) ≤ lastReading := by omega
  rcases le_total 0 config.refillPerSec with hrate | hrate
  · exact Int.tdiv_le_tdiv (by omega) (mul_le_mul_of_nonneg_right helapsed hrate)
  · have hnone : bucket.newTokens config nowMillis ≤ (0 : Int).tdiv 1000 :=
      Int.tdiv_le_tdiv (by omega) (mul_nonpos_of_nonneg_of_nonpos (Nat.cast_nonneg _) hrate)
    rw [Int.zero_tdiv] at hnone
    omega

/-- The refill of a bucket that was used. -/
theorem SettingsFit.refillFits (h : SettingsFit config) (hcapacity : Fits 64 config.capacity)
    (htime : nowMillis ≤ lastReading) (hused : bucket.Within config (config.capacity - 1)) :
    RefillFits config nowMillis bucket := by
  have hrefilled := hused.refilled
  have hfloor := hused.floor
  have hceiling := hused.ceiling
  have hsum := h.sum
  have hlow := hcapacity.1
  refine ⟨?_, h.product.mul_of_le (Nat.cast_nonneg _) (by omega), fun hnew => ?_⟩
  · unfold lastReading at htime hrefilled
    exact ⟨by omega, by omega⟩
  · have hmost := Bucket.newTokens_le htime hnew
    have hthousandth : (lastReading * config.refillPerSec).tdiv 1000 < 2 ^ 63 :=
      (h.product.tdiv (by omega)).2
    exact ⟨by omega, by omega⟩

/-- The operations on the bucket of a query fit, when the stored bucket had been used. -/
theorem SettingsFit.spendFits (h : SettingsFit config) (hcapacity : Fits 64 config.capacity)
    {held : Option Bucket} (htime : nowMillis ≤ lastReading)
    (hheld : ∀ stored, held = some stored → stored.Within config (config.capacity - 1)) :
    SpendFits config nowMillis { bucketAt config nowMillis held with lastSeenMillis := nowMillis } := by
  have hready := (readyBucket_within htime hheld).ceiling
  have hhigh := hcapacity.2
  constructor
  · cases held with
    | none => exact RefillFits.of_le htime le_rfl
    | some stored => exact h.refillFits hcapacity htime (hheld stored rfl).seen
  · intro htoken
    show Fits 64 ((readyBucket config nowMillis held).tokens - 1)
    have htoken' : 0 < (readyBucket config nowMillis held).tokens := htoken
    exact ⟨by omega, by omega⟩

end Bounds

/-! ### Runs -/

/-- All stored buckets of a limiter have been used. -/
def LimiterWithin (config : LimiterConfig) (limiter : RateLimiter) : Prop :=
  ∀ net stored, limiter.subnetBuckets net = some stored →
    stored.Within config (config.capacity - 1)

theorem limiterWithin_new (config : LimiterConfig) : LimiterWithin config .new :=
  fun _ _ h => nomatch h

theorem LimiterEvent.time_of_visit (event : LimiterEvent) {net : IpAddr} {nowMillis : Nat}
    (h : event.visit net = some (.spend nowMillis)) : event.time = nowMillis := by
  cases event with
  | query time protocol clientIp qname qtype =>
      obtain ⟨-, hspend⟩ := Option.ite_none_right_eq_some.mp h
      cases hspend
      rfl
  | cleanup => cases h

/-- An event keeps the bounds of the stored buckets. -/
theorem LimiterWithin.step {config : LimiterConfig} {limiter : RateLimiter} {event : LimiterEvent}
    (hlimiter : LimiterWithin config limiter) (htime : event.time ≤ lastReading) :
    LimiterWithin config (limiterStep config limiter event) := by
  intro net stored hstored
  rw [limiterStep_bucket] at hstored
  cases hvisit : event.visit net with
  | none =>
      rw [hvisit] at hstored
      exact hlimiter net stored hstored
  | some visit =>
      rw [hvisit] at hstored
      cases visit with
      | spend nowMillis =>
          obtain rfl := Option.some.inj hstored
          have hnow : event.time = nowMillis := event.time_of_visit hvisit
          exact spent_within (readyBucket_within (hnow ▸ htime) (hlimiter net))
      | prune nowMillis maxAgeMillis =>
          exact hlimiter net stored (Option.filter_eq_some_iff.mp hstored).1

/-- No operation of `check_query` overflows in a run whose clock readings are up to the year 9999. -/
def NeverOverflows (config : LimiterConfig) : Prop :=
  ∀ events : List LimiterEvent, (∀ event ∈ events, event.time ≤ lastReading) →
    (events.foldlM (limiterStepChecked config) RateLimiter.new).isSome = true

/-- Settings that keep all results small let every run go through. -/
theorem SettingsFit.neverOverflows {config : LimiterConfig} (h : SettingsFit config)
    (hcapacity : Fits 64 config.capacity) : NeverOverflows config := by
  have hgoes (limiter : RateLimiter) (event : LimiterEvent) (hlimiter : LimiterWithin config limiter)
      (htime : event.time ≤ lastReading) :
      limiterStepChecked config limiter event = some (limiterStep config limiter event) := by
    refine (limiterStepChecked_eq_some htime).mpr ⟨fun net nowMillis hvisit => ?_, rfl⟩
    have hnow := event.time_of_visit hvisit
    exact h.spendFits hcapacity (hnow ▸ htime) (hlimiter net)
  intro events hevents
  rw [foldlM_eq_foldl hgoes (fun _ _ hlimiter htime => hlimiter.step htime) (limiterWithin_new config)
    hevents]
  rfl

/-- The bucket of a network after its first query. -/
theorem visitBucket_first (config : LimiterConfig) (nowMillis : Nat) :
    visitBucket config none (.spend nowMillis) =
      some ⟨if 0 < config.capacity then config.capacity - 1 else config.capacity, nowMillis,
        nowMillis⟩ := by
  rw [visitBucket, spend_eq, readyBucket_none]
  by_cases htoken : 0 < config.capacity
  · rw [if_pos htoken]
    exact congrArg (fun spent : Bool × Bucket => some spent.2) (if_pos htoken)
  · rw [if_neg htoken]
    exact congrArg (fun spent : Bool × Bucket => some spent.2) (if_neg htoken)

/-- Two queries of one network go through only if the refill between them fits. -/
theorem refillFits_of_two_queries {config : LimiterConfig} {earlier later : Nat}
    (hearlier : earlier ≤ lastReading) (hlater : later ≤ lastReading)
    (h : ([tcpQuery earlier, tcpQuery later].foldlM (limiterStepChecked config)
      RateLimiter.new).isSome = true) :
    RefillFits config later
      ⟨if 0 < config.capacity then config.capacity - 1 else config.capacity, earlier, later⟩ := by
  obtain ⟨last, hlast⟩ := Option.isSome_iff_exists.mp h
  obtain ⟨first, hfirst, hrest⟩ := Option.bind_eq_some_iff.mp hlast
  obtain ⟨second, hsecond, -⟩ := Option.bind_eq_some_iff.mp hrest
  obtain ⟨-, rfl⟩ := (limiterStepChecked_eq_some (show (tcpQuery earlier).time ≤ lastReading from hearlier)).mp hfirst
  obtain ⟨hfits, -⟩ := (limiterStepChecked_eq_some (show (tcpQuery later).time ≤ lastReading from hlater)).mp hsecond
  have hvisit (nowMillis : Nat) : (tcpQuery nowMillis).visit someNetwork = some (.spend nowMillis) := rfl
  have hspend := hfits someNetwork later (hvisit later)
  have hbucket : (limiterStep config .new (tcpQuery earlier)).subnetBuckets someNetwork =
      visitBucket config none (.spend earlier) := by
    rw [limiterStep_bucket, hvisit]
    rfl
  rw [hbucket, visitBucket_first] at hspend
  exact hspend.refill

/-- Settings with which every run goes through keep the results small: the run is a query at the start of
the clock and one at its end. -/
theorem NeverOverflows.settingsFit {config : LimiterConfig} (h : NeverOverflows config)
    (hcapacity : Fits 64 config.capacity) : SettingsFit config := by
  have hrefill := refillFits_of_two_queries (Nat.zero_le _) le_rfl
    (h [tcpQuery 0, tcpQuery lastReading] (by simp [tcpQuery, LimiterEvent.time]))
  have hproduct : Fits 64 (lastReading * config.refillPerSec) := hrefill.product
  have hsum : 0 < (lastReading * config.refillPerSec).tdiv 1000 →
      Fits 64 ((if 0 < config.capacity then config.capacity - 1 else config.capacity) +
        (lastReading * config.refillPerSec).tdiv 1000) := hrefill.sum
  have hthousandth := (hproduct.tdiv (show (0 : Int) ≤ 1000 by omega)).2
  have hhigh := hcapacity.2
  refine ⟨hproduct, ?_⟩
  by_cases hnew : 0 < (lastReading * config.refillPerSec).tdiv 1000
  · have htop := (hsum hnew).2
    split at htop
    · omega
    · omega
  · omega

/-- The limiter that `main` starts: `RATE_LIMIT_BURST` and `RATE_LIMIT_PER_SEC` where they are set and
parse, else the defaults. -/
def mainLimiter (platform : Platform) (subnetText : IpAddr → Text) (burst perSec : Option Int64) :
    LimiterConfig where
  platform := platform
  subnetText := subnetText
  capacity := (burst.getD 300).toInt
  refillPerSec := (perSec.getD 60).toInt

/-- In terms of the settings: the rate is below 36399 tokens a second either way, and the burst leaves room
for the tokens of the longest time. -/
theorem settingsFit_iff_rate (config : LimiterConfig) :
    SettingsFit config ↔ (-36398 ≤ config.refillPerSec ∧ config.refillPerSec ≤ 36398) ∧
      config.capacity - 1 + (lastReading * config.refillPerSec).tdiv 1000 < 2 ^ 63 := by
  have hrate : Fits 64 (lastReading * config.refillPerSec) ↔
      -36398 ≤ config.refillPerSec ∧ config.refillPerSec ≤ 36398 := by
    unfold Fits lastReading
    constructor
    · rintro ⟨hlow, hhigh⟩
      exact ⟨by omega, by omega⟩
    · rintro ⟨hlow, hhigh⟩
      exact ⟨by omega, by omega⟩
  rw [settingsFit_iff, hrate]

/-- **When the limiter never overflows.** For all settings that `main` accepts, every run that ends by the
year 9999 goes through with overflow checks if and only if a refill after the longest time fits, with the
tokens of a used bucket added. -/
theorem neverOverflows_iff (platform : Platform) (subnetText : IpAddr → Text)
    (burst perSec : Option Int64) :
    NeverOverflows (mainLimiter platform subnetText burst perSec) ↔
      SettingsFit (mainLimiter platform subnetText burst perSec) := by
  have hcapacity : Fits 64 (mainLimiter platform subnetText burst perSec).capacity :=
    ⟨Int64.le_toInt _, Int64.toInt_lt _⟩
  exact ⟨fun h => h.settingsFit hcapacity, fun h => h.neverOverflows hcapacity⟩

/-- The defaults. -/
example : SettingsFit (mainLimiter .plain (fun _ => []) none none) := by decide

/-- A rate that is meant to switch the limit off ends the server at the second query of a network. -/
theorem unlimited_rate_overflows :
    ¬ ∀ (platform : Platform) (subnetText : IpAddr → Text) (burst perSec : Option Int64),
      NeverOverflows (mainLimiter platform subnetText burst perSec) := by
  intro h
  have hrefill := refillFits_of_two_queries (by decide) (by decide)
    (h .plain (fun _ => []) none (some Int64.maxValue)
      [tcpQuery 1700000000000, tcpQuery 1700000000002] (by decide))
  exact absurd hrefill.product (by decide)

end Engine
end UnifiedDns
