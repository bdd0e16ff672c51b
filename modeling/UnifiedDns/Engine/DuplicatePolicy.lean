import Mathlib.Data.List.Chain
import UnifiedDns.Engine.TokenBucket
import UnifiedDns.Lib.Runs

/-!
# The duplicate policy over whole runs

What the clients of a network that ask again for the same name and type over UDP are told, over runs with
cleanup passes and other traffic.

* `judgments` — the verdicts of the policy on one key, in order.
* `Penalised` — the law of the penalty: after a drop everything is dropped until a gap of three seconds.
* `PenaltySpared` — a cleanup pass that leaves a running penalty alone.
* `duplicate_policy` — the policy holds in every run whose passes do.
* `penalty_forgotten` — a run with a pass that does not.
-/

namespace UnifiedDns
namespace Engine

/-- The second of the packed state. -/
def DomainRateBucket.epoch (bucket : DomainRateBucket) : Nat := bucket.state / 2 ^ 32

/-- The count of the packed state. -/
def DomainRateBucket.queries (bucket : DomainRateBucket) : Nat := bucket.state % 2 ^ 32

/-- The query comes to the policy under `key`: it came over UDP and got a token. -/
def judged (config : LimiterConfig) (key : Text) (limiter : RateLimiter) : LimiterEvent → Bool
  | .query nowMillis protocol clientIp qname qtype =>
      decide (protocol = .udp) && decide (rrlKey config (toSubnet clientIp) qname qtype = key) &&
        acquires config (toSubnet clientIp) limiter (.query nowMillis protocol clientIp qname qtype)
  | .cleanup _ _ => false

/-- The verdict of the policy on an event, with its second. -/
def judgment (config : LimiterConfig) (key : Text) (limiter : RateLimiter) :
    LimiterEvent → Option (Nat × RrlAction)
  | .query nowMillis protocol clientIp qname qtype =>
      if judged config key limiter (.query nowMillis protocol clientIp qname qtype) then
        some (nowMillis / 1000, (checkQuery config nowMillis protocol clientIp qname qtype limiter).1)
      else none
  | .cleanup _ _ => none

/-- The verdicts on one key in a run. -/
def judgments (config : LimiterConfig) (key : Text) :
    RateLimiter → List LimiterEvent → List (Nat × RrlAction)
  | _, [] => []
  | limiter, event :: rest =>
      (judgment config key limiter event).toList ++
        judgments config key (limiterStep config limiter event) rest

/-- The key is tracked, or the table has room for it. -/
def RoomFor (key : Text) (limiter : RateLimiter) : Prop :=
  findRrl key limiter.rrlBuckets ≠ none ∨ limiter.rrlBuckets.length < maxTrackedRrlEntries

/-- A query that comes to the policy finds room for its key. -/
def FindsRoom (config : LimiterConfig) (key : Text) (limiter : RateLimiter) (event : LimiterEvent) :
    Prop :=
  judged config key limiter event = true → RoomFor key limiter

/-- A cleanup pass keeps the entry of the key while its penalty runs. -/
def PenaltySpared (key : Text) (limiter : RateLimiter) : LimiterEvent → Prop
  | .query .. => True
  | .cleanup nowMillis maxAgeMillis => ∀ bucket, findRrl key limiter.rrlBuckets = some bucket →
      nowMillis / 1000 < bucket.penalizedUntilSec →
        ((nowMillis : Int) - maxAgeMillis).tdiv 1000 ≤ (bucket.epoch : Int)

/-- After a drop, a query within three seconds of it is dropped. -/
def Penalised (earlier later : Nat × RrlAction) : Prop :=
  earlier.2 = .drop → later.1 < earlier.1 + 3 → later.2 = .drop

/-! ### The table -/

section Table

variable {key other : Text} {bucket : DomainRateBucket} {table : List (Text × DomainRateBucket)}

theorem findRrl_cons (key : Text) (entry : Text × DomainRateBucket)
    (table : List (Text × DomainRateBucket)) :
    findRrl key (entry :: table) = if entry.1 = key then some entry.2 else findRrl key table := by
  unfold findRrl
  by_cases hkey : entry.1 = key
  · rw [List.find?_cons_of_pos (by simpa using hkey), if_pos hkey]
    rfl
  · rw [List.find?_cons_of_neg (by simpa using hkey), if_neg hkey]

@[simp] theorem findRrl_storeRrl_self (key : Text) (bucket : DomainRateBucket)
    (table : List (Text × DomainRateBucket)) :
    findRrl key (storeRrl key bucket table) = some bucket := by
  induction table with
  | nil => simp [storeRrl, findRrl_cons]
  | cons entry rest ih =>
      unfold storeRrl
      split
      · simp [findRrl_cons]
      · next hkey => rw [findRrl_cons, if_neg hkey, ih]

theorem findRrl_storeRrl_of_ne (hne : other ≠ key) :
    findRrl key (storeRrl other bucket table) = findRrl key table := by
  induction table with
  | nil => simp [storeRrl, findRrl_cons, hne]
  | cons entry rest ih =>
      unfold storeRrl
      split
      · next hkey => rw [findRrl_cons, findRrl_cons, hkey, if_neg hne, if_neg hne]
      · rw [findRrl_cons, findRrl_cons, ih]

theorem mem_keys_storeRrl {own : Text} (h : own ∈ (storeRrl key bucket table).map Prod.fst) :
    own = key ∨ own ∈ table.map Prod.fst := by
  induction table with
  | nil => simpa [storeRrl] using h
  | cons entry rest ih =>
      unfold storeRrl at h
      split at h
      · next hkey => simpa [hkey] using h
      · rcases List.mem_cons.mp h with hfirst | hrest
        · exact Or.inr (List.mem_cons.mpr (Or.inl hfirst))
        · exact (ih hrest).imp_right (List.mem_cons_of_mem _)

theorem nodup_storeRrl (h : (table.map Prod.fst).Nodup) :
    ((storeRrl key bucket table).map Prod.fst).Nodup := by
  induction table with
  | nil => simp [storeRrl]
  | cons entry rest ih =>
      obtain ⟨hfresh, hrest⟩ := List.nodup_cons.mp h
      unfold storeRrl
      split
      · next hkey =>
          rw [hkey] at hfresh
          exact List.nodup_cons.mpr ⟨hfresh, hrest⟩
      · next hkey =>
          refine List.nodup_cons.mpr ⟨fun hmem => ?_, ih hrest⟩
          exact (mem_keys_storeRrl hmem).elim hkey hfresh

/-- With one entry for a key, a pass keeps or forgets it as a whole. -/
theorem findRrl_filter (keep : Text × DomainRateBucket → Bool) (h : (table.map Prod.fst).Nodup) :
    findRrl key (table.filter keep) = (findRrl key table).filter fun bucket => keep (key, bucket) := by
  induction table with
  | nil => rfl
  | cons entry rest ih =>
      obtain ⟨hfresh, hrest⟩ := List.nodup_cons.mp h
      obtain ⟨own, stored⟩ := entry
      by_cases hkey : own = key
      · subst hkey
        have hnone : findRrl own (rest.filter keep) = none := by
          refine Option.map_eq_none_iff.mpr (List.find?_eq_none.mpr fun other hmem hsame => ?_)
          have hother : other.1 = own := of_decide_eq_true hsame
          exact hfresh (List.mem_map.mpr ⟨other, (List.mem_filter.mp hmem).1, hother⟩)
        by_cases hkept : keep (own, stored) = true
        · rw [List.filter_cons_of_pos hkept, findRrl_cons, findRrl_cons, if_pos rfl, if_pos rfl]
          exact (if_pos hkept).symm
        · rw [List.filter_cons_of_neg hkept, findRrl_cons, if_pos rfl, hnone]
          exact (if_neg hkept).symm
      · by_cases hkept : keep (own, stored) = true
        · rw [List.filter_cons_of_pos hkept, findRrl_cons, findRrl_cons, if_neg hkey, if_neg hkey,
            ih hrest]
        · rw [List.filter_cons_of_neg hkept, findRrl_cons, if_neg hkey, ih hrest]

end Table

/-! ### One verdict -/

section Verdict

variable {nowSec : Nat}

theorem DomainRateBucket.epoch_pack (second count penalty : Nat) (hcount : count < 2 ^ 32) :
    (⟨second * 2 ^ 32 + count, penalty⟩ : DomainRateBucket).epoch = second := by
  show (second * 2 ^ 32 + count) / 2 ^ 32 = second
  omega

theorem DomainRateBucket.queries_pack (second count penalty : Nat) (hcount : count < 2 ^ 32) :
    (⟨second * 2 ^ 32 + count, penalty⟩ : DomainRateBucket).queries = count := by
  show (second * 2 ^ 32 + count) % 2 ^ 32 = count
  omega

/-- The count in a second: the first query of a new second, or one more in the stored one. -/
theorem DomainRateBucket.count_cases (hclock : nowSec < 2 ^ 32) (bucket : DomainRateBucket) :
    (bucket.epoch < nowSec ∧
      bucket.count nowSec = (1, ⟨nowSec * 2 ^ 32 + 1, bucket.penalizedUntilSec⟩)) ∨
    (nowSec ≤ bucket.epoch ∧ ∃ n, n = min (bucket.queries + 1) 4294967295 ∧
      bucket.count nowSec = (n, ⟨bucket.epoch * 2 ^ 32 + n, bucket.penalizedUntilSec⟩)) := by
  unfold DomainRateBucket.count
  by_cases hnew : bucket.epoch < nowSec
  · left
    have hpacked : nowSec * 2 ^ 32 % 2 ^ 64 = nowSec * 2 ^ 32 := by omega
    refine ⟨hnew, ?_⟩
    rw [hpacked]
    exact if_pos hnew
  · right
    exact ⟨not_lt.mp hnew, _, rfl, if_neg hnew⟩

/-- What the policy says to a query, by the penalty and the count. -/
theorem DomainRateBucket.judge_cases (hclock : nowSec < 2 ^ 32) (bucket : DomainRateBucket) :
    (nowSec < bucket.penalizedUntilSec ∧
      bucket.judge nowSec = (.drop, { bucket with penalizedUntilSec := nowSec + 3 })) ∨
    (bucket.penalizedUntilSec ≤ nowSec ∧ bucket.epoch < nowSec ∧
      bucket.judge nowSec = (.allow, ⟨nowSec * 2 ^ 32 + 1, bucket.penalizedUntilSec⟩)) ∨
    (bucket.penalizedUntilSec ≤ nowSec ∧ nowSec ≤ bucket.epoch ∧ bucket.queries = 0 ∧
      bucket.judge nowSec = (.allow, ⟨bucket.epoch * 2 ^ 32 + 1, bucket.penalizedUntilSec⟩)) ∨
    (bucket.penalizedUntilSec ≤ nowSec ∧ nowSec ≤ bucket.epoch ∧ bucket.queries = 1 ∧
      bucket.judge nowSec = (.truncate, ⟨bucket.epoch * 2 ^ 32 + 2, bucket.penalizedUntilSec⟩)) ∨
    (bucket.penalizedUntilSec ≤ nowSec ∧ nowSec ≤ bucket.epoch ∧ 2 ≤ bucket.queries ∧
      ∃ n, 2 < n ∧ n < 2 ^ 32 ∧
        bucket.judge nowSec = (.drop, ⟨bucket.epoch * 2 ^ 32 + n, nowSec + 3⟩)) := by
  unfold DomainRateBucket.judge
  by_cases hpenalty : nowSec < bucket.penalizedUntilSec
  · exact Or.inl ⟨hpenalty, if_pos hpenalty⟩
  · right
    rw [if_neg hpenalty]
    have hover := not_lt.mp hpenalty
    rcases bucket.count_cases hclock with ⟨hnew, hcount⟩ | ⟨hsame, n, hn, hcount⟩
    · rw [hcount]
      exact Or.inl ⟨hover, hnew, if_pos rfl⟩
    · right
      rw [hcount]
      have hsmall : bucket.queries < 2 ^ 32 := Nat.mod_lt _ (by decide)
      by_cases hone : n = 1
      · subst hone
        exact Or.inl ⟨hover, hsame, by omega, if_pos rfl⟩
      · by_cases htwo : n = 2
        · subst htwo
          exact Or.inr (Or.inl ⟨hover, hsame, by omega, if_neg (by decide)⟩)
        · refine Or.inr (Or.inr ⟨hover, hsame, by omega, n, by omega, by omega, ?_⟩)
          exact (if_neg hone).trans (if_neg htwo)

/-- The entry a query meets: the stored one or a new one. -/
def entryAt (nowSec : Nat) (key : Text) (limiter : RateLimiter) : DomainRateBucket :=
  (findRrl key limiter.rrlBuckets).getD (.fresh nowSec)

theorem checkDuplicate_of_room (nowSec : Nat) {key : Text} {limiter : RateLimiter}
    (hroom : RoomFor key limiter) :
    checkDuplicate nowSec key limiter = (((entryAt nowSec key limiter).judge nowSec).1,
      { limiter with
        rrlBuckets := storeRrl key ((entryAt nowSec key limiter).judge nowSec).2
          limiter.rrlBuckets }) := by
  unfold checkDuplicate entryAt
  unfold RoomFor at hroom
  -- The counts and the size of the table stay closed here: reducing them on open terms does not end.
  generalize DomainRateBucket.judge nowSec = judge at *
  generalize maxTrackedRrlEntries = limit at *
  generalize DomainRateBucket.fresh nowSec = fresh at *
  cases hfind : findRrl key limiter.rrlBuckets with
  | none =>
      have hfits : ¬ limit ≤ limiter.rrlBuckets.length :=
        not_le.mpr (hroom.resolve_left (fun hfound => hfound hfind))
      rw [Option.getD_none]
      cases judge fresh
      exact if_neg hfits
  | some bucket =>
      rw [Option.getD_some]

/-- Whatever the verdict, the other keys keep their entries. -/
theorem checkDuplicate_others (nowSec : Nat) (key : Text) (limiter : RateLimiter) :
    (checkDuplicate nowSec key limiter).2.rrlBuckets = limiter.rrlBuckets ∨
      ∃ bucket, (checkDuplicate nowSec key limiter).2.rrlBuckets =
        storeRrl key bucket limiter.rrlBuckets := by
  by_cases hroom : RoomFor key limiter
  · rw [checkDuplicate_of_room nowSec hroom]
    exact Or.inr ⟨_, rfl⟩
  · left
    obtain ⟨hnone, hfull⟩ : findRrl key limiter.rrlBuckets = none ∧
        ¬ limiter.rrlBuckets.length < maxTrackedRrlEntries := by
      simpa only [RoomFor, not_or, not_not, ne_eq] using hroom
    unfold checkDuplicate
    generalize DomainRateBucket.judge nowSec = judge
    generalize maxTrackedRrlEntries = limit at *
    generalize DomainRateBucket.fresh nowSec = fresh
    rw [hnone]
    exact congrArg (fun r : RrlAction × RateLimiter => r.2.rrlBuckets) (if_pos (not_lt.mp hfull))

end Verdict

/-! ### One event -/

section Event

variable {config : LimiterConfig} {key : Text} {limiter : RateLimiter}

/-- A query comes to the duplicate policy under its own key, or leaves the table alone. -/
theorem checkQuery_duplicate (config : LimiterConfig) (limiter : RateLimiter) (nowMillis : Nat)
    (protocol : Protocol) (clientIp : IpAddr) (qname : Name) (qtype : RecordType) :
    (judged config (rrlKey config (toSubnet clientIp) qname qtype) limiter
        (.query nowMillis protocol clientIp qname qtype) = true ∧
      ∃ spent : RateLimiter, spent.rrlBuckets = limiter.rrlBuckets ∧
        checkQuery config nowMillis protocol clientIp qname qtype limiter =
          checkDuplicate (nowMillis / 1000) (rrlKey config (toSubnet clientIp) qname qtype) spent) ∨
    ((∀ own, judged config own limiter (.query nowMillis protocol clientIp qname qtype) = false) ∧
      (checkQuery config nowMillis protocol clientIp qname qtype limiter).2.rrlBuckets =
        limiter.rrlBuckets) := by
  have hspend : acquires config (toSubnet clientIp) limiter
      (.query nowMillis protocol clientIp qname qtype) =
        (comesTo (toSubnet clientIp) protocol clientIp qtype && ((bucketAt config nowMillis
          (limiter.subnetBuckets (toSubnet clientIp))).spend config nowMillis).1) := rfl
  by_cases hloopback : isLoopback clientIp = true
  · rw [checkQuery, if_pos hloopback]
    exact Or.inr ⟨fun own => by simp [judged, hspend, comesTo, hloopback], rfl⟩
  · by_cases hany : protocol = .udp ∧ qtype = .ANY
    · have hcomes : comesTo (toSubnet clientIp) protocol clientIp qtype = false := by
        simp [comesTo, hany]
      rw [hcomes, Bool.false_and] at hspend
      rw [checkQuery, if_neg hloopback, if_pos hany]
      exact Or.inr ⟨fun own => by rw [judged, hspend, Bool.and_false], rfl⟩
    · rw [comesTo_of_counted _ hloopback hany, decide_eq_true rfl, Bool.true_and] at hspend
      rw [checkQuery_counted config nowMillis protocol clientIp qname qtype limiter hloopback hany,
        ← hspend]
      by_cases htoken : acquires config (toSubnet clientIp) limiter
          (.query nowMillis protocol clientIp qname qtype) = false
      · rw [if_pos htoken]
        exact Or.inr ⟨fun own => by rw [judged, htoken, Bool.and_false], rfl⟩
      · rw [if_neg htoken]
        by_cases hudp : protocol ≠ .udp
        · rw [if_pos hudp]
          exact Or.inr ⟨fun own => by simp [judged, hudp], rfl⟩
        · rw [if_neg hudp]
          refine Or.inl ⟨?_, spentLimiter config nowMillis clientIp limiter, rfl, rfl⟩
          simpa [judged, htoken] using hudp

/-- A query that comes to the policy under `key` is judged by the entry of the key, and the verdict
changes that entry alone. -/
theorem judgment_inv (config : LimiterConfig) (key : Text) (limiter : RateLimiter) (nowMillis : Nat)
    (protocol : Protocol) (clientIp : IpAddr) (qname : Name) (qtype : RecordType)
    (hroom : FindsRoom config key limiter (.query nowMillis protocol clientIp qname qtype)) :
    let event := LimiterEvent.query nowMillis protocol clientIp qname qtype
    let verdict := (entryAt (nowMillis / 1000) key limiter).judge (nowMillis / 1000)
    (judgment config key limiter event = some (nowMillis / 1000, verdict.1) ∧
      (limiterStep config limiter event).rrlBuckets = storeRrl key verdict.2 limiter.rrlBuckets) ∨
    (judgment config key limiter event = none ∧
      ((limiterStep config limiter event).rrlBuckets = limiter.rrlBuckets ∨
        ∃ other bucket, other ≠ key ∧ (limiterStep config limiter event).rrlBuckets =
          storeRrl other bucket limiter.rrlBuckets)) := by
  intro event verdict
  rcases checkQuery_duplicate config limiter nowMillis protocol clientIp qname qtype with
    ⟨hjudged, spent, hspent, hquery⟩ | ⟨hnever, hsame⟩
  · by_cases hkey : rrlKey config (toSubnet clientIp) qname qtype = key
    · left
      subst hkey
      have hroomSpent : RoomFor (rrlKey config (toSubnet clientIp) qname qtype) spent := by
        rw [RoomFor, hspent]
        exact hroom hjudged
      have hentry : entryAt (nowMillis / 1000) (rrlKey config (toSubnet clientIp) qname qtype) spent =
          entryAt (nowMillis / 1000) (rrlKey config (toSubnet clientIp) qname qtype) limiter := by
        rw [entryAt, entryAt, hspent]
      rw [checkDuplicate_of_room _ hroomSpent, hentry, hspent] at hquery
      constructor
      · show (if judged config _ limiter event then
          some (nowMillis / 1000, (checkQuery config nowMillis protocol clientIp qname qtype limiter).1)
            else none) = _
        rw [if_pos hjudged, hquery]
      · show (checkQuery config nowMillis protocol clientIp qname qtype limiter).2.rrlBuckets = _
        rw [hquery]
    · right
      have hnot : judged config key limiter event = false := by
        show (_ && decide (rrlKey config (toSubnet clientIp) qname qtype = key) && _) = false
        rw [decide_eq_false hkey, Bool.and_false, Bool.false_and]
      refine ⟨if_neg (by rw [hnot]; exact Bool.false_ne_true), ?_⟩
      show (checkQuery config nowMillis protocol clientIp qname qtype limiter).2.rrlBuckets = _ ∨ _
      rw [hquery, ← hspent]
      rcases checkDuplicate_others (nowMillis / 1000) (rrlKey config (toSubnet clientIp) qname qtype)
        spent with hleft | ⟨bucket, hstored⟩
      · exact Or.inl hleft
      · refine Or.inr ⟨_, bucket, hkey, ?_⟩
        show (checkQuery config nowMillis protocol clientIp qname qtype limiter).2.rrlBuckets = _
        rw [hquery, hstored]
  · right
    exact ⟨if_neg (by rw [hnever key]; exact Bool.false_ne_true), Or.inl hsame⟩

end Event

/-! ### The verdicts so far and the entry -/

/-- What the entry of a key knows of the verdicts so far, for queries from `nowMillis` on. A missing
entry has nothing left to know. -/
def EntryKnows (nowMillis : Nat) (history : List (Nat × RrlAction)) : Option DomainRateBucket → Prop
  | none =>
      (∀ second action, (second, action) ∈ history → action ≠ .drop → second < nowMillis / 1000) ∧
        ∀ second, history.getLast? = some (second, .drop) → second + 3 ≤ nowMillis / 1000
  | some bucket =>
      bucket.epoch ≤ nowMillis / 1000 ∧
        (∀ second action, (second, action) ∈ history → action ≠ .drop → second ≤ bucket.epoch) ∧
        (bucket.queries = 0 → (bucket.epoch, .allow) ∉ history) ∧
        (bucket.queries ≤ 1 → (bucket.epoch, .truncate) ∉ history) ∧
        ∀ second, history.getLast? = some (second, .drop) →
          second + 3 ≤ bucket.penalizedUntilSec ∨ second + 3 ≤ nowMillis / 1000

/-- The law of the policy on a list of verdicts. -/
structure PolicyHolds (history : List (Nat × RrlAction)) : Prop where
  allowOnce : ∀ second, history.count (second, .allow) ≤ 1
  truncateOnce : ∀ second, history.count (second, .truncate) ≤ 1
  penalised : history.IsChain Penalised

structure PolicyInvariant (key : Text) (nowMillis : Nat) (history : List (Nat × RrlAction))
    (limiter : RateLimiter) : Prop where
  holds : PolicyHolds history
  keys : (limiter.rrlBuckets.map Prod.fst).Nodup
  knows : EntryKnows nowMillis history (findRrl key limiter.rrlBuckets)

section Invariant

variable {key : Text} {nowMillis : Nat} {history : List (Nat × RrlAction)} {limiter : RateLimiter}

theorem EntryKnows.later {entry : Option DomainRateBucket} (h : EntryKnows nowMillis history entry)
    {later : Nat} (hlater : nowMillis ≤ later) : EntryKnows later history entry := by
  have hseconds : nowMillis / 1000 ≤ later / 1000 := Nat.div_le_div_right hlater
  cases entry with
  | none =>
      exact ⟨fun second action hmem hnot => (h.1 second action hmem hnot).trans_le hseconds,
        fun second hlast => (h.2 second hlast).trans hseconds⟩
  | some bucket =>
      obtain ⟨hepoch, hseen, hallow, htruncate, hlast⟩ := h
      exact ⟨hepoch.trans hseconds, hseen, hallow, htruncate, fun second hdrop =>
        (hlast second hdrop).imp_right fun hpast => hpast.trans hseconds⟩

theorem count_append_le {entry verdict : Nat × RrlAction} (hcount : history.count entry ≤ 1)
    (hnew : verdict = entry → verdict ∉ history) : (history ++ [verdict]).count entry ≤ 1 := by
  rw [List.count_append, List.count_singleton]
  by_cases hsame : verdict = entry
  · rw [← hsame, List.count_eq_zero.mpr (hnew hsame), beq_self_eq_true]
    exact le_rfl
  · rw [beq_false_of_ne hsame]
    exact hcount

/-- A verdict that is new in its second keeps the law, if no penalty runs or it is a drop. -/
theorem PolicyHolds.append (h : PolicyHolds history) {second : Nat} {action : RrlAction}
    (hnew : action ≠ .drop → (second, action) ∉ history)
    (hpenalty : ∀ earlier, history.getLast? = some (earlier, .drop) → second < earlier + 3 →
      action = .drop) : PolicyHolds (history ++ [(second, action)]) where
  allowOnce s := by
    refine count_append_le (h.allowOnce s) fun hsame => hnew ?_
    rw [(Prod.mk.inj hsame).2]
    exact RrlAction.noConfusion
  truncateOnce s := by
    refine count_append_le (h.truncateOnce s) fun hsame => hnew ?_
    rw [(Prod.mk.inj hsame).2]
    exact RrlAction.noConfusion
  penalised := by
    refine List.isChain_append.mpr ⟨h.penalised, List.isChain_singleton _, ?_⟩
    rintro ⟨earlier, verdict⟩ hlast _ ⟨⟩ hdrop hsoon
    obtain rfl : verdict = .drop := hdrop
    exact hpenalty earlier hlast hsoon

/-- A new entry knows what a missing one does. -/
theorem EntryKnows.fresh {time : Nat} (h : EntryKnows nowMillis history none) (htime : nowMillis ≤ time)
    (hclock : time / 1000 < 2 ^ 32) :
    EntryKnows time history (some (DomainRateBucket.fresh (time / 1000))) := by
  have hpacked : DomainRateBucket.fresh (time / 1000) = ⟨time / 1000 * 2 ^ 32 + 0, 0⟩ := by
    have hfits : time / 1000 * 2 ^ 32 % 2 ^ 64 = time / 1000 * 2 ^ 32 + 0 := by omega
    rw [DomainRateBucket.fresh, hfits]
  obtain ⟨hseen, hlast⟩ := h.later htime
  have hepoch := DomainRateBucket.epoch_pack (time / 1000) 0 0 (by decide)
  rw [hpacked]
  refine ⟨hepoch.le, ?_, ?_, ?_, ?_⟩
  · rw [hepoch]
    exact fun second action hmem hnot => (hseen second action hmem hnot).le
  · rw [hepoch]
    exact fun _ hmem => absurd (hseen _ _ hmem RrlAction.noConfusion) (lt_irrefl _)
  · rw [hepoch]
    exact fun _ hmem => absurd (hseen _ _ hmem RrlAction.noConfusion) (lt_irrefl _)
  · exact fun second hdrop => Or.inr (hlast second hdrop)

/-- What an entry has to be for a history with one more verdict. -/
theorem EntryKnows.append {time : Nat} {action : RrlAction} {bucket : DomainRateBucket}
    (hepoch : bucket.epoch ≤ time / 1000)
    (hseen : ∀ second verdict, (second, verdict) ∈ history → verdict ≠ .drop → second ≤ bucket.epoch)
    (hown : action ≠ .drop → time / 1000 ≤ bucket.epoch)
    (hallow : bucket.queries = 0 → (bucket.epoch, .allow) ∉ history ∧ action ≠ .allow)
    (htruncate : bucket.queries ≤ 1 → (bucket.epoch, .truncate) ∉ history ∧ action ≠ .truncate)
    (hpenalty : action = .drop → time / 1000 + 3 ≤ bucket.penalizedUntilSec) :
    EntryKnows time (history ++ [(time / 1000, action)]) (some bucket) := by
  refine ⟨hepoch, ?_, ?_, ?_, ?_⟩
  · intro second verdict hmem hnot
    rcases List.mem_append.mp hmem with hold | hnew
    · exact hseen second verdict hold hnot
    · obtain ⟨rfl, rfl⟩ := Prod.mk.inj (List.mem_singleton.mp hnew)
      exact hown hnot
  · intro hnone hmem
    rcases List.mem_append.mp hmem with hold | hnew
    · exact (hallow hnone).1 hold
    · exact (hallow hnone).2 (Prod.mk.inj (List.mem_singleton.mp hnew)).2.symm
  · intro hone hmem
    rcases List.mem_append.mp hmem with hold | hnew
    · exact (htruncate hone).1 hold
    · exact (htruncate hone).2 (Prod.mk.inj (List.mem_singleton.mp hnew)).2.symm
  · intro second hlast
    rw [List.getLast?_append, List.getLast?_singleton, Option.some_or] at hlast
    obtain ⟨rfl, rfl⟩ := Prod.mk.inj (Option.some.inj hlast)
    exact Or.inl (hpenalty rfl)

/-- The entry after a query that was counted. -/
theorem EntryKnows.counted {time : Nat} {action : RrlAction} {n penalty : Nat} (hn : 0 < n)
    (hfits : n < 2 ^ 32)
    (hseen : ∀ second verdict, (second, verdict) ∈ history → verdict ≠ .drop → second ≤ time / 1000)
    (htruncate : n = 1 → (time / 1000, .truncate) ∉ history ∧ action ≠ .truncate)
    (hpenalty : action = .drop → time / 1000 + 3 ≤ penalty) :
    EntryKnows time (history ++ [(time / 1000, action)]) (some ⟨time / 1000 * 2 ^ 32 + n, penalty⟩) := by
  have hepoch := DomainRateBucket.epoch_pack (time / 1000) n penalty hfits
  have hqueries := DomainRateBucket.queries_pack (time / 1000) n penalty hfits
  apply EntryKnows.append
  · exact hepoch.le
  · rw [hepoch]
    exact hseen
  · exact fun _ => hepoch.ge
  · intro hnone
    rw [hqueries] at hnone
    exact absurd hnone hn.ne'
  · intro hone
    rw [hqueries] at hone
    rw [hepoch]
    exact htruncate (by omega)
  · exact hpenalty

/-- A verdict keeps the law, and the entry knows of it. -/
theorem EntryKnows.judge {time : Nat} (hclock : time / 1000 < 2 ^ 32) (hholds : PolicyHolds history)
    {bucket : DomainRateBucket} (hknows : EntryKnows time history (some bucket)) :
    PolicyHolds (history ++ [(time / 1000, (bucket.judge (time / 1000)).1)]) ∧
      EntryKnows time (history ++ [(time / 1000, (bucket.judge (time / 1000)).1)])
        (some (bucket.judge (time / 1000)).2) := by
  obtain ⟨hepoch, hseen, hallow, htruncate, hlast⟩ := hknows
  -- Without a running penalty there was no drop in the last three seconds.
  have hquiet (action : RrlAction) (hover : bucket.penalizedUntilSec ≤ time / 1000) (earlier : Nat)
      (hdrop : history.getLast? = some (earlier, .drop)) (hsoon : time / 1000 < earlier + 3) :
      action = .drop := by
    rcases hlast earlier hdrop with hruns | hpast <;> omega
  have hpast (second : Nat) (verdict : RrlAction) (hmem : (second, verdict) ∈ history)
      (hnot : verdict ≠ .drop) : second ≤ time / 1000 := (hseen second verdict hmem hnot).trans hepoch
  rcases bucket.judge_cases hclock with ⟨hruns, hjudge⟩ | ⟨hover, hnew, hjudge⟩ |
    ⟨hover, hsame, hcount, hjudge⟩ | ⟨hover, hsame, hcount, hjudge⟩ |
    ⟨hover, hsame, hcount, n, hn, hfits, hjudge⟩
  · -- The penalty runs, and the count stays as it was.
    rw [hjudge]
    refine ⟨hholds.append (fun hnot => absurd rfl hnot) (fun _ _ _ => rfl), ?_⟩
    exact EntryKnows.append hepoch hseen (fun hnot => absurd rfl hnot)
      (fun h => ⟨hallow h, RrlAction.noConfusion⟩) (fun h => ⟨htruncate h, RrlAction.noConfusion⟩)
      (fun _ => le_rfl)
  · rw [hjudge]
    have hunseen (action : RrlAction) (hnot : action ≠ .drop) : (time / 1000, action) ∉ history :=
      fun hmem => absurd (hseen _ _ hmem hnot) (not_le.mpr hnew)
    refine ⟨hholds.append (hunseen _) (hquiet _ hover), ?_⟩
    exact EntryKnows.counted one_pos (by decide) hpast
      (fun _ => ⟨hunseen _ RrlAction.noConfusion, RrlAction.noConfusion⟩) RrlAction.noConfusion
  all_goals
    have hnow : bucket.epoch = time / 1000 := le_antisymm hepoch hsame
    rw [hjudge, hnow]
    rw [hnow] at hallow htruncate
  · refine ⟨hholds.append (fun _ => hallow hcount) (hquiet _ hover), ?_⟩
    exact EntryKnows.counted one_pos (by decide) hpast
      (fun _ => ⟨htruncate (by omega), RrlAction.noConfusion⟩) RrlAction.noConfusion
  · refine ⟨hholds.append (fun _ => htruncate hcount.le) (hquiet _ hover), ?_⟩
    exact EntryKnows.counted two_pos (by decide) hpast (fun h => absurd h (by decide))
      RrlAction.noConfusion
  · refine ⟨hholds.append (fun hnot => absurd rfl hnot) (fun _ _ _ => rfl), ?_⟩
    exact EntryKnows.counted (by omega) hfits hpast (fun h => by omega) (fun _ => le_rfl)

end Invariant

/-! ### Runs -/

/-- The query asks for the name and type of the key from its network. -/
def comesUnder (config : LimiterConfig) (key : Text) : LimiterEvent → Prop
  | .query _ _ clientIp qname qtype => rrlKey config (toSubnet clientIp) qname qtype = key
  | .cleanup _ _ => False

/-- Queries under the key come in the order of their clock readings, and no earlier pass has read a later
time. Other traffic comes as it likes. -/
def InOrderUnder (config : LimiterConfig) (key : Text) (events : List LimiterEvent) : Prop :=
  events.Pairwise fun earlier later =>
    (comesUnder config key earlier ∨ ∃ nowMillis age, earlier = .cleanup nowMillis age) →
      comesUnder config key later → earlier.time ≤ later.time

section Run

variable {config : LimiterConfig} {key : Text} {nowMillis : Nat} {history : List (Nat × RrlAction)}
  {limiter : RateLimiter}

theorem PolicyInvariant.later (h : PolicyInvariant key nowMillis history limiter) {later : Nat}
    (hlater : nowMillis ≤ later) : PolicyInvariant key later history limiter :=
  ⟨h.holds, h.keys, h.knows.later hlater⟩

/-- An event of other traffic leaves the entry of the key alone. -/
theorem PolicyInvariant.of_others (h : PolicyInvariant key nowMillis history limiter)
    {next : RateLimiter} (hnext : next.rrlBuckets = limiter.rrlBuckets ∨ ∃ other bucket, other ≠ key ∧
      next.rrlBuckets = storeRrl other bucket limiter.rrlBuckets) :
    PolicyInvariant key nowMillis history next := by
  obtain ⟨hholds, hkeys, hknows⟩ := h
  rcases hnext with hsame | ⟨other, bucket, hother, hstored⟩
  · refine ⟨hholds, ?_, ?_⟩
    · rw [hsame]
      exact hkeys
    · rw [hsame]
      exact hknows
  · refine ⟨hholds, ?_, ?_⟩
    · rw [hstored]
      exact nodup_storeRrl hkeys
    · rw [hstored, findRrl_storeRrl_of_ne hother]
      exact hknows

theorem PolicyInvariant.query (h : PolicyInvariant key nowMillis history limiter) {time : Nat}
    {protocol : Protocol} {clientIp : IpAddr} {qname : Name} {qtype : RecordType}
    (hroom : FindsRoom config key limiter (.query time protocol clientIp qname qtype))
    (htime : nowMillis ≤ time) (hclock : time / 1000 < 2 ^ 32) :
    PolicyInvariant key time
      (history ++ (judgment config key limiter (.query time protocol clientIp qname qtype)).toList)
      (limiterStep config limiter (.query time protocol clientIp qname qtype)) := by
  rcases judgment_inv config key limiter time protocol clientIp qname qtype hroom with
    ⟨hverdict, hstored⟩ | ⟨hnone, hothers⟩
  · obtain ⟨hholds, hkeys, hknows⟩ := h
    have hentry : EntryKnows time history (some (entryAt (time / 1000) key limiter)) := by
      unfold entryAt
      cases hfind : findRrl key limiter.rrlBuckets with
      | none =>
          rw [hfind] at hknows
          exact hknows.fresh htime hclock
      | some bucket =>
          rw [hfind] at hknows
          exact hknows.later htime
    obtain ⟨hnext, hentry'⟩ := hentry.judge hclock hholds
    rw [hverdict]
    refine ⟨hnext, ?_, ?_⟩
    · rw [hstored]
      exact nodup_storeRrl hkeys
    · rw [hstored, findRrl_storeRrl_self]
      exact hentry'
  · rw [hnone, Option.toList_none, List.append_nil]
    exact (h.of_others hothers).later htime

/-- A query for another key is none of the policy's business under this one. -/
theorem PolicyInvariant.otherQuery (h : PolicyInvariant key nowMillis history limiter) {time : Nat}
    {protocol : Protocol} {clientIp : IpAddr} {qname : Name} {qtype : RecordType}
    (hother : ¬ rrlKey config (toSubnet clientIp) qname qtype = key) :
    judgment config key limiter (.query time protocol clientIp qname qtype) = none ∧
      PolicyInvariant key nowMillis history
        (limiterStep config limiter (.query time protocol clientIp qname qtype)) := by
  have hnot : judged config key limiter (.query time protocol clientIp qname qtype) = false := by
    rw [judged, decide_eq_false hother, Bool.and_false, Bool.false_and]
  have hnone : judgment config key limiter (.query time protocol clientIp qname qtype) = none := by
    rw [judgment, hnot]
    rfl
  refine ⟨hnone, ?_⟩
  rcases judgment_inv config key limiter time protocol clientIp qname qtype
    (fun hjudged => absurd hjudged (by rw [hnot]; exact Bool.false_ne_true)) with ⟨hsome, -⟩ | ⟨-, hnext⟩
  · rw [hnone] at hsome
    exact absurd hsome.symm (Option.some_ne_none _)
  · exact h.of_others hnext

theorem PolicyInvariant.cleanup (h : PolicyInvariant key nowMillis history limiter)
    {time maxAgeMillis : Nat} (hspared : PenaltySpared key limiter (.cleanup time maxAgeMillis)) :
    PolicyInvariant key (max nowMillis time) history
      (limiterStep config limiter (.cleanup time maxAgeMillis)) := by
  have hlater : nowMillis ≤ max nowMillis time := le_max_left _ _
  obtain ⟨hholds, hkeys, hknows⟩ := h
  refine ⟨hholds, hkeys.sublist (List.filter_sublist.map _), ?_⟩
  show EntryKnows _ _ (findRrl key (limiter.rrlBuckets.filter fun entry =>
    decide (((time : Int) - maxAgeMillis).tdiv 1000 ≤ (entry.2.epoch : Nat))))
  rw [findRrl_filter _ hkeys]
  cases hfind : findRrl key limiter.rrlBuckets with
  | none =>
      rw [hfind] at hknows
      exact hknows.later hlater
  | some bucket =>
      rw [hfind] at hknows
      by_cases hkept : ((time : Int) - maxAgeMillis).tdiv 1000 ≤ (bucket.epoch : Nat)
      · rw [Option.filter, if_pos (decide_eq_true hkept)]
        exact hknows.later hlater
      · rw [Option.filter, if_neg (by simpa using hkept)]
        -- A forgotten entry was quiet, and its penalty was over.
        have hover : bucket.penalizedUntilSec ≤ time / 1000 := by
          by_contra hruns
          exact hkept (hspared bucket hfind (not_le.mp hruns))
        have hquiet : bucket.epoch < time / 1000 := by
          have hpositive : 0 ≤ (time : Int) - maxAgeMillis := by
            by_contra hnegative
            have hcutoff : 0 ≤ ((maxAgeMillis : Int) - time).tdiv 1000 :=
              Int.tdiv_nonneg (by omega) (by decide)
            rw [← neg_sub, Int.neg_tdiv] at hkept
            omega
          rw [Int.tdiv_eq_ediv_of_nonneg hpositive] at hkept
          omega
        obtain ⟨-, hseen, -, -, hlast⟩ := hknows
        have hclock : time / 1000 ≤ max nowMillis time / 1000 :=
          Nat.div_le_div_right (le_max_right _ _)
        have hclock' : nowMillis / 1000 ≤ max nowMillis time / 1000 := Nat.div_le_div_right hlater
        refine ⟨fun second action hmem hnot => ?_, fun second hdrop => ?_⟩
        · exact (hseen second action hmem hnot).trans_lt (hquiet.trans_le hclock)
        · rcases hlast second hdrop with hruns | hpast
          · omega
          · omega

end Run

/-- A drop starts a penalty of three seconds. -/
def DropStartsPenalty (config : LimiterConfig) (key : Text) (limiter : RateLimiter)
    (event : LimiterEvent) : Prop :=
  ∀ second, judgment config key limiter event = some (second, .drop) →
    ∃ bucket, findRrl key (limiterStep config limiter event).rrlBuckets = some bucket ∧
      bucket.penalizedUntilSec = second + 3

section Law

variable {config : LimiterConfig} {key : Text} {nowMillis : Nat} {history : List (Nat × RrlAction)}
  {limiter : RateLimiter} {events : List LimiterEvent}

theorem dropStartsPenalty {time : Nat} {protocol : Protocol} {clientIp : IpAddr} {qname : Name}
    {qtype : RecordType}
    (hroom : FindsRoom config key limiter (.query time protocol clientIp qname qtype))
    (hclock : time / 1000 < 2 ^ 32) :
    DropStartsPenalty config key limiter (.query time protocol clientIp qname qtype) := by
  intro second hdrop
  rcases judgment_inv config key limiter time protocol clientIp qname qtype hroom with
    ⟨hverdict, hstored⟩ | ⟨hnone, -⟩
  · rw [hverdict] at hdrop
    obtain ⟨rfl, haction⟩ := Prod.mk.inj (Option.some.inj hdrop)
    rw [hstored, findRrl_storeRrl_self]
    refine ⟨_, rfl, ?_⟩
    rcases (entryAt (time / 1000) key limiter).judge_cases hclock with ⟨-, hjudge⟩ | ⟨-, -, hjudge⟩ |
      ⟨-, -, -, hjudge⟩ | ⟨-, -, -, hjudge⟩ | ⟨-, -, -, n, -, -, hjudge⟩
    all_goals rw [hjudge] at haction ⊢
    all_goals exact RrlAction.noConfusion haction
  · rw [hnone] at hdrop
    exact absurd hdrop (Option.some_ne_none _).symm

/-- The law of the policy along a run. -/
theorem PolicyInvariant.run (h : PolicyInvariant key nowMillis history limiter)
    (hnow : ∀ event ∈ events, comesUnder config key event → nowMillis ≤ event.time)
    (horder : InOrderUnder config key events)
    (hclock : ∀ event ∈ events, comesUnder config key event → event.time / 1000 < 2 ^ 32)
    (hroom : Along (limiterStep config) (FindsRoom config key) limiter events)
    (hspared : Along (limiterStep config) (PenaltySpared key) limiter events) :
    PolicyHolds (history ++ judgments config key limiter events) ∧
      Along (limiterStep config) (DropStartsPenalty config key) limiter events := by
  induction events generalizing nowMillis history limiter with
  | nil =>
      rw [judgments, List.append_nil]
      exact ⟨h.holds, trivial⟩
  | cons event rest ih =>
      obtain ⟨hroomNow, hroomRest⟩ := hroom
      obtain ⟨hsparedNow, hsparedRest⟩ := hspared
      obtain ⟨hfirst, horderRest⟩ := List.pairwise_cons.mp horder
      have hnowRest : ∀ later ∈ rest, comesUnder config key later → nowMillis ≤ later.time :=
        fun later hmem => hnow later (List.mem_cons_of_mem _ hmem)
      have hclockRest : ∀ later ∈ rest, comesUnder config key later → later.time / 1000 < 2 ^ 32 :=
        fun later hmem => hclock later (List.mem_cons_of_mem _ hmem)
      rw [judgments, ← List.append_assoc]
      cases event with
      | query time protocol clientIp qname qtype =>
          by_cases hunder : comesUnder config key (.query time protocol clientIp qname qtype)
          · have htime := hnow _ List.mem_cons_self hunder
            have hcount := hclock _ List.mem_cons_self hunder
            obtain ⟨hholds, hsteps⟩ := ih (h.query hroomNow htime hcount)
              (fun later hmem => hfirst later hmem (Or.inl hunder)) horderRest hclockRest hroomRest
              hsparedRest
            exact ⟨hholds, dropStartsPenalty hroomNow hcount, hsteps⟩
          · obtain ⟨hnone, hnext⟩ := h.otherQuery hunder
            obtain ⟨hholds, hsteps⟩ := ih hnext hnowRest horderRest hclockRest hroomRest hsparedRest
            rw [hnone, Option.toList_none, List.append_nil]
            refine ⟨hholds, fun second hdrop => ?_, hsteps⟩
            rw [hnone] at hdrop
            exact absurd hdrop (Option.some_ne_none _).symm
      | cleanup time maxAgeMillis =>
          obtain ⟨hholds, hsteps⟩ := ih (h.cleanup hsparedNow)
            (fun later hmem hunder => max_le (hnowRest later hmem hunder)
              (hfirst later hmem (Or.inr ⟨time, maxAgeMillis, rfl⟩) hunder))
            horderRest hclockRest hroomRest hsparedRest
          rw [judgment, Option.toList_none, List.append_nil]
          exact ⟨hholds, fun second hdrop => absurd hdrop (Option.some_ne_none _).symm, hsteps⟩

end Law

/-- **The duplicate policy.** In a run in which the key always finds room in the table, the clock stays
below 2^32 seconds and no cleanup pass forgets the key while its penalty runs: in a second at most one
query under the key is allowed and at most one truncated, every drop starts a penalty, and after a drop
everything is dropped until there has been a gap of three seconds. -/
theorem duplicate_policy (config : LimiterConfig) (key : Text) (events : List LimiterEvent)
    (horder : InOrderUnder config key events)
    (hclock : ∀ event ∈ events, comesUnder config key event → event.time / 1000 < 2 ^ 32)
    (hroom : Along (limiterStep config) (FindsRoom config key) .new events)
    (hspared : Along (limiterStep config) (PenaltySpared key) .new events) :
    (∀ second, (judgments config key .new events).count (second, .allow) ≤ 1 ∧
      (judgments config key .new events).count (second, .truncate) ≤ 1) ∧
    (judgments config key .new events).IsChain Penalised ∧
    Along (limiterStep config) (DropStartsPenalty config key) .new events := by
  have hstart : PolicyInvariant key 0 [] .new := by
    refine ⟨⟨fun _ => Nat.zero_le _, fun _ => Nat.zero_le _, List.isChain_nil⟩, List.nodup_nil, ?_⟩
    exact ⟨fun _ _ hmem => absurd hmem List.not_mem_nil,
      fun _ hlast => absurd hlast (Option.some_ne_none _).symm⟩
  obtain ⟨hholds, hsteps⟩ :=
    hstart.run (fun _ _ _ => Nat.zero_le _) horder hclock hroom hspared
  exact ⟨fun second => ⟨hholds.allowOnce second, hholds.truncateOnce second⟩, hholds.penalised, hsteps⟩

/-- A query over UDP from a host of a network, for the root. -/
def udpQuery (nowMillis : Nat) : LimiterEvent :=
  .query nowMillis .udp (.v4 ⟨198, 51, 100, 7⟩) .root .A

def wideLimiter : LimiterConfig := { slowLimiter with capacity := 300 }

def rootKey : Text := rrlKey wideLimiter someNetwork .root .A

/-- Three queries in a second, one more before the penalty is over, and one after a gap. -/
theorem duplicate_policy_spared :
    judgments wideLimiter rootKey .new
        [udpQuery 0, udpQuery 0, udpQuery 0, udpQuery 2000, .cleanup 4000 900000, udpQuery 6000] =
      [(0, .allow), (0, .truncate), (0, .drop), (2, .drop), (6, .allow)] ∧
    (judgments wideLimiter rootKey .new
      [udpQuery 0, udpQuery 0, udpQuery 0, udpQuery 2000, .cleanup 4000 900000, udpQuery 6000]).IsChain
        Penalised := by
  refine ⟨by decide, (duplicate_policy wideLimiter rootKey _ ?_ ?_ ?_ ?_).2.1⟩
  · simp [InOrderUnder, udpQuery, LimiterEvent.time, comesUnder]
  · simp [udpQuery, LimiterEvent.time, comesUnder]
  · simp only [Along]
    refine ⟨?_, ?_, ?_, ?_, ?_, ?_, trivial⟩
    all_goals exact fun _ => Or.inr (by decide)
  · simp only [Along]
    refine ⟨trivial, trivial, trivial, trivial, fun bucket _ _ => ?_, trivial, trivial⟩
    have hcutoff : (((4000 : Nat) : Int) - (900000 : Nat)).tdiv 1000 ≤ 0 := by decide
    exact hcutoff.trans (Int.natCast_nonneg _)

/-- A key under penalty that is asked for every two seconds, and a pass with a maximum age of four. -/
def hammeredRun : List LimiterEvent :=
  [udpQuery 0, udpQuery 0, udpQuery 0, udpQuery 2000, udpQuery 4000, .cleanup 6000 4000, udpQuery 6000]

/-- The entry keeps its old second in the packed state, the pass forgets it, and the next query is allowed
two seconds after a drop. -/
theorem penalty_forgotten :
    InOrderUnder wideLimiter rootKey hammeredRun ∧
      Along (limiterStep wideLimiter) (FindsRoom wideLimiter rootKey) .new hammeredRun ∧
      judgments wideLimiter rootKey .new hammeredRun =
        [(0, .allow), (0, .truncate), (0, .drop), (2, .drop), (4, .drop), (6, .allow)] ∧
      ¬ (judgments wideLimiter rootKey .new hammeredRun).IsChain Penalised := by
  have hverdicts : judgments wideLimiter rootKey .new hammeredRun =
      [(0, .allow), (0, .truncate), (0, .drop), (2, .drop), (4, .drop), (6, .allow)] := by decide
  refine ⟨?_, ?_, hverdicts, ?_⟩
  · simp [InOrderUnder, hammeredRun, udpQuery, LimiterEvent.time, comesUnder]
  · simp only [hammeredRun, Along]
    refine ⟨?_, ?_, ?_, ?_, ?_, ?_, ?_, trivial⟩
    all_goals exact fun _ => Or.inr (by decide)
  · rw [hverdicts]
    simp [Penalised]

end Engine
end UnifiedDns
