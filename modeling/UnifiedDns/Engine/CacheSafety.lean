import UnifiedDns.Dnssec.AnswerSection
import UnifiedDns.Engine.Server

/-!
# What the cache holds and what is served from it

* `EntrySound` — what is true of an entry from its insertion on.
* `ServerInvariant` — it is true of the cache, of the file and of a save under way; `step_invariant`
  keeps it, whichever task wrote the entry.
* `ReplySound` — what is true of a reply built from an entry.
* `cache_safety` — both, in every state a run reaches.
-/

namespace UnifiedDns
namespace Engine

open Dnssec (DnssecStatus)

variable {W : Type}

/-- The octets of the entry decode to a response the validator judged as the entry says. -/
def StoredMessage (env : ServerEnv W) (entry : CacheEntry W) (msg : Message) : Prop :=
  env.decode entry.rawWire = some msg ∧ isCacheable msg = true ∧
    ∃ resolved, Judged env entry.origin resolved entry.dnssecStatus ∧
      (msg = canonicalResponse resolved entry.dnssecStatus ∨
        msg = prewarmResponse resolved entry.dnssecStatus)

/-- The signature is good at time `t`: its expiration comes after `t` as a serial number. -/
def UnexpiredAt (sig : RRSIG) (t : Nat) : Prop :=
  Serial.Precedes (BitVec.ofNat 32 t) sig.sigExpiration

/-- What is true of the entry under `key` at time `now`. -/
structure EntrySound (env : ServerEnv W) (now : Nat) (key : Text) (entry : CacheEntry W) : Prop where
  cacheable : isCacheableDnssec entry.dnssecStatus = true
  past : entry.cachedAt ≤ now
  keyed : queryKey env entry.origin = key
  classIn : entry.origin.queryClass = .IN
  /-- Given a lossless codec, the lifetime of a `secure` entry ends before its signatures do. -/
  stored : env.Lossless → ∃ msg, StoredMessage env entry msg ∧
    (entry.dnssecStatus = .secure → ∀ sig ∈ messageRrsigs msg,
      entry.minTtl = 0 ∨ (entry.minTtl : Int) ≤ remainingValidity sig entry.cachedAt)

/-- What is true of a reply built from an entry. -/
structure ReplySound (env : ServerEnv W) (reply : CacheReply W) : Prop where
  /-- The entry had not outlived its stale window. -/
  notExpired : reply.time < reply.entry.cachedAt + reply.entry.minTtl + env.maxStale
  /-- The entry was found under the key of the question. -/
  keyed : queryKey env reply.entry.origin = queryKey env reply.query
  classIn : reply.entry.origin.queryClass = .IN
  /-- With AD set the entry was validated `secure` and no signature has expired. -/
  authentic : env.Lossless → reply.response.authenticData = true →
    reply.entry.dnssecStatus = .secure ∧ ∃ msg, StoredMessage env reply.entry msg ∧
      ∀ sig ∈ messageRrsigs msg, UnexpiredAt sig reply.time

/-- All entries of a table are sound. -/
def TableSound (env : ServerEnv W) (now : Nat) (entries : TextMap (CacheEntry W)) : Prop :=
  ∀ key entry, entries key = some entry → EntrySound env now key entry

/-- The clock reading of a waiting request lies in the past. -/
def Task.Past (now : Nat) : Task → Prop
  | .foreground _ _ started => started ≤ now
  | _ => True

structure ServerInvariant (env : ServerEnv W) (s : ServerState W) : Prop where
  cache : TableSound env s.now s.cache
  disk : TableSound env s.now s.disk
  saving : ∀ now collected, s.saving = some (now, collected) → TableSound env s.now collected
  tasks : ∀ task ∈ s.tasks, task.Past s.now
  replies : ∀ reply ∈ s.cacheReplies, ReplySound env reply

theorem EntrySound.mono {env : ServerEnv W} {now later : Nat} {key : Text} {entry : CacheEntry W}
    (h : EntrySound env now key entry) (hle : now ≤ later) : EntrySound env later key entry :=
  ⟨h.cacheable, h.past.trans hle, h.keyed, h.classIn, h.stored⟩

theorem TableSound.mono {env : ServerEnv W} {now later : Nat} {entries : TextMap (CacheEntry W)}
    (h : TableSound env now entries) (hle : now ≤ later) : TableSound env later entries :=
  fun key entry hentry => (h key entry hentry).mono hle

theorem TableSound.empty (env : ServerEnv W) (now : Nat) : TableSound env now TextMap.empty := by
  intro key entry h
  cases h

theorem TableSound.insert {env : ServerEnv W} {now : Nat} {entries : TextMap (CacheEntry W)}
    {key : Text} {entry : CacheEntry W} (h : TableSound env now entries)
    (hentry : EntrySound env now key entry) : TableSound env now (entries.insert key entry) := by
  intro k e hk
  rcases TextMap.insert_eq_some hk with ⟨rfl, rfl⟩ | hold
  · exact hentry
  · exact h k e hold

theorem unexpired_eq_some {env : ServerEnv W} {now : Nat} {entries : TextMap (CacheEntry W)}
    {key : Text} {entry : CacheEntry W} (h : unexpired env now entries key = some entry) :
    entries key = some entry := by
  unfold unexpired at h
  split at h
  · cases h
  · rename_i found hfound
    split at h
    · rw [hfound, h]
    · cases h

theorem TableSound.unexpired {env : ServerEnv W} {now later : Nat}
    {entries : TextMap (CacheEntry W)} (h : TableSound env now entries) :
    TableSound env now (unexpired env later entries) :=
  fun key entry hentry => h key entry (unexpired_eq_some hentry)

/-! ### Lifetimes -/

theorem minRrsigValidity_spec {now : Nat} {sigs : List RRSIG} {least found : Nat}
    (h : minRrsigValidity now sigs least = some found) :
    found ≤ least ∧ ∀ sig ∈ sigs, (found : Int) ≤ remainingValidity sig now := by
  induction sigs generalizing least with
  | nil =>
      cases h
      exact ⟨le_rfl, by simp⟩
  | cons sig rest ih =>
      simp only [minRrsigValidity] at h
      split at h
      · rename_i hpos
        obtain ⟨hle, hrest⟩ := ih h
        refine ⟨by omega, List.forall_mem_cons.mpr ⟨by omega, hrest⟩⟩
      · cases h

/-- The lifetime of a `secure` message is zero or ends before every signature does. -/
theorem calculateCacheTtl_le {msg : Message} {now : Nat} :
    ∀ sig ∈ messageRrsigs msg, calculateCacheTtl msg .secure now = 0 ∨
      (calculateCacheTtl msg .secure now : Int) ≤ remainingValidity sig now := by
  intro sig hsig
  simp only [calculateCacheTtl, if_true]
  split
  · exact Or.inl rfl
  · rename_i least hleast
    obtain ⟨hle, hall⟩ := minRrsigValidity_spec hleast
    have hvalid := hall sig hsig
    right
    split
    · omega
    · -- A serial distance is below 2 ^ 31, so the initial value of the minimum is never left.
      rename_i hmax
      have hlt := remainingValidity_lt sig now
      omega

/-- The age classes, as bounds on the clock reading. -/
theorem CacheEntry.freshnessAt_lt {entry : CacheEntry W} {t maxStale : Nat}
    (hpast : entry.cachedAt ≤ t) (h : entry.freshnessAt t maxStale ≠ .expired) :
    t < entry.cachedAt + entry.minTtl + maxStale := by
  unfold CacheEntry.freshnessAt at h
  simp only at h
  split at h
  · omega
  · split at h
    · omega
    · exact absurd rfl h

/-- An entry fresh at `t` has no expired signature at `t`, also across the wrap of the clock. -/
theorem CacheEntry.unexpiredAt {entry : CacheEntry W} {t maxStale : Nat} {msg : Message}
    (hlife : ∀ sig ∈ messageRrsigs msg,
      entry.minTtl = 0 ∨ (entry.minTtl : Int) ≤ remainingValidity sig entry.cachedAt)
    (hpast : entry.cachedAt ≤ t) (hfresh : entry.freshnessAt t maxStale = .fresh) :
    ∀ sig ∈ messageRrsigs msg, UnexpiredAt sig t := by
  intro sig hsig
  have hage : t - entry.cachedAt < entry.minTtl := by
    unfold CacheEntry.freshnessAt at hfresh
    simp only at hfresh
    split at hfresh
    · assumption
    · split at hfresh <;> cases hfresh
  have hremaining : ((t - entry.cachedAt : Nat) : Int) <
      remainingValidity sig entry.cachedAt := by
    rcases hlife sig hsig with hzero | hlong
    · omega
    · omega
  have hleft : 0 < remainingValidity sig t := by
    rw [remainingValidity_elapsed hpast hremaining]
    omega
  exact Serial.distance_pos_iff.mp hleft

/-! ### The three writers -/

/-- Every writer of the cache goes through this: the message was judged, its codes were checked and the
clock reading is not in the future. -/
theorem insertResolved_invariant {env : ServerEnv W} {query : Query} {msg resolved : Message}
    {status : DnssecStatus} {now : Nat} {s : ServerState W}
    (h : ServerInvariant env s) (hpast : now ≤ s.now) (hcode : isCacheable msg = true)
    (hstatus : isCacheableDnssec status = true) (hjudged : Judged env query resolved status)
    (hmsg : msg = canonicalResponse resolved status ∨ msg = prewarmResponse resolved status) :
    ServerInvariant env (insertResolved env query msg status now s) := by
  unfold insertResolved
  split
  · exact h
  · rename_i wire hwire
    refine ⟨h.cache.insert ?_, h.disk, h.saving, h.tasks, h.replies⟩
    refine ⟨hstatus, hpast, rfl, rfl, fun hlossless => ?_⟩
    refine ⟨msg, ⟨hlossless msg wire hwire, hcode, resolved, hjudged, hmsg⟩, ?_⟩
    intro hsecure
    simp only at hsecure ⊢
    rw [hsecure]
    exact calculateCacheTtl_le

theorem touchEntry_invariant {env : ServerEnv W} {query : Query} {s : ServerState W}
    (h : ServerInvariant env s) : ServerInvariant env (touchEntry env query s) := by
  unfold touchEntry
  split
  · exact h
  · rename_i entry hentry
    have hsound := h.cache _ entry hentry
    exact ⟨h.cache.insert ⟨hsound.cacheable, hsound.past, hsound.keyed, hsound.classIn,
      hsound.stored⟩, h.disk, h.saving, h.tasks, h.replies⟩

theorem finishForeground_invariant {env : ServerEnv W} {req : Request} {query : Query}
    {now : Nat} {result : Option (Message × DnssecStatus)} {s : ServerState W}
    (h : ServerInvariant env s) (hpast : now ≤ s.now)
    (hresult : ∀ msg status, result = some (msg, status) → Judged env query msg status) :
    ServerInvariant env (finishForeground env req query now result s).2 := by
  unfold finishForeground
  simp only
  split
  · exact h
  · rename_i msg status
    have hjudged := hresult msg status rfl
    split
    · exact h
    · have hinsert : ServerInvariant env
          (if isCacheable (canonicalResponse msg status) && isCacheableDnssec status then
            insertResolved env query (canonicalResponse msg status) status now s
          else s) := by
        split
        · rename_i hcond
          obtain ⟨hcode, hstatus⟩ := Bool.and_eq_true_iff.mp hcond
          exact insertResolved_invariant h hpast hcode hstatus hjudged (Or.inl rfl)
        · exact h
      split
      · exact hinsert
      · split
        · exact hinsert
        · exact hinsert

theorem finishRevalidation_invariant {env : ServerEnv W} {query : Query}
    {result : Option (Message × DnssecStatus)} {s : ServerState W} (h : ServerInvariant env s)
    (hresult : ∀ msg status, result = some (msg, status) → Judged env query msg status) :
    ServerInvariant env (finishRevalidation env query result s) := by
  have hbody : ServerInvariant env (applyRevalidation env query result s) := by
    unfold applyRevalidation
    split
    · exact h
    · rename_i msg status
      split
      · exact h
      · split
        · rename_i hcond
          obtain ⟨hcode, hstatus⟩ := Bool.and_eq_true_iff.mp hcond
          exact insertResolved_invariant h le_rfl hcode hstatus (hresult msg status rfl)
            (Or.inl rfl)
        · exact touchEntry_invariant h
  exact ⟨hbody.cache, hbody.disk, hbody.saving, hbody.tasks, hbody.replies⟩

theorem finishPrewarm_invariant {env : ServerEnv W} {query : Query}
    {result : Option (Message × DnssecStatus)} {s : ServerState W} (h : ServerInvariant env s)
    (hresult : ∀ msg status, result = some (msg, status) → Judged env query msg status) :
    ServerInvariant env (finishPrewarm env query result s) := by
  unfold finishPrewarm
  split
  · exact h
  · rename_i msg status
    split
    · exact h
    · rename_i hcode
      split
      · exact h
      · rename_i hrefused
        have hmsg : isCacheable (prewarmResponse msg status) = true := by
          show isCacheable msg = true
          simpa using hcode
        have hstatus : isCacheableDnssec status = true := by
          cases status with
          | secure => rfl
          | insecureUnsigned => rfl
          | insecureUnknown => exact absurd (Or.inr rfl) hrefused
          | bogus => exact absurd (Or.inl rfl) hrefused
        exact insertResolved_invariant h le_rfl hmsg hstatus (hresult msg status rfl)
          (Or.inr rfl)

/-- However a task ends, the invariant is kept. -/
theorem finish_invariant {env : ServerEnv W} {task : Task}
    {result : Option (Message × DnssecStatus)} {s : ServerState W} (h : ServerInvariant env s)
    (hpast : task.Past s.now)
    (hresult : ∀ msg status, result = some (msg, status) → Judged env task.query msg status) :
    ServerInvariant env (finish env task result s).2 := by
  cases task with
  | foreground req query now => exact finishForeground_invariant h hpast hresult
  | revalidation query => exact finishRevalidation_invariant h hresult
  | prewarm query => exact finishPrewarm_invariant h hresult

/-! ### Requests -/

theorem missCache_invariant {env : ServerEnv W} {req : Request} {query : Query} {s : ServerState W}
    (h : ServerInvariant env s) : ServerInvariant env (missCache req query s) := by
  refine ⟨h.cache, h.disk, h.saving, ?_, h.replies⟩
  intro task htask
  rcases List.mem_append.mp htask with hold | hnew
  · exact h.tasks task hold
  · rw [List.mem_singleton.mp hnew]
    exact le_refl s.now

theorem spawnRevalidation_invariant {env : ServerEnv W} {query : Query} {s : ServerState W}
    (h : ServerInvariant env s) :
    ServerInvariant env (spawnRevalidation env query s) ∧
      (spawnRevalidation env query s).now = s.now := by
  unfold spawnRevalidation
  split
  · exact ⟨h, rfl⟩
  · refine ⟨⟨h.cache, h.disk, h.saving, ?_, h.replies⟩, rfl⟩
    intro task htask
    rcases List.mem_append.mp htask with hold | hnew
    · exact h.tasks task hold
    · rw [List.mem_singleton.mp hnew]
      trivial

/-- A reply from a sound entry that has not expired is sound. -/
theorem serveEntry_invariant {env : ServerEnv W} {req : Request} {query : Query}
    {entry : CacheEntry W} {s s' : ServerState W} {outcome : ProcessOutcome W}
    (h : ServerInvariant env s) (hentry : EntrySound env s.now (queryKey env query) entry)
    (hfreshness : entry.freshnessAt s.now env.maxStale ≠ .expired)
    (hserve : serveEntry env req query entry s = some (outcome, s')) : ServerInvariant env s' := by
  unfold serveEntry at hserve
  split at hserve
  · cases hserve
  · rename_i cachedMsg hdecode
    simp only at hserve
    split at hserve
    · cases hserve
    · split at hserve
      · cases hserve
        exact h
      · cases hserve
        refine ⟨h.cache, h.disk, h.saving, h.tasks, List.forall_mem_cons.mpr ⟨?_, h.replies⟩⟩
        refine ⟨CacheEntry.freshnessAt_lt hentry.past hfreshness, hentry.keyed, hentry.classIn, ?_⟩
        intro hlossless had
        simp only [constructClientResponse, Bool.and_eq_true, decide_eq_true_eq] at had
        obtain ⟨⟨⟨hsecure, hfresh⟩, -⟩, -⟩ := had
        obtain ⟨msg, hstored, hlife⟩ := hentry.stored hlossless
        exact ⟨hsecure, msg, hstored,
          CacheEntry.unexpiredAt (hlife hsecure) hentry.past hfresh⟩

theorem lookupCache_invariant {env : ServerEnv W} {req : Request} {query : Query}
    {s : ServerState W} (h : ServerInvariant env s) :
    ServerInvariant env (lookupCache env req query s).2 := by
  unfold lookupCache
  split
  · exact missCache_invariant h
  · rename_i entry hentry
    have hsound := h.cache _ entry hentry
    simp only
    split
    · exact missCache_invariant h
    · rename_i hfreshness
      have hspawn : ServerInvariant env (if entry.freshnessAt s.now env.maxStale = .stale then
            spawnRevalidation env query s else s) ∧
          (if entry.freshnessAt s.now env.maxStale = .stale then
            spawnRevalidation env query s else s).now = s.now := by
        split
        · exact spawnRevalidation_invariant h
        · exact ⟨h, rfl⟩
      obtain ⟨hinv, hnow⟩ := hspawn
      split
      · rename_i hserve
        refine serveEntry_invariant hinv ?_ ?_ hserve
        · rw [hnow]
          exact hsound
        · rw [hnow]
          exact hfreshness
      · exact missCache_invariant hinv

theorem receive_invariant {env : ServerEnv W} {req : Request} {s : ServerState W}
    (h : ServerInvariant env s) : ServerInvariant env (receive env req s).2 := by
  unfold receive
  split
  · split
    · exact h
    · exact h
    · exact lookupCache_invariant h
  · exact h

/-! ### Runs -/

theorem ServerInvariant.init (env : ServerEnv W) : ServerInvariant env (.init W) :=
  ⟨TableSound.empty env 0, TableSound.empty env 0, by simp [ServerState.init],
    by simp [ServerState.init], by simp [ServerState.init]⟩

theorem Task.Past.mono {task : Task} {now later : Nat} (h : task.Past now) (hle : now ≤ later) :
    task.Past later := by
  cases task with
  | foreground req query started => exact le_trans h hle
  | revalidation query => trivial
  | prewarm query => trivial

/-- Every event keeps the invariant. -/
theorem step_invariant {env : ServerEnv W} {event : Event} {s : ServerState W}
    (h : ServerInvariant env s) (hpossible : Possible env s event) :
    ServerInvariant env (step env event s) := by
  cases event with
  | wait seconds =>
      -- Every part of the invariant is kept when only time passes.
      have hle : s.now ≤ s.now + seconds := Nat.le_add_right _ _
      exact ⟨h.cache.mono hle, h.disk.mono hle,
        fun now collected hsaving => (h.saving now collected hsaving).mono hle,
        fun task htask => (h.tasks task htask).mono hle, h.replies⟩
  | receive req => exact receive_invariant h
  | finish index result =>
      simp only [step]
      split
      · exact h
      · rename_i task htask
        have hmem : task ∈ s.tasks := List.mem_of_getElem? htask
        -- The task leaves the list first, then it writes what it was started for.
        apply finish_invariant
        · exact ⟨h.cache, h.disk, h.saving,
            fun other hother => h.tasks other (List.mem_of_mem_eraseIdx hother), h.replies⟩
        · exact h.tasks task hmem
        · intro msg status hresult
          rw [hresult] at hpossible
          exact hpossible task htask
  | prewarm name rtype =>
      simp only [step]
      split
      · exact h
      · refine ⟨h.cache, h.disk, h.saving, fun task htask => ?_, h.replies⟩
        rcases List.mem_append.mp htask with hold | hnew
        · exact h.tasks task hold
        · rw [List.mem_singleton.mp hnew]
          trivial
  | saveStart =>
      -- A save starts with nothing collected.
      refine ⟨h.cache, h.disk, fun now collected hsaving => ?_, h.tasks, h.replies⟩
      cases hsaving
      exact TableSound.empty env s.now
  | saveItem key =>
      simp only [step, saveItem]
      split
      · exact h
      · rename_i started collected hsaving
        split
        · exact h
        · rename_i entry hentry
          refine ⟨h.cache, h.disk, fun now table htable => ?_, h.tasks, h.replies⟩
          cases htable
          -- An entry is copied as it stands in the cache now, not as it stood when the save began.
          exact (h.saving started collected hsaving).insert
            (h.cache key entry (unexpired_eq_some hentry))
  | saveEnd outcome =>
      simp only [step, saveEnd]
      split
      · exact h
      · rename_i started collected hsaving
        refine ⟨h.cache, ?_, fun now table htable => (by cases htable), h.tasks, h.replies⟩
        -- A save that is seen to fail leaves the old file.
        cases outcome with
        | kept => exact h.disk
        | swapped => exact h.saving started collected hsaving
        | truncated => exact fun key entry hentry => absurd hentry.symm (Option.some_ne_none entry)
  | restart =>
      -- Only the file survives; tasks and a save under way are lost.
      exact ⟨h.disk.unexpired, h.disk, fun now table htable => (by cases htable),
        fun task htask => (by cases htask), h.replies⟩

theorem ServerRun.invariant {env : ServerEnv W} {s : ServerState W} (h : ServerRun env s) :
    ServerInvariant env s := by
  induction h with
  | init => exact ServerInvariant.init env
  | step event _ hpossible ih => exact step_invariant ih hpossible

/-- **Cache safety.**  In every run, whatever comes between its events: every entry is `secure` or
`insecureUnsigned` and holds a NoError or NXDomain response; no reply is built from an entry at or after
the end of its stale window; and a reply with AD set comes from an entry that was validated `secure` and
whose signatures in the answer and authority sections are unexpired at the time of the reply. -/
theorem cache_safety {env : ServerEnv W} (hlossless : env.Lossless) {s : ServerState W}
    (hrun : ServerRun env s) :
    (∀ key entry, s.cache key = some entry →
      (entry.dnssecStatus = .secure ∨ entry.dnssecStatus = .insecureUnsigned) ∧
        ∃ msg, env.decode entry.rawWire = some msg ∧
          (msg.responseCode = .noError ∨ msg.responseCode = .nxDomain)) ∧
    (∀ reply ∈ s.cacheReplies,
      reply.time < reply.entry.cachedAt + reply.entry.minTtl + env.maxStale) ∧
    (∀ reply ∈ s.cacheReplies, reply.response.authenticData = true →
      reply.entry.dnssecStatus = .secure ∧ ∃ resolved msg,
        Judged env reply.entry.origin resolved .secure ∧ env.decode reply.entry.rawWire = some msg ∧
          msg.answers = resolved.answers ∧ msg.nameServers = resolved.nameServers ∧
            ∀ sig ∈ messageRrsigs msg, UnexpiredAt sig reply.time) := by
  have hinv := hrun.invariant
  refine ⟨?_, fun reply hreply => (hinv.replies reply hreply).notExpired, ?_⟩
  · intro key entry hentry
    have hsound := hinv.cache key entry hentry
    obtain ⟨msg, ⟨hdecode, hcode, -⟩, -⟩ := hsound.stored hlossless
    have hstatus := hsound.cacheable
    simp only [isCacheableDnssec, isCacheable, Bool.or_eq_true, decide_eq_true_eq] at hstatus hcode
    exact ⟨hstatus, msg, hdecode, hcode⟩
  · intro reply hreply had
    obtain ⟨hsecure, msg, ⟨hdecode, -, resolved, hjudged, hmsg⟩, hunexpired⟩ :=
      (hinv.replies reply hreply).authentic hlossless had
    rw [hsecure] at hjudged
    refine ⟨hsecure, resolved, msg, hjudged, hdecode, ?_, ?_, hunexpired⟩
    · rcases hmsg with rfl | rfl <;> rfl
    · rcases hmsg with rfl | rfl <;> rfl

/-! ### A signed address served from the cache -/

/-- Messages are their own octets, and the root zone is published. -/
def sampleServer : ServerEnv Message where
  platform := .plain
  encode := some
  decode := some
  size _ := 512
  validator := Dnssec.rootEnv fun _ _ => none
  maxStale := 300
  dnssecEnforce := true

theorem sampleServer_lossless : sampleServer.Lossless := fun _ _ h => h.symm

/-- A question for an address of `a.` with the DO flag. -/
def addressQuery (queryClass : DnsClass) : Query := ⟨Dnssec.topName 97, .A, queryClass⟩

def addressRequest (queryClass : DnsClass) : Request :=
  ⟨⟨{ Message.new with queries := [addressQuery queryClass], edns := some ⟨1232, true, 0⟩ }, .tcp,
    .v4 ⟨192, 0, 2, 1⟩⟩, .allow⟩

/-- The signed address of `a.` has been resolved for a first request at time 50. -/
def addressCached : ServerState Message :=
  step sampleServer (.finish 0 (some (Dnssec.signedAddress, .secure)))
    (step sampleServer (.receive (addressRequest .IN)) (step sampleServer (.wait 50) (.init Message)))

/-- A second request comes ten seconds later. -/
def addressServed (queryClass : DnsClass) : ServerState Message :=
  step sampleServer (.receive (addressRequest queryClass)) (step sampleServer (.wait 10) addressCached)

theorem addressServed_run (queryClass : DnsClass) :
    ServerRun sampleServer (addressServed queryClass) := by
  have hwaiting : ServerRun sampleServer
      (step sampleServer (.receive (addressRequest .IN))
        (step sampleServer (.wait 50) (.init Message))) :=
    .step _ (.step _ .init trivial) trivial
  refine .step _ (.step _ (.step _ hwaiting ?_) trivial) trivial
  intro task htask
  have hforeground : (step sampleServer (.receive (addressRequest .IN))
      (step sampleServer (.wait 50) (.init Message))).tasks[0]? =
        some (.foreground (addressRequest .IN) (addressQuery .IN) 50) := rfl
  rw [hforeground] at htask
  cases htask
  exact ⟨.init, by decide +kernel⟩

/-- The second reply is built from the entry, with AD set. -/
theorem cache_safety_address :
    ((addressServed .IN).cacheReplies.any fun reply => reply.response.authenticData) = true ∧
      ∀ reply ∈ (addressServed .IN).cacheReplies, reply.response.authenticData = true →
        reply.entry.dnssecStatus = .secure ∧ ∃ resolved msg,
          Judged sampleServer reply.entry.origin resolved .secure ∧
            sampleServer.decode reply.entry.rawWire = some msg ∧ msg.answers = resolved.answers ∧
              msg.nameServers = resolved.nameServers ∧
                ∀ sig ∈ messageRrsigs msg, UnexpiredAt sig reply.time :=
  ⟨by decide +kernel, (cache_safety sampleServer_lossless (addressServed_run .IN)).2.2⟩

end Engine
end UnifiedDns
