import UnifiedDns.Dnssec.Downgrade
import UnifiedDns.Lib.SerialNumber

/-!
# How long cached keys are trusted

`build_trust_chain` keeps the keys of a zone for the TTL of the two answers that brought them, and uses
them without looking at their signatures again.

* `KeyInsertion` — one write of `key_trust_cache`: when it was made, and which signatures had verified.
* `KeyRun` — the tables that validations lead to, with the log of their writes.
* `KeyInsertion.Durable` — the signatures outlast the entry.
* `trusted_keys_lifetime` — the keys in use are within both TTLs, and within their signatures when every
  write was durable.
-/

namespace UnifiedDns
namespace Dnssec

/-! ### The signatures behind a write -/

/-- The signature a search stops at. -/
def verifiedSig (env : Env) (owner : Name) (records : List Record) :
    List (RRSIG × DNSKEY) → VState → Option RRSIG
  | [], _ => none
  | (rrsig, key) :: rest, s =>
      if keyTagMatches env.platform key rrsig.keyTag then
        match s.canCheckSig with
        | (false, _) => none
        | (true, s) =>
            match checkRrsig env rrsig key owner records s with
            | (true, _) => some rrsig
            | (false, s) => verifiedSig env owner records rest s
      else verifiedSig env owner records rest s

theorem verifiedSig_isSome_iff {env : Env} {owner : Name} {records : List Record}
    {pairs : List (RRSIG × DNSKEY)} {s : VState} :
    (verifiedSig env owner records pairs s).isSome = true ↔
      (searchSignatures env owner records pairs s).1 = .verified := by
  induction pairs generalizing s with
  | nil => simp [verifiedSig, searchSignatures]
  | cons pair rest ih =>
      obtain ⟨rrsig, key⟩ := pair
      simp only [verifiedSig, searchSignatures]
      split
      · rcases s.canCheckSig with ⟨left, s₁⟩
        cases left with
        | false => simp
        | true =>
            rcases hcheck : checkRrsig env rrsig key owner records s₁ with ⟨verified, s₂⟩
            cases verified with
            | true => simp [hcheck]
            | false => simpa only [hcheck] using ih
      · exact ih

/-- A write of the cache of trusted keys. -/
structure KeyInsertion where
  zone : Name
  keys : List DNSKEY
  /-- The signature over the DNSKEY RRset. -/
  dnskeySig : RRSIG
  dnskeyTtl : Nat
  /-- The signature over the parent's DS RRset and the TTL of that answer; the root has none. -/
  ds : Option (RRSIG × Nat)
  /-- The outside event of the clock reading that dates the entry. -/
  tick : Nat

namespace KeyInsertion

/-- The time of the write. -/
def insertedAt (env : Env) (i : KeyInsertion) : Nat := env.clock i.tick

/-- How long the keys are kept. -/
def lifetime (i : KeyInsertion) : Nat :=
  match i.ds with
  | none => i.dnskeyTtl
  | some (_, dsTtl) => min i.dnskeyTtl dsTtl

theorem lifetime_le_dnskeyTtl (i : KeyInsertion) : i.lifetime ≤ i.dnskeyTtl := by
  unfold lifetime
  split
  · exact le_rfl
  · exact min_le_left _ _

theorem lifetime_le_dsTtl {i : KeyInsertion} {sig : RRSIG} {dsTtl : Nat}
    (h : i.ds = some (sig, dsTtl)) : i.lifetime ≤ dsTtl := by
  rw [lifetime, h]
  exact min_le_right _ _

def entry (env : Env) (i : KeyInsertion) : CachedZoneKeys := ⟨i.keys, i.insertedAt env + i.lifetime⟩

/-- The signatures that had verified when the entry was written. -/
def sigs (i : KeyInsertion) : List RRSIG := i.dnskeySig :: (i.ds.map Prod.fst).toList

/-- The signatures are good when the entry is written and in the last second it is used in. -/
def Durable (env : Env) (i : KeyInsertion) : Prop :=
  0 < i.lifetime → ∀ sig ∈ i.sigs, rrsigTimeValid sig (i.insertedAt env) = true ∧
    rrsigTimeValid sig (i.insertedAt env + i.lifetime - 1) = true

end KeyInsertion

/-- The signature over the DS RRset of a zone, with the TTL of the answer. -/
def dsSigAt (env : Env) (parentKeys : List DNSKEY) (zone : Name) (s : VState) :
    Option (RRSIG × Nat) :=
  match s.ask env zone .DS with
  | (none, _) => none
  | (some dsMsg, s) =>
      (verifiedSig env zone (rrset dsMsg.answers zone .DS)
        (signaturePairs (rrsigsOver dsMsg.answers .DS) parentKeys) s).map fun sig =>
          (sig, calculateMinTtl dsMsg)

/-- The signature over the DNSKEY RRset of a zone. -/
def dnskeySigAt (env : Env) (zone : Name) (trustedDs : List DS) (s : VState) : Option RRSIG :=
  match s.ask env zone .DNSKEY with
  | (none, _) => none
  | (some dnskeyMsg, s) =>
      verifiedSig env zone (rrset dnskeyMsg.answers zone .DNSKEY)
        (signaturePairs (rrsigsOver dnskeyMsg.answers .DNSKEY)
          (matchedKeys env.platform zone trustedDs (dnskeyRecords dnskeyMsg.answers zone))) s

/-- The write at the end of the DNSKEY half of a step, if it comes to that. -/
def insertionFrom (env : Env) (zone : Name) (trustedDs : List DS) (ds : Option (RRSIG × Nat))
    (s : VState) : Option KeyInsertion :=
  match fetchDnskey env zone trustedDs s with
  | (none, _) => none
  | (some (keys, ttl), s') =>
      (dnskeySigAt env zone trustedDs s).map fun sig => ⟨zone, keys, sig, ttl, ds, s'.tick⟩

/-- The write a step of the walk ends with, if any. -/
def insertionAt (env : Env) (zone : Name) (parentKeys : Option (List DNSKEY)) (s : VState) :
    Option KeyInsertion :=
  match cachedKeys env zone s with
  | (some _, _) => none
  | (none, s) =>
      if zone.isRoot then insertionFrom env zone rootDs none s
      else
        match parentKeys with
        | none => none
        | some parentKeys =>
            match fetchDs env parentKeys zone s with
            | (.stop _, _) => none
            | (.anchors trustedDs _, s') =>
                insertionFrom env zone trustedDs (dsSigAt env parentKeys zone s) s'

/-- Keys are only fetched with a verified signature. -/
theorem dnskeySigAt_isSome {env : Env} {zone : Name} {trustedDs : List DS} {s : VState}
    {found : List DNSKEY × Nat} (h : (fetchDnskey env zone trustedDs s).1 = some found) :
    (dnskeySigAt env zone trustedDs s).isSome = true := by
  unfold fetchDnskey at h
  unfold dnskeySigAt
  rcases hask : VState.ask env zone .DNSKEY s with ⟨_ | dnskeyMsg, s₁⟩
  · simp [hask] at h
  · simp only [hask] at h ⊢
    split at h
    · cases h
    · split at h
      · cases h
      · split at h
        · cases h
        · split at h
          · rename_i heq
            exact verifiedSig_isSome_iff.mpr (congrArg Prod.fst heq)
          · cases h
          · cases h

/-- DS records are only used with a verified signature. -/
theorem dsSigAt_eq_some {env : Env} {zone : Name} {parentKeys : List DNSKEY} {trustedDs : List DS}
    {ttl : Nat} {s : VState} (h : (fetchDs env parentKeys zone s).1 = .anchors trustedDs ttl) :
    ∃ sig, dsSigAt env parentKeys zone s = some (sig, ttl) := by
  unfold fetchDs at h
  unfold dsSigAt
  rcases hask : VState.ask env zone .DS s with ⟨_ | dsMsg, s₁⟩
  · simp [hask] at h
  · simp only [hask, judgeDs] at h ⊢
    split at h
    · split at h <;> cases h
    · split at h
      · cases h
      · split at h
        · rename_i heq
          obtain ⟨sig, hsig⟩ := Option.isSome_iff_exists.mp
            (verifiedSig_isSome_iff.mpr (congrArg Prod.fst heq))
          split at h
          · cases h
          · cases h
            exact ⟨sig, by rw [hsig, Option.map_some]⟩
        · cases h
        · cases h

theorem fetchDnskey_ttl_le {env : Env} {zone : Name} {trustedDs : List DS} {s : VState}
    {keys : List DNSKEY} {ttl : Nat}
    (h : (fetchDnskey env zone trustedDs s).1 = some (keys, ttl)) : ttl ≤ 86400 := by
  unfold fetchDnskey at h
  rcases hask : VState.ask env zone .DNSKEY s with ⟨_ | dnskeyMsg, s₁⟩
  · simp [hask] at h
  · simp only [hask] at h
    split at h
    · cases h
    · split at h
      · cases h
      · split at h
        · cases h
        · split at h
          · cases h
            exact (calculateMinTtl_le_iff dnskeyMsg 86400).mpr (Or.inr (Or.inl le_rfl))
          · cases h
          · cases h

/-- What a step that writes the entry `i` does to the table. -/
structure Writes (env : Env) (zone : Name) (i : KeyInsertion) (s s' : VState) : Prop where
  zone_eq : i.zone = zone
  root_iff : i.ds = none ↔ zone.isRoot = true
  lifetime_le : i.lifetime ≤ 86400
  tick_lt : i.tick < s'.tick
  cache_eq : s'.keyTrustCache = s.keyTrustCache.insert (env.platform.nameKey zone) (i.entry env)

/-- The DNSKEY half of a step writes the entry the log shows, or nothing. -/
theorem fetchZoneKeys_writes {env : Env} {zone : Name} {trustedDs : List DS} {parentDsTtl : Nat}
    {ds : Option (RRSIG × Nat)} (s : VState)
    (hds : (zone.isRoot = true ∧ ds = none) ∨
      (zone.isRoot = false ∧ ∃ sig, ds = some (sig, parentDsTtl))) :
    (∃ i, insertionFrom env zone trustedDs ds s = some i ∧
      Writes env zone i s (fetchZoneKeys env zone trustedDs parentDsTtl s).2) ∨
    (insertionFrom env zone trustedDs ds s = none ∧
      (fetchZoneKeys env zone trustedDs parentDsTtl s).2.keyTrustCache = s.keyTrustCache) := by
  have htables := fetchDnskey_sameTables env zone trustedDs s
  have hsig := @dnskeySigAt_isSome env zone trustedDs s
  have hday := @fetchDnskey_ttl_le env zone trustedDs s
  unfold insertionFrom fetchZoneKeys
  rcases hfetch : fetchDnskey env zone trustedDs s with ⟨_ | ⟨keys, ttl⟩, s₁⟩
  · rw [hfetch] at htables
    exact Or.inr ⟨rfl, htables.keyTrustCache_eq⟩
  · rw [hfetch] at htables hsig hday
    obtain ⟨sig, hsig⟩ := Option.isSome_iff_exists.mp (hsig rfl)
    have hday := hday rfl
    refine Or.inl ⟨⟨zone, keys, sig, ttl, ds, s₁.tick⟩, by simp only [hsig, Option.map_some], rfl,
      ?_, ?_, Nat.lt_succ_self _, ?_⟩
    · rcases hds with ⟨hroot, rfl⟩ | ⟨hroot, sig', rfl⟩
      · simp [hroot]
      · simp [hroot]
    · rcases hds with ⟨-, rfl⟩ | ⟨-, sig', rfl⟩
      · exact hday
      · exact (min_le_left _ _).trans hday
    · have hlifetime : (if zone.isRoot = true then ttl else min ttl parentDsTtl) =
          KeyInsertion.lifetime ⟨zone, keys, sig, ttl, ds, s₁.tick⟩ := by
        rcases hds with ⟨hroot, rfl⟩ | ⟨hroot, sig', rfl⟩
        · rw [if_pos hroot]
          rfl
        · rw [if_neg (by simp [hroot])]
          rfl
      rw [← htables.keyTrustCache_eq]
      simp only [storeKeys, VState.readClock, hlifetime]
      rfl

/-- A step of the walk writes the entry the log shows, or nothing. -/
theorem chainStep_writes (env : Env) (zone : Name) (parentKeys : Option (List DNSKEY))
    (s : VState) :
    (∃ i, insertionAt env zone parentKeys s = some i ∧
      Writes env zone i s (chainStep env zone parentKeys s).2) ∨
    (insertionAt env zone parentKeys s = none ∧
      (chainStep env zone parentKeys s).2.keyTrustCache = s.keyTrustCache) := by
  have hcached := cachedKeys_sameTables env zone s
  unfold insertionAt chainStep
  rcases hlookup : cachedKeys env zone s with ⟨_ | keys, s₁⟩
  · rw [hlookup] at hcached
    -- The entry is written over the table the lookup left as it was.
    have hback : ∀ {i : KeyInsertion} {s' : VState}, Writes env zone i s₁ s' →
        Writes env zone i s s' := fun h =>
      ⟨h.zone_eq, h.root_iff, h.lifetime_le, h.tick_lt, by rw [h.cache_eq, hcached.keyTrustCache_eq]⟩
    simp only
    by_cases hroot : zone.isRoot = true
    · rw [if_pos hroot, if_pos hroot]
      rcases @fetchZoneKeys_writes env zone rootDs 300 none s₁ (Or.inl ⟨hroot, rfl⟩) with
        ⟨i, hi, hwrites⟩ | ⟨hnone, hcache⟩
      · exact Or.inl ⟨i, hi, hback hwrites⟩
      · exact Or.inr ⟨hnone, hcache.trans hcached.keyTrustCache_eq⟩
    · rw [if_neg hroot, if_neg hroot]
      cases parentKeys with
      | none => exact Or.inr ⟨rfl, hcached.keyTrustCache_eq⟩
      | some parentKeys =>
          have hds := fetchDs_sameTables env parentKeys zone s₁
          have hsig := @dsSigAt_eq_some env zone parentKeys
          rcases hfetch : fetchDs env parentKeys zone s₁ with ⟨⟨trustedDs, ttl⟩ | result, s₂⟩
          · rw [hfetch] at hds
            obtain ⟨sig, hsig⟩ := @hsig trustedDs ttl s₁ (by rw [hfetch])
            simp only [hfetch, hsig]
            rcases @fetchZoneKeys_writes env zone trustedDs ttl (some (sig, ttl)) s₂
              (Or.inr ⟨by simpa using hroot, sig, rfl⟩) with ⟨i, hi, hwrites⟩ | ⟨hnone, hcache⟩
            · refine Or.inl ⟨i, hi, hback ⟨hwrites.zone_eq, hwrites.root_iff, hwrites.lifetime_le,
                hwrites.tick_lt, ?_⟩⟩
              rw [hwrites.cache_eq, hds.keyTrustCache_eq]
            · refine Or.inr ⟨hnone, ?_⟩
              rw [hcache, hds.keyTrustCache_eq, hcached.keyTrustCache_eq]
          · rw [hfetch] at hds
            simp only [hfetch]
            refine Or.inr ⟨trivial, ?_⟩
            rw [hds.keyTrustCache_eq, hcached.keyTrustCache_eq]
  · rw [hlookup] at hcached
    exact Or.inr ⟨rfl, hcached.keyTrustCache_eq⟩

/-! ### Runs -/

/-- What becomes of the cache of trusted keys, and the log of its writes, the newest first.  Between two
writes anything may happen that leaves the cache alone, and a step may have started in any state: it
writes its entry over the table it finds at its end. -/
inductive KeyRun (env : Env) : VState → List KeyInsertion → Prop
  | init : KeyRun env .init []
  | other {s s' : VState} {log : List KeyInsertion} (h : KeyRun env s log) (htick : s.tick ≤ s'.tick)
      (hcache : s'.keyTrustCache = s.keyTrustCache) : KeyRun env s' log
  | insert {s s' start : VState} {log : List KeyInsertion} {i : KeyInsertion} (h : KeyRun env s log)
      (zone : Name) (parentKeys : Option (List DNSKEY))
      (hinsertion : insertionAt env zone parentKeys start = some i) (htick : s.tick ≤ s'.tick)
      (hwrites : Writes env zone i s s') : KeyRun env s' (i :: log)

/-- The write that put the current entry under `key`. -/
def latest (env : Env) (key : Text) (log : List KeyInsertion) : Option KeyInsertion :=
  log.find? fun i => decide (env.platform.nameKey i.zone = key)

theorem mem_of_latest {env : Env} {key : Text} {log : List KeyInsertion} {i : KeyInsertion}
    (h : latest env key log = some i) : i ∈ log := List.mem_of_find?_eq_some h

namespace KeyRun

theorem chainStep {env : Env} {s : VState} {log : List KeyInsertion} (h : KeyRun env s log)
    (zone : Name) (parentKeys : Option (List DNSKEY)) :
    KeyRun env (chainStep env zone parentKeys s).2
      ((insertionAt env zone parentKeys s).toList ++ log) := by
  have htick := (chainStep_sameLog env zone parentKeys s).tick_le
  rcases chainStep_writes env zone parentKeys s with ⟨i, hi, hwrites⟩ | ⟨hnone, hcache⟩
  · rw [hi]
    exact .insert h zone parentKeys hi htick hwrites
  · rw [hnone]
    exact .other h htick hcache

theorem later {env : Env} {s : VState} {log : List KeyInsertion} {tick : Nat} (h : KeyRun env s log)
    (htick : s.tick ≤ tick) : KeyRun env { s with tick := tick } log := .other h htick rfl

/-- Every step of a walk starts in a state of a run. -/
theorem chainFrom {env : Env} {zones : List Name} {parentKeys : Option (List DNSKEY)}
    {lastTtl : Nat} {s : VState} {log : List KeyInsertion} (h : KeyRun env s log) :
    ∃ log', KeyRun env (chainFrom env zones parentKeys lastTtl s).2 log' := by
  induction zones generalizing parentKeys lastTtl s log with
  | nil => cases parentKeys <;> exact ⟨log, h⟩
  | cons zone rest ih =>
      have hstep := h.chainStep zone parentKeys
      simp only [Dnssec.chainFrom]
      split
      · rename_i heq
        rw [heq] at hstep
        exact ih hstep
      · rename_i heq
        rw [heq] at hstep
        exact ⟨_, hstep⟩

theorem progress {env : Env} {s s' : VState} {log : List KeyInsertion} (h : KeyRun env s log)
    (hprogress : Progress env s s') : ∃ log', KeyRun env s' log' := by
  induction hprogress generalizing log with
  | same htables => exact ⟨log, .other h htables.tick_le htables.keyTrustCache_eq⟩
  | chain zone s =>
      obtain ⟨log', hwalk⟩ := @KeyRun.chainFrom env (zonePath zone) none 300 s log h
      exact ⟨log', .other hwalk le_rfl rfl⟩
  | store hlog =>
      refine ⟨log, .other h (storeSignedness_extends env _ _ _ _).tick_le ?_⟩
      unfold storeSignedness
      split <;> rfl
  | trans _ _ ihab ihbc =>
      obtain ⟨log', hmid⟩ := ihab h
      exact ihbc hmid

end KeyRun

/-- Every run of validations is such a run. -/
theorem ValidationRun.keyRun {env : Env} {s : VState} (h : ValidationRun env s) :
    ∃ log, KeyRun env s log := by
  induction h with
  | init => exact ⟨[], .init⟩
  | validate msg qname qtype _ ih =>
      obtain ⟨log, hrun⟩ := ih
      exact hrun.progress (validateMessage_progress env msg qname qtype _)

/-- The entry under `key` is the one its latest write put there, in the past and for at most a day. -/
structure Current (env : Env) (key : Text) (log : List KeyInsertion) (s : VState)
    (cached : CachedZoneKeys) (i : KeyInsertion) : Prop where
  latest_eq : latest env key log = some i
  entry_eq : cached = i.entry env
  root_iff : i.ds = none ↔ i.zone.isRoot = true
  lifetime_le : i.lifetime ≤ 86400
  tick_le : i.tick ≤ s.tick

theorem KeyRun.current {env : Env} {s : VState} {log : List KeyInsertion} (h : KeyRun env s log)
    {key : Text} {cached : CachedZoneKeys} (hentry : s.keyTrustCache key = some cached) :
    ∃ i, Current env key log s cached i := by
  induction h with
  | init => cases hentry
  | other _ htick hcache ih =>
      rw [hcache] at hentry
      obtain ⟨i, hi⟩ := ih hentry
      exact ⟨i, hi.latest_eq, hi.entry_eq, hi.root_iff, hi.lifetime_le, hi.tick_le.trans htick⟩
  | @insert s s' _ log i _ zone _ _ htick hwrites ih =>
      by_cases hkey : key = env.platform.nameKey zone
      · rw [hwrites.cache_eq, hkey, TextMap.insert_self] at hentry
        refine ⟨i, ?_, (Option.some.inj hentry).symm, ?_, hwrites.lifetime_le, hwrites.tick_lt.le⟩
        · rw [latest, List.find?_cons_of_pos]
          simp [hwrites.zone_eq, hkey]
        · rw [hwrites.zone_eq]
          exact hwrites.root_iff
      · -- Another key: its entry and its latest write are the old ones.
        rw [hwrites.cache_eq, TextMap.insert, if_neg hkey] at hentry
        obtain ⟨j, hj⟩ := ih hentry
        refine ⟨j, ?_, hj.entry_eq, hj.root_iff, hj.lifetime_le, hj.tick_le.trans htick⟩
        rw [latest, List.find?_cons_of_neg]
        · exact hj.latest_eq
        · simpa [hwrites.zone_eq] using Ne.symm hkey

/-! ### The keys in use -/

/-- Good at the start and at the end of less than half a round of the clock, a signature is good in
between. -/
theorem rrsigTimeValid_between {sig : RRSIG} {start m n : Nat} (hm : m ≤ n) (hn : n < 2 ^ 31)
    (hstart : rrsigTimeValid sig start = true) (hend : rrsigTimeValid sig (start + n) = true) :
    rrsigTimeValid sig (start + m) = true := by
  simp only [rrsigTimeValid, Bool.and_eq_true, decide_eq_true_eq] at hstart hend ⊢
  refine ⟨⟨?_, ?_⟩, hstart.2⟩
  · exact Serial.distance_nonneg_between' hm (by omega) hstart.1.1 hend.1.1
  · exact Serial.distance_nonneg_between hm (by omega) hstart.1.2 hend.1.2

theorem cachedKeys_eq_some {env : Env} {zone : Name} {keys : List DNSKEY} {s : VState}
    (h : (cachedKeys env zone s).1 = some keys) :
    ∃ cached, s.keyTrustCache (env.platform.nameKey zone) = some cached ∧ cached.keys = keys ∧
      env.clock s.tick < cached.expiresAt := by
  unfold cachedKeys at h
  split at h
  · cases h
  · rename_i cached hentry
    simp only at h
    split at h
    · rename_i hfresh
      cases h
      exact ⟨cached, hentry, rfl, hfresh⟩
    · cases h

/-- The keys in use at `t` are those of the write `i`, and `t` is within both TTLs. -/
structure WithinTtls (env : Env) (keys : List DNSKEY) (t : Nat) (i : KeyInsertion) : Prop where
  keys_eq : i.keys = keys
  root_iff : i.ds = none ↔ i.zone.isRoot = true
  after : i.insertedAt env ≤ t
  dnskey : t < i.insertedAt env + i.dnskeyTtl
  ds : ∀ sig dsTtl, i.ds = some (sig, dsTtl) → t < i.insertedAt env + dsTtl

/-- **How long cached keys are used.**  In every run with a clock that does not go back, whose writes are
all durable: whenever `build_trust_chain` takes the keys of a zone from the cache, the signatures that
were verified when the entry was written are still good, and the time is within both TTLs.  The last
part needs no durability. -/
theorem trusted_keys_lifetime {env : Env} (hclock : Monotone env.clock) {s : VState}
    {log : List KeyInsertion} (hrun : KeyRun env s log) (hdurable : ∀ i ∈ log, i.Durable env)
    {zone : Name} {keys : List DNSKEY} (huse : (cachedKeys env zone s).1 = some keys) :
    ∃ i, latest env (env.platform.nameKey zone) log = some i ∧
      WithinTtls env keys (env.clock s.tick) i ∧
      ∀ sig ∈ i.sigs, rrsigTimeValid sig (env.clock s.tick) = true := by
  obtain ⟨cached, hentry, hkeys, hfresh⟩ := cachedKeys_eq_some huse
  obtain ⟨i, hi⟩ := hrun.current hentry
  have hafter : i.insertedAt env ≤ env.clock s.tick := hclock hi.tick_le
  rw [hi.entry_eq] at hkeys hfresh
  have hexpires : env.clock s.tick < i.insertedAt env + i.lifetime := hfresh
  refine ⟨i, hi.latest_eq, ⟨hkeys, hi.root_iff, hafter, ?_, ?_⟩, fun sig hsig => ?_⟩
  · exact hexpires.trans_le (Nat.add_le_add_left i.lifetime_le_dnskeyTtl _)
  · intro sig dsTtl hds
    exact hexpires.trans_le (Nat.add_le_add_left (i.lifetime_le_dsTtl hds) _)
  · -- The entry is used in a second between its first and its last.
    obtain ⟨hfirst, hlast⟩ := hdurable i (mem_of_latest hi.latest_eq) (by omega) sig hsig
    have hday := hi.lifetime_le
    have hbetween := @rrsigTimeValid_between sig (i.insertedAt env)
      (env.clock s.tick - i.insertedAt env) (i.lifetime - 1) (by omega) (by omega) hfirst
      (by rwa [show i.insertedAt env + (i.lifetime - 1) = i.insertedAt env + i.lifetime - 1 by omega])
    rwa [show i.insertedAt env + (env.clock s.tick - i.insertedAt env) = env.clock s.tick by omega]
      at hbetween

/-! ### A root key that is used after its signature -/

/-- The root publishes its key for `ttl` seconds, signed until 100; the clock shows 50, later `late`. -/
def agingEnv (ttl late : Nat) : Env where
  platform := rootPlatform
  clock tick := if tick < 10 then 50 else late
  resolve _ _ _ := some { Message.new with
    answers := [⟨.root, .IN, ttl, .dnskey rootKey⟩,
      { rootSigned .root .DNSKEY with ttl := ttl }] }

theorem agingEnv_clock (ttl : Nat) {late : Nat} (hlate : 50 ≤ late) :
    Monotone (agingEnv ttl late).clock := by
  intro a b hab
  show (if a < 10 then 50 else late) ≤ if b < 10 then 50 else late
  split
  · split
    · exact le_rfl
    · exact hlate
  · rw [if_neg (by omega)]

/-- The state after the first step of a walk, at the later time. -/
def agedState (ttl late : Nat) : VState :=
  { (chainStep (agingEnv ttl late) .root none .init).2 with tick := 10 }

theorem agedState_run {ttl late : Nat}
    (htick : (chainStep (agingEnv ttl late) .root none .init).2.tick ≤ 10) :
    KeyRun (agingEnv ttl late) (agedState ttl late)
      ((insertionAt (agingEnv ttl late) .root none .init).toList ++ []) := by
  unfold agedState
  exact (KeyRun.init.chainStep .root none).later htick

/-- Keys may be used after the signature that authenticated them has expired. -/
theorem keys_outlive_signature :
    ¬ ∀ (env : Env), Monotone env.clock → ∀ (s : VState) (log : List KeyInsertion),
        KeyRun env s log → ∀ (zone : Name) (keys : List DNSKEY),
        (cachedKeys env zone s).1 = some keys →
        ∃ i, latest env (env.platform.nameKey zone) log = some i ∧
          ∀ sig ∈ i.sigs, rrsigTimeValid sig (env.clock s.tick) = true := by
  intro hclaim
  have hused : (cachedKeys (agingEnv 300 200) .root (agedState 300 200)).1 = some [rootKey] := by
    decide +kernel
  obtain ⟨i, hi, hvalid⟩ := hclaim (agingEnv 300 200) (agingEnv_clock 300 (by omega))
    (agedState 300 200) _ (agedState_run (by decide +kernel)) .root [rootKey] hused
  have hinserted : (insertionAt (agingEnv 300 200) .root none .init).map
      (fun i => rrsigTimeValid i.dnskeySig 200) = some false := by
    decide +kernel
  obtain ⟨j, hj, hexpired⟩ := Option.map_eq_some_iff.mp hinserted
  have hmem := mem_of_latest hi
  rw [hj] at hmem
  obtain rfl : i = j := by simpa using hmem
  have hgood : rrsigTimeValid i.dnskeySig 200 = true := hvalid _ List.mem_cons_self
  rw [hexpired] at hgood
  cases hgood

/-- A key published for 20 seconds is used at 60 under a signature that is still good. -/
theorem trusted_keys_lifetime_root :
    ∃ i, latest (agingEnv 20 60) ((agingEnv 20 60).platform.nameKey .root)
        ((insertionAt (agingEnv 20 60) .root none .init).toList ++ []) = some i ∧
      WithinTtls (agingEnv 20 60) [rootKey] 60 i ∧
      ∀ sig ∈ i.sigs, rrsigTimeValid sig 60 = true := by
  have hused : (cachedKeys (agingEnv 20 60) .root (agedState 20 60)).1 = some [rootKey] := by
    decide +kernel
  have hdurable : ((insertionAt (agingEnv 20 60) .root none .init).toList ++ []).all (fun i =>
      i.sigs.all fun sig => rrsigTimeValid sig (i.insertedAt (agingEnv 20 60)) &&
        rrsigTimeValid sig (i.insertedAt (agingEnv 20 60) + i.lifetime - 1)) = true := by
    decide +kernel
  refine trusted_keys_lifetime (agingEnv_clock 20 (by omega)) (agedState_run (by decide +kernel))
    (fun i hi _ sig hsig => ?_) hused
  simpa using List.all_eq_true.mp (List.all_eq_true.mp hdurable i hi) sig hsig

end Dnssec
end UnifiedDns
