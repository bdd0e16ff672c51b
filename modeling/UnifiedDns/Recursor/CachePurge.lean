import UnifiedDns.Recursor.DelegationCache

/-!
# Purging a failed start

When the servers of a cached start fail, `resolve_internal` calls `purge_delegation_for` and starts over
from the root.  The purge walks up from the name again on its own: it stops at the first entry it meets,
while `find_cached_start` had passed over those that have expired.

* `nearestEntry` — the first entry above a name, whatever its age.
* `FailedStartPurged` — what the purge is for: the entry of the failed start is gone, and nothing else.
* `failedStart_purged_iff` — it does so exactly when the nearest entry has not expired.
-/

namespace UnifiedDns
namespace Recursor

/-- The first entry the two walks meet. -/
def nearestEntry (P : Platform) (cache : TextMap DelegationEntry) :
    List Name → Option DelegationEntry
  | [] => none
  | current :: rest =>
      match cache (P.nameKey current) with
      | none => nearestEntry P cache rest
      | some entry => some entry

section Walks

variable {P : Platform} {now : Nat} {cache : TextMap DelegationEntry} {names : List Name}
  {zone : Name} {ips : List IpAddr}

/-- A walk that finds a start meets an entry. -/
theorem nearestEntry_of_start (h : findCachedStartFrom P now cache names = some (zone, ips)) :
    ∃ entry, nearestEntry P cache names = some entry := by
  induction names with
  | nil => cases h
  | cons current rest ih =>
      simp only [findCachedStartFrom] at h
      simp only [nearestEntry]
      cases hentry : cache (P.nameKey current) with
      | none =>
          rw [hentry] at h
          exact ih h
      | some entry => exact ⟨entry, rfl⟩

/-- The nearest entry is the one that is purged, and the start if it has not expired. -/
theorem purgeFrom_nearest {entry : DelegationEntry}
    (hnearest : nearestEntry P cache names = some entry) :
    ∃ nearest, cache (P.nameKey nearest) = some entry ∧
      purgeFrom P names cache = cache.remove (P.nameKey nearest) ∧
        (now < entry.expiresAt →
          findCachedStartFrom P now cache names = some (nearest, entry.servers)) := by
  induction names with
  | nil => cases hnearest
  | cons current rest ih =>
      simp only [nearestEntry] at hnearest
      cases hentry : cache (P.nameKey current) with
      | none =>
          rw [hentry] at hnearest
          obtain ⟨nearest, hstored, hpurge, hstart⟩ := ih hnearest
          refine ⟨nearest, hstored, ?_, fun hfresh => ?_⟩
          · rw [purgeFrom, if_neg (by simp [hentry]), hpurge]
          · simp only [findCachedStartFrom, hentry]
            exact hstart hfresh
      | some found =>
          rw [hentry] at hnearest
          cases hnearest
          refine ⟨current, hentry, ?_, fun hfresh => ?_⟩
          · rw [purgeFrom, if_pos (by simp [hentry])]
          · simp only [findCachedStartFrom, hentry, if_pos hfresh]

/-- If the nearest entry has not expired, the entry of the start is purged. -/
theorem purgeFrom_of_fresh (h : findCachedStartFrom P now cache names = some (zone, ips))
    {entry : DelegationEntry} (hnearest : nearestEntry P cache names = some entry)
    (hfresh : now < entry.expiresAt) :
    purgeFrom P names cache = cache.remove (P.nameKey zone) := by
  obtain ⟨nearest, -, hpurge, hstart⟩ := @purgeFrom_nearest P now cache names entry hnearest
  have hsame := (hstart hfresh).symm.trans h
  cases hsame
  exact hpurge

/-- If it has expired, the entry of the start stays. -/
theorem purgeFrom_of_expired (h : findCachedStartFrom P now cache names = some (zone, ips))
    {entry : DelegationEntry} (hnearest : nearestEntry P cache names = some entry)
    (hexpired : ¬ now < entry.expiresAt) :
    purgeFrom P names cache (P.nameKey zone) = cache (P.nameKey zone) := by
  obtain ⟨nearest, hstored, hpurge, -⟩ := @purgeFrom_nearest P now cache names entry hnearest
  obtain ⟨start, hstart, -, hfresh⟩ := findCachedStartFrom_entry h
  rw [hpurge]
  refine TextMap.remove_of_ne cache fun hkey => ?_
  -- The entry that has expired is not the one the start came from.
  rw [hkey, hstored] at hstart
  cases hstart
  exact hexpired hfresh

end Walks

/-- The start that came from `zone` has been purged: its entry is gone, every other entry that had not
expired is still there, and a later start does not come from that entry again. -/
structure FailedStartPurged (env : REnv) (name : Name) (rtype : RecordType) (zone : Name) (now : Nat)
    (before after : RState) : Prop where
  removed : after.delegationCache (env.platform.nameKey zone) = none
  kept : ∀ key entry, key ≠ env.platform.nameKey zone → before.delegationCache key = some entry →
    now < entry.expiresAt → after.delegationCache key = some entry
  notAgain : ∀ later, later.delegationCache = after.delegationCache → ∀ zone' ips,
    (findCachedStart env name rtype later).1 = some (zone', ips) →
      env.platform.nameKey zone' ≠ env.platform.nameKey zone

/-- **Purging a failed start.**  After `find_cached_start` has returned the servers of `zone`,
`purge_delegation_for` removes that entry, and no other one that has not expired, exactly when the entry
nearest to the name had not expired when the start was looked up. -/
theorem failedStart_purged_iff {env : REnv} {name : Name} {rtype : RecordType} {s s₁ : RState}
    {zone : Name} {ips : List IpAddr}
    (hstart : (findCachedStart env name rtype s).1 = some (zone, ips))
    (hcache : s₁.delegationCache = s.delegationCache) :
    FailedStartPurged env name rtype zone (env.clock s.tick) s₁
        (purgeDelegationFor env name rtype s₁) ↔
      ∀ entry, nearestEntry env.platform s.delegationCache (delegationStart name rtype).ancestors =
        some entry → env.clock s.tick < entry.expiresAt := by
  have hfound : findCachedStartFrom env.platform (env.clock s.tick) s.delegationCache
      (delegationStart name rtype).ancestors = some (zone, ips) := hstart
  obtain ⟨nearest, hnearest⟩ := nearestEntry_of_start hfound
  have hpurge : (purgeDelegationFor env name rtype s₁).delegationCache =
      purgeFrom env.platform (delegationStart name rtype).ancestors s.delegationCache := by
    rw [← hcache]
    rfl
  constructor
  · intro hpurged entry hentry
    by_contra hexpired
    have hstays := purgeFrom_of_expired hfound hentry hexpired
    obtain ⟨start, hpresent, -, -⟩ := findCachedStartFrom_entry hfound
    have hremoved := hpurged.removed
    rw [hpurge, hstays, hpresent] at hremoved
    cases hremoved
  · intro hcondition
    have hremove := purgeFrom_of_fresh hfound hnearest (hcondition nearest hnearest)
    rw [hremove] at hpurge
    have hremoved : (purgeDelegationFor env name rtype s₁).delegationCache
        (env.platform.nameKey zone) = none := by
      rw [hpurge]
      exact TextMap.remove_self _ _
    refine ⟨hremoved, ?_, ?_⟩
    · intro key entry hkey hentry _
      rw [hpurge, TextMap.remove_of_ne _ hkey, ← hcache]
      exact hentry
    · intro later hlater zone' ips' hfoundLater hkey
      obtain ⟨entry, hentry, -, -⟩ := findCachedStartFrom_entry hfoundLater
      have hpresent : later.delegationCache (env.platform.nameKey zone') = some entry := hentry
      rw [hlater, hkey, hremoved] at hpresent
      cases hpresent

/-- Two cached delegations: that of `c.` expires at 300, that of `e.c.` at `leafUntil`. -/
def purgeCached (leafUntil : Nat) : RState where
  tick := 0
  delegationCache :=
    (TextMap.empty.insert (leafEnv.platform.nameKey parentZone) ⟨[ip4 1 1 1 1], 300⟩).insert
      (leafEnv.platform.nameKey leafZone) ⟨[ip4 2 2 2 2], leafUntil⟩
  visited := []
  referrals := []

/-- An entry that has expired lies in front of the one whose servers failed. -/
theorem expired_entry_purged :
    ¬ ∀ (env : REnv) (name : Name) (rtype : RecordType) (s s₁ : RState) (zone : Name)
        (ips : List IpAddr), (findCachedStart env name rtype s).1 = some (zone, ips) →
      s₁.delegationCache = s.delegationCache →
        FailedStartPurged env name rtype zone (env.clock s.tick) s₁
          (purgeDelegationFor env name rtype s₁) := by
  intro hclaim
  have hpurged := hclaim leafEnv belowLeaf .A (purgeCached 0) (purgeCached 0) parentZone
    [ip4 1 1 1 1] rfl rfl
  have hremoved := hpurged.removed
  revert hremoved
  decide +kernel

/-- While it has not expired, the servers of `e.c.` are the start and are purged. -/
theorem failedStart_purged_iff_fresh :
    FailedStartPurged leafEnv belowLeaf .A leafZone 0 (purgeCached 300)
      (purgeDelegationFor leafEnv belowLeaf .A (purgeCached 300)) := by
  have hstart : (findCachedStart leafEnv belowLeaf .A (purgeCached 300)).1 =
      some (leafZone, [ip4 2 2 2 2]) := rfl
  refine (failedStart_purged_iff hstart rfl).mpr fun entry hentry => ?_
  have hnearest : nearestEntry leafEnv.platform (purgeCached 300).delegationCache
      (delegationStart belowLeaf .A).ancestors = some ⟨[ip4 2 2 2 2], 300⟩ := rfl
  rw [hnearest] at hentry
  cases hentry
  decide

end Recursor
end UnifiedDns
