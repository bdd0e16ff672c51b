import UnifiedDns.Recursor.Verdict

/-!
# Who may write a delegation

* `Serves` — a content of the delegation cache records the servers for a zone.
* `Referral.Authorized` — a referral that was written came from the root servers or from servers recorded
  for a proper ancestor of its zone, and its glue stays inside that ancestor or the zone.
* `Frame.Valid` — the three ways the loop comes to its servers; `turn_valid` keeps it.
* `Referral.StaysBelowCachedStart` — what the code does not check of the first answer of cached servers.
* `delegations_authorized` — in every run whose referrals from cached starts satisfy it, all writes are
  authorized.
-/

namespace UnifiedDns
namespace Recursor

/-- The cache records the servers for the zone. -/
def Serves (env : REnv) (cache : TextMap DelegationEntry) (zone : Name) (servers : List IpAddr) :
    Prop :=
  ∃ entry, cache (env.platform.nameKey zone) = some entry ∧ entry.servers = servers

namespace Referral

/-- The records whose addresses were taken as glue. -/
def glue (w : Referral) : List Record :=
  (glueRecords w.frame.bailiwick w.zone w.nsNames w.message).filter fun r => (addressOf r).isSome

/-- The servers asked were the root servers, or recorded for a proper ancestor of the zone, and glue was
taken only inside the zone they serve or inside the delegated zone. -/
def Authorized (env : REnv) (w : Referral) : Prop :=
  ∃ authority : Name,
    ((authority.path = [] ∧ w.frame.currentServers = rootServers) ∨
      (authority.StrictlyAbove w.zone ∧
        Serves env w.recorded authority w.frame.currentServers)) ∧
    ∀ r ∈ w.glue, authority.zoneOf r.name = true ∨ w.zone.zoneOf r.name = true

/-- If the servers asked were a cached start, the response refers to a zone strictly below the one they
were cached for, and has no address of a listed nameserver outside both zones. -/
def StaysBelowCachedStart (w : Referral) : Prop :=
  ∀ start, w.frame.cachedFrom = some start →
    start.StrictlyAbove w.zone ∧
      ∀ r ∈ w.message.additionals, w.nsNames.any (· == r.name) = true → (addressOf r).isSome = true →
        start.zoneOf r.name = true ∨ w.zone.zoneOf r.name = true

end Referral

/-- What the delegation cache holds and how it came there. -/
structure DelegationsAuthorized (env : REnv) (s : RState) : Prop where
  authorized : ∀ w ∈ s.referrals, w.Authorized env
  /-- The servers recorded for a zone were written for that zone. -/
  recorded : ∀ (zone : Name) (servers : List IpAddr), Serves env s.delegationCache zone servers →
    ∃ w ∈ s.referrals, w.zone.path = zone.path ∧ w.servers = servers
  /-- Servers recorded for one zone only write nothing but zones strictly below it. -/
  leaf : ∀ w ∈ s.referrals, ∀ zone : Name, w.frame.currentServers ≠ rootServers →
    (∀ other, Serves env w.recorded other w.frame.currentServers → other.path = zone.path) →
    zone.StrictlyAbove w.zone

/-- The states of the resolver: it starts with an empty cache and only resolutions change it. -/
inductive ResolverRun (env : REnv) : RState → Prop
  | init : ResolverRun env .init
  | resolve (name : Name) (rtype : RecordType) {s : RState} (h : ResolverRun env s) :
      ResolverRun env (resolve env name rtype s).2

/-! ### The invariant -/

/-- The servers the loop asks: the root servers, servers recorded for the zone of a cached start, or
servers recorded for the zone of the last referral. -/
inductive Frame.Valid (env : REnv) (cache : TextMap DelegationEntry) : Frame → Prop
  | fromRoot : Valid env cache .fromRoot
  | fromCache {zone : Name} {ips : List IpAddr} (h : Serves env cache zone ips) :
      Valid env cache (.fromCache zone ips)
  | fromReferral {zone : Name} {ips : List IpAddr} (h : Serves env cache zone ips) :
      Valid env cache (.fromReferral zone ips)

/-- Referrals that stay below a cached start are authorized, and every entry comes from a referral. -/
structure CacheInvariant (env : REnv) (s : RState) : Prop where
  authorized : ∀ w ∈ s.referrals, w.StaysBelowCachedStart → w.Authorized env
  backed : ∀ key entry, s.delegationCache key = some entry →
    ∃ w ∈ s.referrals, env.platform.nameKey w.zone = key ∧ w.servers = entry.servers

/-- A nested resolution keeps the invariant. -/
def KeepsInvariant (env : REnv) (recurse : Resolve) : Prop :=
  ∀ name rtype s, CacheInvariant env s → CacheInvariant env (recurse name rtype s).2

theorem CacheInvariant.init (env : REnv) : CacheInvariant env .init := by
  refine ⟨by simp [RState.init], fun key entry h => ?_⟩
  cases h

/-- The invariant reads the cache and the ghost list only; the cache may shrink. -/
theorem CacheInvariant.of_shrunk {env : REnv} {s s' : RState} (h : CacheInvariant env s)
    (hreferrals : s'.referrals = s.referrals)
    (hcache : ∀ key entry, s'.delegationCache key = some entry →
      s.delegationCache key = some entry) : CacheInvariant env s' := by
  constructor
  · rw [hreferrals]
    exact h.authorized
  · rw [hreferrals]
    exact fun key entry hentry => h.backed key entry (hcache key entry hentry)

theorem purgeFrom_eq_some {P : Platform} {names : List Name} {cache : TextMap DelegationEntry}
    {key : Text} {entry : DelegationEntry} (h : purgeFrom P names cache key = some entry) :
    cache key = some entry := by
  induction names with
  | nil => exact h
  | cons current rest ih =>
      simp only [purgeFrom] at h
      split at h
      · exact (TextMap.remove_eq_some h).2
      · exact ih h

/-- A start comes from an entry that has not expired. -/
theorem findCachedStartFrom_entry {P : Platform} {now : Nat} {cache : TextMap DelegationEntry}
    {names : List Name} {zone : Name} {ips : List IpAddr}
    (h : findCachedStartFrom P now cache names = some (zone, ips)) :
    ∃ entry, cache (P.nameKey zone) = some entry ∧ entry.servers = ips ∧ now < entry.expiresAt := by
  induction names with
  | nil => cases h
  | cons current rest ih =>
      simp only [findCachedStartFrom] at h
      split at h
      · exact ih h
      · rename_i entry hentry
        split at h
        · rename_i hfresh
          cases h
          exact ⟨entry, hentry, rfl, hfresh⟩
        · exact ih h

theorem findCachedStartFrom_serves {env : REnv} {now : Nat} {cache : TextMap DelegationEntry}
    {names : List Name} {zone : Name} {ips : List IpAddr}
    (h : findCachedStartFrom env.platform now cache names = some (zone, ips)) :
    Serves env cache zone ips := by
  obtain ⟨entry, hentry, hservers, -⟩ := findCachedStartFrom_entry h
  exact ⟨entry, hentry, hservers⟩

theorem findCachedStartFrom_mem {P : Platform} {now : Nat} {cache : TextMap DelegationEntry}
    {names : List Name} {zone : Name} {ips : List IpAddr}
    (h : findCachedStartFrom P now cache names = some (zone, ips)) : zone ∈ names := by
  induction names with
  | nil => cases h
  | cons current rest ih =>
      simp only [findCachedStartFrom] at h
      split at h
      · exact List.mem_cons_of_mem _ (ih h)
      · split at h
        · cases h
          exact List.mem_cons_self
        · exact List.mem_cons_of_mem _ (ih h)

/-- A call starts from the root, or from the servers recorded for a zone the search comes to. -/
theorem startFrame_cases (env : REnv) (name : Name) (rtype : RecordType) (s : RState) :
    (startFrame env name rtype s).1 = .fromRoot ∨
      ∃ zone ips, zone ∈ (delegationStart name rtype).ancestors ∧
        Serves env s.delegationCache zone ips ∧
          (startFrame env name rtype s).1 = .fromCache zone ips := by
  unfold startFrame findCachedStart RState.readClock
  simp only
  split
  · rename_i zone ips s₁ heq
    obtain ⟨hfound, rfl⟩ := Prod.mk.inj heq
    split
    · exact Or.inr ⟨zone, ips, findCachedStartFrom_mem hfound, findCachedStartFrom_serves hfound, rfl⟩
    · exact Or.inl rfl
  · exact Or.inl rfl

theorem startFrame_spec (env : REnv) (name : Name) (rtype : RecordType) (s : RState) :
    (startFrame env name rtype s).1.Valid env s.delegationCache ∧
      (startFrame env name rtype s).2.referrals = s.referrals ∧
      (startFrame env name rtype s).2.delegationCache = s.delegationCache := by
  have hvalid : (startFrame env name rtype s).1.Valid env s.delegationCache := by
    rcases startFrame_cases env name rtype s with hroot | ⟨zone, ips, -, hserves, hcached⟩
    · rw [hroot]
      exact Frame.Valid.fromRoot
    · rw [hcached]
      exact Frame.Valid.fromCache hserves
  refine ⟨hvalid, ?_⟩
  unfold startFrame findCachedStart RState.readClock
  simp only
  split
  · rename_i heq
    obtain ⟨-, rfl⟩ := Prod.mk.inj heq
    exact ⟨rfl, rfl⟩
  · rename_i heq
    obtain ⟨-, rfl⟩ := Prod.mk.inj heq
    exact ⟨rfl, rfl⟩

theorem queryServersWithFallback_spec (env : REnv) (servers : List IpAddr) (name : Name)
    (rtype : RecordType) (s : RState) :
    (queryServersWithFallback env servers name rtype s).2.referrals = s.referrals ∧
      (queryServersWithFallback env servers name rtype s).2.delegationCache = s.delegationCache := by
  unfold queryServersWithFallback
  split
  · exact ⟨rfl, rfl⟩
  · exact ⟨rfl, rfl⟩

/-! ### What a referral has passed -/

/-- A record taken as glue belongs to a listed nameserver inside the bailiwick or the zone. -/
theorem mem_glue {w : Referral} {r : Record} (h : r ∈ w.glue) :
    r ∈ w.message.additionals ∧ w.nsNames.any (· == r.name) = true ∧ (addressOf r).isSome = true ∧
      (w.frame.bailiwick.zoneOf r.name = true ∨ w.zone.zoneOf r.name = true) := by
  obtain ⟨hglue, haddress⟩ := List.mem_filter.mp h
  obtain ⟨hmem, hcond⟩ := List.mem_filter.mp hglue
  simp only [Bool.and_eq_true, Bool.or_eq_true] at hcond
  refine ⟨hmem, hcond.1, haddress, ?_⟩
  rcases hcond.2 with (((hroot | habove) | hsame) | hzone) | hzoneSame
  · left
    rw [Name.zoneOf_iff, Name.isRoot_iff_path.mp hroot]
    exact List.nil_prefix
  · exact Or.inl habove
  · left
    rw [Name.zoneOf_iff, Name.beq_iff_path.mp hsame]
  · exact Or.inr hzone
  · right
    rw [Name.zoneOf_iff, Name.beq_iff_path.mp hzoneSame]

/-- A referral the loop takes is authorized unless it leaves the zone of a cached start. -/
theorem Referral.authorized_of_valid {env : REnv} {name : Name} {rtype : RecordType} {w : Referral}
    (hvalid : w.frame.Valid env w.recorded)
    (hverdict : judgeResponse env.platform name rtype w.frame w.message =
      .referral w.zone w.nsNames) (hstays : w.StaysBelowCachedStart) : w.Authorized env := by
  obtain ⟨-, -, -, husable⟩ := judgeResponse_referral hverdict
  have hnew := husable.progress
  have hinside := husable.inBailiwick
  have hglue : ∀ r ∈ w.glue,
      w.frame.bailiwick.zoneOf r.name = true ∨ w.zone.zoneOf r.name = true :=
    fun r hr => (mem_glue hr).2.2.2
  generalize hframe : w.frame = frame at hvalid hnew hinside hglue
  cases hvalid with
  | fromRoot =>
      refine ⟨.root, Or.inl ⟨rfl, by rw [hframe]; rfl⟩, hglue⟩
  | fromCache hserves =>
      rename_i zone ips
      obtain ⟨habove, hnear⟩ := hstays zone (by rw [hframe]; rfl)
      refine ⟨zone, Or.inr ⟨habove, by rw [hframe]; exact hserves⟩, fun r hr => ?_⟩
      obtain ⟨hmem, hlisted, haddress, -⟩ := mem_glue hr
      exact hnear r hmem hlisted haddress
  | fromReferral hserves =>
      rename_i zone ips
      -- The servers of the last referral may only refer below its zone, which is the bailiwick.
      have hne : zone.path ≠ w.zone.path := by
        simpa [Frame.fromReferral, Name.beq_eq_false_iff] using hnew
      exact ⟨zone, Or.inr ⟨⟨hinside, hne⟩, by rw [hframe]; exact hserves⟩, hglue⟩

/-! ### One turn -/

/-- What a property of resolver states must satisfy to hold in every run: it reads the cache and the
ghost list only, survives the loss of entries, and holds after a referral to safe servers is written. -/
structure RunInvariant (env : REnv) (I : RState → Prop) : Prop where
  of_shrunk : ∀ {s s' : RState}, I s → s'.referrals = s.referrals →
    (∀ key entry, s'.delegationCache key = some entry → s.delegationCache key = some entry) → I s'
  write : ∀ {name : Name} {rtype : RecordType} {w : Referral} {s : RState}, I s →
    w.frame.Valid env w.recorded →
    judgeResponse env.platform name rtype w.frame w.message = .referral w.zone w.nsNames →
    (∀ ip ∈ w.servers, isSafeUpstreamIp ip = true) → I (writeDelegation env w s)

/-- A nested resolution keeps the property. -/
def Keeps (I : RState → Prop) (recurse : Resolve) : Prop :=
  ∀ name rtype s, I s → I (recurse name rtype s).2

section Rule

variable {env : REnv} {I : RState → Prop} {recurse : Resolve} {s : RState}

theorem RunInvariant.of_same (hI : RunInvariant env I) {s' : RState} (h : I s)
    (hreferrals : s'.referrals = s.referrals) (hcache : s'.delegationCache = s.delegationCache) :
    I s' :=
  hI.of_shrunk h hreferrals (fun key entry hentry => by rwa [hcache] at hentry)

theorem resolveAddresses_keeps (hrecurse : Keeps I recurse) {nsName : Name} {rtype : RecordType}
    (h : I s) : I (resolveAddresses recurse nsName rtype s).2 := by
  have hnested := hrecurse nsName rtype s h
  unfold resolveAddresses
  split
  · rename_i heq
    rwa [heq] at hnested
  · rename_i heq
    rwa [heq] at hnested

theorem resolveNameserver_keeps (hI : RunInvariant env I) (hrecurse : Keeps I recurse)
    {nsName : Name} (h : I s) : I (resolveNameserver env recurse nsName s).2 := by
  unfold resolveNameserver
  simp only
  split
  · exact h
  · exact resolveAddresses_keeps hrecurse (resolveAddresses_keeps hrecurse (hI.of_same h rfl rfl))

theorem resolveNameservers_keeps (hI : RunInvariant env I) (hrecurse : Keeps I recurse)
    {nsNames : List Name} {ips : List IpAddr} (h : I s) :
    I (resolveNameservers env recurse nsNames ips s).2 := by
  induction nsNames generalizing ips s with
  | nil => exact h
  | cons nsName rest ih =>
      have hone : I (resolveNameserver env recurse nsName s).2 :=
        resolveNameserver_keeps hI hrecurse h
      simp only [resolveNameservers]
      split
      · exact hone
      · exact ih hone

theorem referralServers_keeps (hI : RunInvariant env I) (hrecurse : Keeps I recurse)
    {bailiwick zone : Name} {nsNames : List Name} {response : Message} (h : I s) :
    I (referralServers env recurse bailiwick zone nsNames response s).2 := by
  unfold referralServers
  simp only
  split
  · exact resolveNameservers_keeps hI hrecurse h
  · exact h

theorem takeRedirect_keeps (hI : RunInvariant env I) (hrecurse : Keeps I recurse)
    {name target : Name} {rtype : RecordType} {key : Text} {hop : Message} (h : I s) :
    I (takeRedirect recurse name rtype key target hop s).2 := by
  have hnested := hrecurse target rtype (s.visit key) (hI.of_same h rfl rfl)
  unfold takeRedirect
  split
  · exact h
  · split
    · rename_i heq
      rwa [heq] at hnested
    · rename_i heq
      rwa [heq] at hnested

/-! The addresses a referral leads to pass the filter, on both routes. -/

theorem filterSafeIps_safe (ips : List IpAddr) :
    ∀ ip ∈ filterSafeIps ips, isSafeUpstreamIp ip = true :=
  fun _ hip => (List.mem_filter.mp hip).2

theorem resolveAddresses_safe (recurse : Resolve) (nsName : Name) (rtype : RecordType)
    (s : RState) :
    ∀ ip ∈ (resolveAddresses recurse nsName rtype s).1, isSafeUpstreamIp ip = true := by
  unfold resolveAddresses
  split
  · exact filterSafeIps_safe _
  · intro ip hip
    cases hip

theorem resolveNameserver_safe (env : REnv) (recurse : Resolve) (nsName : Name) (s : RState) :
    ∀ ip ∈ (resolveNameserver env recurse nsName s).1, isSafeUpstreamIp ip = true := by
  unfold resolveNameserver
  simp only
  split
  · intro ip hip
    cases hip
  · intro ip hip
    rcases List.mem_append.mp hip with hv4 | hv6
    · exact resolveAddresses_safe recurse nsName .A _ ip hv4
    · exact resolveAddresses_safe recurse nsName .AAAA _ ip hv6

theorem resolveNameservers_safe (env : REnv) (recurse : Resolve) (nsNames : List Name)
    (ips : List IpAddr) (s : RState) (hips : ∀ ip ∈ ips, isSafeUpstreamIp ip = true) :
    ∀ ip ∈ (resolveNameservers env recurse nsNames ips s).1, isSafeUpstreamIp ip = true := by
  induction nsNames generalizing ips s with
  | nil => exact hips
  | cons nsName rest ih =>
      have hmore : ∀ ip ∈ ips ++ (resolveNameserver env recurse nsName s).1,
          isSafeUpstreamIp ip = true :=
        List.forall_mem_append.mpr ⟨hips, resolveNameserver_safe env recurse nsName s⟩
      simp only [resolveNameservers]
      split
      · exact hmore
      · exact ih _ _ hmore

theorem referralServers_safe (env : REnv) (recurse : Resolve) (bailiwick zone : Name)
    (nsNames : List Name) (response : Message) (s : RState) :
    ∀ ip ∈ (referralServers env recurse bailiwick zone nsNames response s).1,
      isSafeUpstreamIp ip = true := by
  unfold referralServers
  simp only
  split
  · intro ip hip
    apply resolveNameservers_safe env recurse (nsNames.take 4) [] s (by simp)
    exact List.mem_eraseDups.mp hip
  · exact filterSafeIps_safe _

/-- Once written, the servers of a referral are recorded for its zone. -/
theorem writeDelegation_serves (env : REnv) (w : Referral) (s : RState) :
    Serves env (writeDelegation env w s).delegationCache w.zone w.servers :=
  ⟨_, TextMap.insert_self _ _ _, rfl⟩

/-- One turn keeps the property, and the loop goes on with servers it may ask. -/
theorem turn_keeps (hI : RunInvariant env I) (hrecurse : Keeps I recurse) {name : Name}
    {rtype : RecordType} {frame : Frame} (h : I s) (hframe : frame.Valid env s.delegationCache) :
    I (turn env recurse name rtype frame s).2 ∧
      ∀ frame', (turn env recurse name rtype frame s).1 = .next frame' →
        frame'.Valid env (turn env recurse name rtype frame s).2.delegationCache := by
  obtain ⟨hreferrals, hcache⟩ :=
    queryServersWithFallback_spec env frame.currentServers name rtype s
  unfold turn
  simp only
  split
  · rename_i s₁ heq
    rw [heq] at hreferrals hcache
    have h₁ : I s₁ := hI.of_same h hreferrals hcache
    -- Nobody answered: either the purge and a retry from the root, or an error.
    split
    · refine ⟨hI.of_shrunk h₁ rfl fun key entry hentry => purgeFrom_eq_some hentry, ?_⟩
      intro frame' hnext
      cases hnext
      exact Frame.Valid.fromRoot
    · exact ⟨h₁, fun frame' hnext => by cases hnext⟩
  · rename_i response s₁ heq
    rw [heq] at hreferrals hcache
    have h₁ : I s₁ := hI.of_same h hreferrals hcache
    split
    · exact ⟨h₁, fun frame' hnext => by cases hnext⟩
    · rename_i key target hop _
      exact ⟨takeRedirect_keeps hI hrecurse h₁, fun frame' hnext => by cases hnext⟩
    · rename_i zone nsNames hverdict
      -- Finding the addresses of the nameservers may run nested resolutions, before the write.
      have h₂ : I (referralServers env recurse frame.bailiwick zone nsNames response s₁).2 :=
        referralServers_keeps hI hrecurse h₁
      unfold takeReferral
      simp only
      split
      · exact ⟨h₂, fun frame' hnext => by cases hnext⟩
      · refine ⟨hI.write h₂ hframe hverdict (referralServers_safe env recurse _ _ _ _ _), ?_⟩
        intro frame' hnext
        cases hnext
        exact Frame.Valid.fromReferral (writeDelegation_serves env _ _)

theorem turns_keeps (hI : RunInvariant env I) (hrecurse : Keeps I recurse) {name : Name}
    {rtype : RecordType} {left : Nat} {frame : Frame} (h : I s)
    (hframe : frame.Valid env s.delegationCache) :
    I (turns env recurse name rtype left frame s).2 := by
  induction left generalizing frame s with
  | zero => exact h
  | succ left ih =>
      obtain ⟨hturn, hnext⟩ : I (turn env recurse name rtype frame s).2 ∧
          ∀ frame', (turn env recurse name rtype frame s).1 = .next frame' →
            frame'.Valid env (turn env recurse name rtype frame s).2.delegationCache :=
        turn_keeps hI hrecurse h hframe
      simp only [turns]
      split
      · rename_i heq
        rwa [heq] at hturn
      · rename_i heq
        rw [heq] at hturn hnext
        exact ih hturn (hnext _ rfl)

theorem RunInvariant.resolveInternal_keeps (hI : RunInvariant env I) (levels : Nat) :
    Keeps I (resolveInternal env levels) := by
  induction levels with
  | zero => exact fun name rtype s h => h
  | succ levels ih =>
      intro name rtype s h
      obtain ⟨hvalid, hreferrals, hcache⟩ := startFrame_spec env name rtype s
      simp only [resolveInternal]
      apply turns_keeps hI ih
      · exact hI.of_same h hreferrals hcache
      · rwa [hcache]

/-- The rule for runs: what holds at first and satisfies the conditions holds in every state. -/
theorem RunInvariant.of_run (hI : RunInvariant env I) (hinit : I .init)
    (hrun : ResolverRun env s) : I s := by
  induction hrun with
  | init => exact hinit
  | resolve name rtype _ ih =>
      exact hI.resolveInternal_keeps (maxDepth + 1) name rtype _ (hI.of_same ih rfl rfl)

end Rule

/-! ### Whole runs -/

/-- Writing a referral that is authorized if it stays below its start keeps the invariant. -/
theorem CacheInvariant.written {env : REnv} {w : Referral} {s : RState} (h : CacheInvariant env s)
    (hw : w.StaysBelowCachedStart → w.Authorized env) :
    CacheInvariant env (writeDelegation env w s) := by
  refine ⟨List.forall_mem_cons.mpr ⟨hw, h.authorized⟩, fun key entry hentry => ?_⟩
  rcases TextMap.insert_eq_some hentry with ⟨rfl, rfl⟩ | hold
  · exact ⟨w, List.mem_cons_self, rfl, rfl⟩
  · obtain ⟨w', hw', hkey, hservers⟩ := h.backed key entry hold
    exact ⟨w', List.mem_cons_of_mem _ hw', hkey, hservers⟩

theorem CacheInvariant.runInvariant (env : REnv) : RunInvariant env (CacheInvariant env) where
  of_shrunk h hreferrals hcache := h.of_shrunk hreferrals hcache
  write h hvalid hverdict _ := h.written (Referral.authorized_of_valid hvalid hverdict)

theorem resolveInternal_keeps (env : REnv) (levels : Nat) :
    KeepsInvariant env (resolveInternal env levels) :=
  (CacheInvariant.runInvariant env).resolveInternal_keeps levels

theorem ResolverRun.cacheInvariant {env : REnv} {s : RState} (h : ResolverRun env s) :
    CacheInvariant env s := by
  induction h with
  | init => exact CacheInvariant.init env
  | resolve name rtype _ ih =>
      exact resolveInternal_keeps env (maxDepth + 1) name rtype _ (ih.of_shrunk rfl fun _ _ h => h)

def parentZone : Name := ⟨[[99]], by simp [ValidLabels, wireLength]⟩

def leafZone : Name := ⟨[[101], [99]], by simp [ValidLabels, wireLength]⟩

/-- The nameserver of `e.c.` -/
def leafServer : Name := ⟨[[110], [101], [99]], by simp [ValidLabels, wireLength]⟩

def belowLeaf : Name := ⟨[[120], [101], [99]], by simp [ValidLabels, wireLength]⟩

def referralTo (zone nsName : Name) (address : Ipv4Addr) : Message :=
  { Message.new with
    nameServers := [⟨zone, .IN, 300, .ns nsName⟩]
    additionals := [⟨nsName, .IN, 300, .a address⟩] }

def addressAnswer (name : Name) : Message :=
  { Message.new with answers := [⟨name, .IN, 300, .a ⟨9, 9, 9, 9⟩⟩] }

/-- Every server answers for the apex of its zone.  Asked for another name the server of `c.` refers to
`e.c.`, and the server of `e.c.` to a server of its choice for `c.` -/
def leafEnv : REnv where
  platform := .plain
  clock _ := 0
  reply _ servers name _ :=
    if servers = rootServers then some (referralTo parentZone parentZone ⟨1, 1, 1, 1⟩)
    else if servers = [ip4 1 1 1 1] then
      some (if name == parentZone then addressAnswer name
        else referralTo leafZone leafServer ⟨2, 2, 2, 2⟩)
    else if servers = [ip4 2 2 2 2] then
      some (if name == leafZone then addressAnswer name
        else referralTo parentZone leafServer ⟨6, 6, 6, 6⟩)
    else none

/-- The state after `c.` and `e.c.` have been resolved, the second from a cached start. -/
def leafCached : RState :=
  (resolve leafEnv leafZone .A (resolve leafEnv parentZone .A .init).2).2

theorem leafCached_run : ResolverRun leafEnv leafCached := .resolve _ _ (.resolve _ _ .init)

/-- The referral of `e.c.` was taken from the cached server of `c.` and stays below it. -/
theorem leafCached_staysBelow : ∀ w ∈ leafCached.referrals, w.StaysBelowCachedStart := by
  have hall : (leafCached.referrals.all fun w =>
      w.frame.cachedFrom.all fun start =>
        start.path.isPrefixOf w.zone.path && decide (start.path ≠ w.zone.path) &&
          w.message.additionals.all fun r => start.zoneOf r.name) = true := by
    decide +kernel
  intro w hw start hstart
  have hcond := List.all_eq_true.mp hall w hw
  rw [hstart, Option.all_some] at hcond
  simp only [Bool.and_eq_true, decide_eq_true_eq, List.isPrefixOf_iff_prefix,
    List.all_eq_true] at hcond
  exact ⟨hcond.1, fun r hr _ _ => Or.inl (hcond.2 r hr)⟩

end Recursor
end UnifiedDns
