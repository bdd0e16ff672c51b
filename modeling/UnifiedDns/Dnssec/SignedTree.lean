import UnifiedDns.Dnssec.Downgrade
import UnifiedDns.Dnssec.Signers

/-!
# What is correctly signed is validated

The other direction of authenticity.  A tree of zones in which every label is a zone of its own is signed from
the root down; whatever else the resolver brings, chains of trust into this tree come out trusted and RRsets
signed by its zones come out `secure`, as far as the budget of one message goes.

* `VState.Affords`, `VState.Spends` — the checks that are left, and those a function takes.
* `Verifiable` — an RRset with a good signature and few candidates for it.
* `SignedTree`, `SignedTree.Published` — the keys and DS records of the zones, and that the resolver brings
  them.
* `SignedTree.Cached` — the key cache holds the keys of the zones; every validation keeps it.
* `buildTrustChain_finds` — the chain of a zone of the tree is trusted.
* `AnswerSigned` — the RRsets an answer is made of are signed.
* `signed_answer_secure` — in every run of validations such an answer is `secure`.
-/

namespace UnifiedDns

/-- The letters of a name are in lower case. -/
def Name.IsLower (n : Name) : Prop := ∀ l ∈ n.labels, lowerLabel l = l

instance (n : Name) : Decidable n.IsLower :=
  inferInstanceAs (Decidable (∀ l ∈ n.labels, lowerLabel l = l))

/-- A name in lower case is given by its path. -/
theorem Name.IsLower.eq {n m : Name} (hn : n.IsLower) (hm : m.IsLower) (h : n.path = m.path) : n = m := by
  have hlabels : ∀ k : Name, k.IsLower → k.labels = k.path.reverse := by
    intro k hk
    have hsame : k.labels.map lowerLabel = k.labels.map id := List.map_congr_left hk
    rw [Name.path, List.reverse_reverse, hsame, List.map_id]
  cases n
  cases m
  simp only [Name.mk.injEq]
  exact (hlabels _ hn).trans ((congrArg List.reverse h).trans (hlabels _ hm).symm)

theorem Name.IsLower.baseName {n : Name} (h : n.IsLower) : n.baseName.IsLower :=
  fun l hl => h l (List.mem_of_mem_tail hl)

theorem Name.IsLower.climb {n m : Name} {steps : Nat} (h : n.IsLower) (hm : m ∈ Name.climb steps n) :
    m.IsLower := by
  induction steps generalizing n with
  | zero =>
      rw [List.mem_singleton.mp hm]
      exact h
  | succ steps ih =>
      rcases List.mem_cons.mp hm with rfl | htail
      · exact h
      · split at htail
        · cases htail
        · exact ih h.baseName htail

namespace Dnssec

/-! ### The budget -/

namespace VState

/-- The budget allows this many checks. -/
def Affords (s : VState) (n : Nat) : Prop := s.budget.sigChecks + n ≤ s.budget.maxSigChecks

/-- From `s` to `s'` at most this many checks were spent. -/
structure Spends (s s' : VState) (n : Nat) : Prop where
  limit_eq : s'.budget.maxSigChecks = s.budget.maxSigChecks
  checks_le : s'.budget.sigChecks ≤ s.budget.sigChecks + n

theorem Spends.of_eq {s s' : VState} (h : s'.budget = s.budget) : s.Spends s' 0 :=
  ⟨by rw [h], by rw [h]; exact le_rfl⟩

theorem Spends.trans {a b c : VState} {m n : Nat} (hab : a.Spends b m) (hbc : b.Spends c n) :
    a.Spends c (m + n) := by
  have hfirst := hab.checks_le
  have hsecond := hbc.checks_le
  exact ⟨hbc.limit_eq.trans hab.limit_eq, by omega⟩

theorem Spends.mono {s s' : VState} {m n : Nat} (h : s.Spends s' m) (hmn : m ≤ n) :
    s.Spends s' n :=
  ⟨h.limit_eq, h.checks_le.trans (Nat.add_le_add_left hmn _)⟩

theorem Affords.mono {s : VState} {m n : Nat} (h : s.Affords n) (hmn : m ≤ n) : s.Affords m :=
  (Nat.add_le_add_left hmn _).trans h

/-- What is left after a part of the checks has been spent. -/
theorem Affords.after {s s' : VState} {m n : Nat} (h : s.Affords (m + n)) (hspends : s.Spends s' m) :
    s'.Affords n := by
  have hlimit := hspends.limit_eq
  have hchecks := hspends.checks_le
  unfold Affords at h ⊢
  omega

end VState

/-- The pairs a search pays for. -/
def tagMatches (P : Platform) (pair : RRSIG × DNSKEY) : Bool := keyTagMatches P pair.2 pair.1.keyTag

/-- One of the signatures is good under one of the keys at all times, and at most `limit` pairs are
candidates. -/
structure Verifiable (env : Env) (limit : Nat) (rrsigs : List RRSIG) (keys : List DNSKEY) (owner : Name)
    (records : List Record) : Prop where
  good : ∃ pair ∈ signaturePairs rrsigs keys, tagMatches env.platform pair = true ∧
    ∀ tick, verifyRrsig env.platform (env.clock tick) pair.1 pair.2 owner records = true
  few : (signaturePairs rrsigs keys).countP (tagMatches env.platform) ≤ limit

theorem Verifiable.of_mem {env : Env} {limit : Nat} {rrsigs : List RRSIG} {keys : List DNSKEY} {owner : Name}
    {records : List Record} (sig : RRSIG) (key : DNSKEY) (hsig : sig ∈ rrsigs) (hkey : key ∈ keys)
    (htag : keyTagMatches env.platform key sig.keyTag = true)
    (hverifies : ∀ tick, verifyRrsig env.platform (env.clock tick) sig key owner records = true)
    (hfew : (signaturePairs rrsigs keys).countP (tagMatches env.platform) ≤ limit) :
    Verifiable env limit rrsigs keys owner records :=
  ⟨⟨(sig, key), mem_signaturePairs.mpr ⟨hsig, hkey⟩, htag, hverifies⟩, hfew⟩

theorem searchSignatures_finds {env : Env} {owner : Name} {records : List Record}
    {pairs : List (RRSIG × DNSKEY)} {s : VState}
    (hgood : ∃ pair ∈ pairs, tagMatches env.platform pair = true ∧
      ∀ tick, verifyRrsig env.platform (env.clock tick) pair.1 pair.2 owner records = true)
    (hbudget : s.Affords (pairs.countP (tagMatches env.platform))) :
    ∃ s', searchSignatures env owner records pairs s = (.verified, s') ∧
      s.Spends s' (pairs.countP (tagMatches env.platform)) := by
  induction pairs generalizing s with
  | nil =>
      obtain ⟨pair, hmem, -⟩ := hgood
      cases hmem
  | cons pair rest ih =>
      obtain ⟨rrsig, key⟩ := pair
      obtain ⟨good, hmem, htag, hverifies⟩ := hgood
      cases hhere : tagMatches env.platform (rrsig, key) with
      | false =>
          have hrest : good ∈ rest := by
            rcases List.mem_cons.mp hmem with rfl | hrest
            · rw [hhere] at htag
              cases htag
            · exact hrest
          rw [List.countP_cons_of_neg (by simp [hhere])] at hbudget ⊢
          have hskip : ¬ keyTagMatches env.platform key rrsig.keyTag = true := by
            simpa [tagMatches] using hhere
          simp only [searchSignatures, if_neg hskip]
          exact ih ⟨good, hrest, htag, hverifies⟩ hbudget
      | true =>
          rw [List.countP_cons_of_pos hhere] at hbudget ⊢
          have hpay : keyTagMatches env.platform key rrsig.keyTag = true := hhere
          have hleft : ¬ s.budget.maxSigChecks ≤ s.budget.sigChecks := by
            unfold VState.Affords at hbudget
            omega
          simp only [searchSignatures, if_pos hpay, VState.canCheckSig, if_neg hleft, checkRrsig,
            VState.readClock]
          cases hverify : verifyRrsig env.platform (env.clock s.tick) rrsig key owner records with
          | true => exact ⟨_, rfl, rfl, by simp only; omega⟩
          | false =>
              have hrest : good ∈ rest := by
                rcases List.mem_cons.mp hmem with rfl | hrest
                · rw [hverifies s.tick] at hverify
                  cases hverify
                · exact hrest
              -- One check has been spent on a signature that is not good.
              obtain ⟨s', hsearch, hspends⟩ := @ih
                { s with tick := s.tick + 1, budget := { s.budget with sigChecks := s.budget.sigChecks + 1 },
                         verifyCalls := s.verifyCalls + 1 } ⟨good, hrest, htag, hverifies⟩ (by
                  unfold VState.Affords at hbudget ⊢
                  simp only
                  omega)
              refine ⟨s', hsearch, hspends.limit_eq, ?_⟩
              have hchecks := hspends.checks_le
              simp only at hchecks
              omega

theorem Verifiable.search {env : Env} {limit : Nat} {rrsigs : List RRSIG} {keys : List DNSKEY}
    {owner : Name} {records : List Record} (h : Verifiable env limit rrsigs keys owner records)
    {s : VState} (hbudget : s.Affords limit) :
    ∃ s', searchSignatures env owner records (signaturePairs rrsigs keys) s = (.verified, s') ∧
      s.Spends s' limit := by
  obtain ⟨s', hsearch, hspends⟩ := searchSignatures_finds h.good (hbudget.mono h.few)
  exact ⟨s', hsearch, hspends.mono h.few⟩

/-- Where a search finds a pair there are signatures and keys. -/
theorem Verifiable.ne_nil {env : Env} {limit : Nat} {rrsigs : List RRSIG} {keys : List DNSKEY}
    {owner : Name} {records : List Record} (h : Verifiable env limit rrsigs keys owner records) :
    rrsigs.isEmpty = false ∧ keys.isEmpty = false := by
  obtain ⟨⟨rrsig, key⟩, hmem, -⟩ := h.good
  obtain ⟨hrrsig, hkey⟩ := mem_signaturePairs.mp hmem
  exact ⟨List.isEmpty_eq_false_iff.mpr (List.ne_nil_of_mem hrrsig),
    List.isEmpty_eq_false_iff.mpr (List.ne_nil_of_mem hkey)⟩

/-! ### The tree -/

/-- Zones signed from the root down, every label a zone of its own. -/
structure SignedTree where
  zone : Path → Prop
  /-- The zone keys. -/
  keys : Path → List DNSKEY
  /-- The DS records for the zone that the validator can use. -/
  ds : Path → List DS
  closed : ∀ {p : Path}, zone p → zone p.dropLast
  root_ds : ds [] = rootDs

namespace SignedTree

/-- The answer to the DNSKEY question leads from the DS records to the keys. -/
def PublishesKeys (T : SignedTree) (env : Env) (limit : Nat) (zone : Name) (m : Message) : Prop :=
  Verifiable env limit (rrsigsOver m.answers .DNSKEY)
    (matchedKeys env.platform zone (T.ds zone.path) (dnskeyRecords m.answers zone)) zone
    (rrset m.answers zone .DNSKEY)

/-- The answer to the DS question leads from the keys of the parent to the DS records. -/
structure PublishesDs (T : SignedTree) (env : Env) (limit : Nat) (zone : Name) (m : Message) : Prop where
  ds : (dsRecords m.answers zone).filter supportedDs = T.ds zone.path
  nonempty : T.ds zone.path ≠ []
  signed : Verifiable env limit (rrsigsOver m.answers .DS) (T.keys zone.path.dropLast) zone
    (rrset m.answers zone .DS)

/-- What the resolver brings of the tree: no other keys than those of the zone, whatever the spelling of the
question, and, in lower case, the signed answers. -/
structure Published (T : SignedTree) (env : Env) (limit : Nat) : Prop where
  dnskeys : ∀ {zone : Name} {tick : Nat} {m : Message}, T.zone zone.path →
    env.resolve tick zone .DNSKEY = some m →
      (dnskeyRecords m.answers zone).filter isZoneKey = T.keys zone.path
  keys : ∀ {zone : Name}, T.zone zone.path → zone.IsLower → ∀ tick,
    ∃ m, env.resolve tick zone .DNSKEY = some m ∧ T.PublishesKeys env limit zone m
  ds : ∀ {zone : Name}, T.zone zone.path → zone.IsLower → zone.isRoot = false → ∀ tick,
    ∃ m, env.resolve tick zone .DS = some m ∧ T.PublishesDs env limit zone m

/-- The cache holds no other keys for the zones of the tree. -/
def Cached (T : SignedTree) (P : Platform) (cache : TextMap CachedZoneKeys) : Prop :=
  ∀ (zone : Name) (entry : CachedZoneKeys), T.zone zone.path → cache (P.nameKey zone) = some entry →
    entry.keys = T.keys zone.path

variable {T : SignedTree} {env : Env} {limit : Nat}

theorem zone_of_below {p q : Path} (h : T.zone q) (hpq : p <+: q) : T.zone p := by
  obtain ⟨rest, rfl⟩ := hpq
  induction rest using List.reverseRecOn with
  | nil => rwa [List.append_nil] at h
  | append_singleton front last ih =>
      apply ih
      have hparent := T.closed h
      rwa [← List.append_assoc, List.dropLast_concat] at hparent

/-! ### Fetching the keys of a zone -/

theorem fetchDnskey_keys (hpublished : T.Published env limit) {zone : Name} {trustedDs : List DS}
    {s : VState} {keys : List DNSKEY} {ttl : Nat} (hzone : T.zone zone.path)
    (h : (fetchDnskey env zone trustedDs s).1 = some (keys, ttl)) : keys = T.keys zone.path := by
  unfold fetchDnskey VState.ask at h
  split at h
  · cases h
  · rename_i m s₁ heq
    obtain ⟨hresolve, -⟩ := Prod.mk.inj heq
    simp only at h
    split at h
    · cases h
    · split at h
      · cases h
      · split at h
        · cases h
        · split at h
          · obtain ⟨hkeys, -⟩ := Prod.mk.inj (Option.some.inj h)
            rw [← hkeys]
            exact hpublished.dnskeys hzone hresolve
          · cases h
          · cases h

theorem fetchDnskey_finds (hpublished : T.Published env limit) {zone : Name} {s : VState}
    (hzone : T.zone zone.path) (hlower : zone.IsLower) (hbudget : s.Affords limit) :
    ∃ ttl s', fetchDnskey env zone (T.ds zone.path) s = (some (T.keys zone.path, ttl), s') ∧
      s.Spends s' limit := by
  obtain ⟨m, hresolve, hsigned⟩ := hpublished.keys hzone hlower s.tick
  obtain ⟨s', hsearch, hspends⟩ := hsigned.search (s := { s with tick := s.tick + 1 }) hbudget
  obtain ⟨hrrsigs, hmatched⟩ := hsigned.ne_nil
  have hcandidates : (dnskeyRecords m.answers zone).isEmpty = false := by
    by_contra hempty
    rw [Bool.not_eq_false, List.isEmpty_iff] at hempty
    rw [hempty, matchedKeys, List.flatMap_nil] at hmatched
    cases hmatched
  refine ⟨calculateMinTtl m, s', ?_, hspends.limit_eq, hspends.checks_le⟩
  unfold fetchDnskey
  simp only [VState.ask, hresolve, hcandidates, hrrsigs, hmatched, Bool.false_eq_true, if_false, hsearch,
    hpublished.dnskeys hzone hresolve]

theorem fetchDs_finds (hpublished : T.Published env limit) {zone : Name} {s : VState}
    (hzone : T.zone zone.path) (hlower : zone.IsLower) (hroot : zone.isRoot = false)
    (hbudget : s.Affords limit) :
    ∃ ttl s', fetchDs env (T.keys zone.path.dropLast) zone s = (.anchors (T.ds zone.path) ttl, s') ∧
      s.Spends s' limit := by
  obtain ⟨m, hresolve, hpublishes⟩ := hpublished.ds hzone hlower hroot s.tick
  obtain ⟨s', hsearch, hspends⟩ := hpublishes.signed.search (s := { s with tick := s.tick + 1 }) hbudget
  obtain ⟨hrrsigs, -⟩ := hpublishes.signed.ne_nil
  have hanchors : (T.ds zone.path).isEmpty = false := List.isEmpty_eq_false_iff.mpr hpublishes.nonempty
  have hrecords : (dsRecords m.answers zone).isEmpty = false := by
    by_contra hempty
    rw [Bool.not_eq_false, List.isEmpty_iff] at hempty
    have hds := hpublishes.ds
    rw [hempty, List.filter_nil] at hds
    exact hpublishes.nonempty hds.symm
  refine ⟨calculateMinTtl m, s', ?_, hspends.limit_eq, hspends.checks_le⟩
  unfold fetchDs
  simp only [VState.ask, hresolve, judgeDs, hrecords, hrrsigs, Bool.false_eq_true, if_false, hsearch,
    hpublishes.ds, hanchors]

theorem Cached.store {P : Platform} (hfaithful : P.NameKeyFaithful) {cache : TextMap CachedZoneKeys}
    (h : T.Cached P cache) {zone : Name} {entry : CachedZoneKeys}
    (hkeys : T.zone zone.path → entry.keys = T.keys zone.path) :
    T.Cached P (cache.insert (P.nameKey zone) entry) := by
  intro zone' entry' hzone' hentry
  rcases TextMap.insert_eq_some hentry with ⟨hkey, rfl⟩ | hold
  · have hpath := (hfaithful zone' zone).mp hkey
    rw [hpath] at hzone' ⊢
    exact hkeys hzone'
  · exact h zone' entry' hzone' hold

/-- The keys of a zone of the tree are stored, and nothing else changes. -/
theorem fetchZoneKeys_cached (hfaithful : env.platform.NameKeyFaithful)
    (hpublished : T.Published env limit) {zone : Name} {trustedDs : List DS} {ttl : Nat} {s : VState}
    (hcached : T.Cached env.platform s.keyTrustCache) :
    T.Cached env.platform (fetchZoneKeys env zone trustedDs ttl s).2.keyTrustCache ∧
      (T.zone zone.path → ∀ keys ttl', (fetchZoneKeys env zone trustedDs ttl s).1 = .next keys ttl' →
        keys = T.keys zone.path) := by
  have hsame := (fetchDnskey_sameTables env zone trustedDs s).keyTrustCache_eq
  unfold fetchZoneKeys
  split
  · rename_i s₁ heq
    rw [heq] at hsame
    refine ⟨by rwa [hsame], fun _ keys ttl' h => ?_⟩
    cases h
  · rename_i keys dnskeyTtl s₁ heq
    rw [heq] at hsame
    have hkeys : T.zone zone.path → keys = T.keys zone.path :=
      fun hzone => fetchDnskey_keys hpublished hzone (congrArg Prod.fst heq)
    refine ⟨?_, fun hzone keys' ttl' h => ?_⟩
    · refine Cached.store hfaithful ?_ hkeys
      show T.Cached env.platform s₁.keyTrustCache
      rwa [hsame]
    · cases h
      exact hkeys hzone

theorem cachedKeys_keys {zone : Name} {s : VState} {keys : List DNSKEY}
    (hcached : T.Cached env.platform s.keyTrustCache) (hzone : T.zone zone.path)
    (h : (cachedKeys env zone s).1 = some keys) : keys = T.keys zone.path := by
  unfold cachedKeys at h
  split at h
  · cases h
  · rename_i entry hentry
    simp only at h
    split at h
    · rw [← Option.some.inj h]
      exact hcached zone entry hzone hentry
    · cases h

/-- A step keeps the cache right, whatever its zone, and takes no other keys for a zone of the tree. -/
theorem chainStep_cached (hfaithful : env.platform.NameKeyFaithful)
    (hpublished : T.Published env limit) (zone : Name) (parentKeys : Option (List DNSKEY)) {s : VState}
    (hcached : T.Cached env.platform s.keyTrustCache) :
    T.Cached env.platform (chainStep env zone parentKeys s).2.keyTrustCache := by
  have hsame := (cachedKeys_sameTables env zone s).keyTrustCache_eq
  unfold chainStep
  split
  · rename_i keys s₁ heq
    rw [heq] at hsame
    show T.Cached env.platform s₁.keyTrustCache
    rwa [hsame]
  · rename_i s₁ heq
    rw [heq] at hsame
    have hcached₁ : T.Cached env.platform s₁.keyTrustCache := by
      show T.Cached env.platform s₁.keyTrustCache
      rwa [hsame]
    split
    · exact (fetchZoneKeys_cached hfaithful hpublished hcached₁).1
    · split
      · exact hcached₁
      · rename_i keys
        have hds := (fetchDs_sameTables env keys zone s₁).keyTrustCache_eq
        split
        · rename_i s₂ heq₂
          rw [heq₂] at hds
          show T.Cached env.platform s₂.keyTrustCache
          rwa [hds]
        · rename_i s₂ heq₂
          rw [heq₂] at hds
          apply And.left (fetchZoneKeys_cached hfaithful hpublished _)
          show T.Cached env.platform s₂.keyTrustCache
          rwa [hds]

/-- The checks a step for a zone of the tree takes at most. -/
def stepCost (limit : Nat) (zone : Name) : Nat := if zone.isRoot then limit else limit + limit

theorem fetchZoneKeys_finds (hpublished : T.Published env limit) {zone : Name} {s : VState} {ttl : Nat}
    (hzone : T.zone zone.path) (hlower : zone.IsLower) (hbudget : s.Affords limit) :
    ∃ ttl' s', fetchZoneKeys env zone (T.ds zone.path) ttl s = (.next (T.keys zone.path) ttl', s') ∧
      s.Spends s' limit := by
  obtain ⟨dnskeyTtl, s', hfetch, hspends⟩ := fetchDnskey_finds hpublished hzone hlower hbudget
  unfold fetchZoneKeys
  rw [hfetch]
  exact ⟨_, _, rfl, hspends.limit_eq, hspends.checks_le⟩

theorem chainStep_finds (hpublished : T.Published env limit) {zone : Name}
    (parentKeys : Option (List DNSKEY)) {s : VState}
    (hcached : T.Cached env.platform s.keyTrustCache) (hzone : T.zone zone.path)
    (hlower : zone.IsLower)
    (hparent : zone.isRoot = false → parentKeys = some (T.keys zone.path.dropLast))
    (hbudget : s.Affords (stepCost limit zone)) :
    ∃ ttl s', chainStep env zone parentKeys s = (.next (T.keys zone.path) ttl, s') ∧
      s.Spends s' (stepCost limit zone) := by
  have hunspent : s.Spends (cachedKeys env zone s).2 0 := by
    unfold cachedKeys
    split
    · exact .of_eq rfl
    · simp only
      split
      · exact .of_eq rfl
      · exact .of_eq rfl
  unfold chainStep
  rcases hlookup : cachedKeys env zone s with ⟨_ | keys, s₁⟩
  · rw [hlookup] at hunspent
    have hbudget₁ : s₁.Affords (stepCost limit zone) :=
      VState.Affords.after (m := 0) (by rwa [Nat.zero_add]) hunspent
    unfold stepCost at hbudget₁ ⊢
    cases hroot : zone.isRoot with
    | true =>
        rw [hroot, if_pos rfl] at hbudget₁
        have hds : rootDs = T.ds zone.path := by
          rw [Name.isRoot_iff_path.mp hroot, T.root_ds]
        simp only [if_true, hds]
        obtain ⟨ttl, s', hfetch, hspends⟩ := fetchZoneKeys_finds hpublished hzone hlower hbudget₁
        exact ⟨ttl, s', hfetch, (hunspent.trans hspends).mono (by omega)⟩
    | false =>
        rw [hroot, if_neg Bool.false_ne_true] at hbudget₁
        rw [hparent hroot]
        simp only [Bool.false_eq_true, if_false]
        obtain ⟨dsTtl, s₂, hds, hspends₂⟩ := fetchDs_finds hpublished hzone hlower hroot
          (hbudget₁.mono (Nat.le_add_right _ _))
        obtain ⟨ttl, s', hfetch, hspends⟩ := fetchZoneKeys_finds hpublished hzone hlower
          (hbudget₁.after hspends₂)
        simp only [hds]
        exact ⟨ttl, s', hfetch, (hunspent.trans (hspends₂.trans hspends)).mono (by omega)⟩
  · rw [hlookup] at hunspent
    have hkeys := cachedKeys_keys hcached hzone (congrArg Prod.fst hlookup)
    rw [hkeys]
    exact ⟨none, s₁, rfl, hunspent.mono (Nat.zero_le _)⟩

/-! ### The walk -/

theorem chainFrom_cached (hfaithful : env.platform.NameKeyFaithful)
    (hpublished : T.Published env limit) (zones : List Name) (parentKeys : Option (List DNSKEY))
    (lastTtl : Nat) {s : VState} (hcached : T.Cached env.platform s.keyTrustCache) :
    T.Cached env.platform (chainFrom env zones parentKeys lastTtl s).2.keyTrustCache := by
  induction zones generalizing parentKeys lastTtl s with
  | nil => cases parentKeys <;> exact hcached
  | cons zone rest ih =>
      have hstep := chainStep_cached hfaithful hpublished zone parentKeys hcached
      simp only [chainFrom]
      split
      · rename_i heq
        rw [heq] at hstep
        exact ih _ _ hstep
      · rename_i heq
        rw [heq] at hstep
        exact hstep

/-- Down from a zone whose keys are known, every zone of the tree is passed. -/
theorem chainFrom_finds (hfaithful : env.platform.NameKeyFaithful)
    (hpublished : T.Published env limit) {prev target : Name} {zones : List Name}
    (hwalk : Descends prev zones target) (htree : ∀ zone ∈ zones, T.zone zone.path ∧ zone.IsLower)
    (lastTtl : Nat) {s : VState} (hcached : T.Cached env.platform s.keyTrustCache)
    (hbudget : s.Affords (zones.length * (limit + limit))) :
    ∃ ttl s', chainFrom env zones (some (T.keys prev.path)) lastTtl s =
      (.trusted (T.keys target.path) ttl, s') ∧ s.Spends s' (zones.length * (limit + limit)) := by
  induction hwalk generalizing lastTtl s with
  | done n => exact ⟨lastTtl, s, rfl, (VState.Spends.of_eq rfl).mono (Nat.zero_le _)⟩
  | @step prev zone target rest hparent _ ih =>
      obtain ⟨⟨hzone, hlower⟩, hrest⟩ := List.forall_mem_cons.mp htree
      rw [List.length_cons, Nat.succ_mul, Nat.add_comm] at hbudget ⊢
      have hcost : stepCost limit zone ≤ limit + limit := by
        unfold stepCost
        split
        · exact Nat.le_add_left _ _
        · exact le_rfl
      obtain ⟨ttl, s₁, hstep, hspends₁⟩ := chainStep_finds hpublished (some (T.keys prev.path)) hcached
        hzone hlower (fun _ => by rw [hparent]) (hbudget.mono (hcost.trans (Nat.le_add_right _ _)))
      have hcached₁ := chainStep_cached hfaithful hpublished zone (some (T.keys prev.path)) hcached
      rw [hstep] at hcached₁
      obtain ⟨ttl', s', hchain, hspends'⟩ := ih hrest (ttl.getD lastTtl) hcached₁
        (hbudget.after (hspends₁.mono hcost))
      simp only [chainFrom, hstep]
      exact ⟨ttl', s', hchain, (hspends₁.mono hcost).trans hspends'⟩

/-- The checks a walk takes at most. -/
def walkCost (limit : Nat) (zone : Name) : Nat := limit + zone.labels.length * (limit + limit)

theorem buildTrustChain_cached (hfaithful : env.platform.NameKeyFaithful)
    (hpublished : T.Published env limit) (target : Name) {s : VState}
    (hcached : T.Cached env.platform s.keyTrustCache) :
    T.Cached env.platform (buildTrustChain env target s).2.keyTrustCache :=
  chainFrom_cached hfaithful hpublished (zonePath target) none 300 hcached

theorem length_climb_le (steps : Nat) (n : Name) : (Name.climb steps n).length ≤ steps + 1 := by
  induction steps generalizing n with
  | zero => exact le_rfl
  | succ steps ih =>
      rw [Name.climb, List.length_cons]
      split
      · exact Nat.succ_le_succ (Nat.zero_le _)
      · exact Nat.succ_le_succ (ih n.baseName)

/-- **The chain of a signed zone.**  The chain of a zone of the tree is trusted with the keys of the zone, as
far as the budget goes, whatever part of it is cached. -/
theorem buildTrustChain_finds (hfaithful : env.platform.NameKeyFaithful)
    (hpublished : T.Published env limit) {target : Name} {s : VState}
    (hcached : T.Cached env.platform s.keyTrustCache) (hzone : T.zone target.path)
    (hlower : target.IsLower) (hbudget : s.Affords (walkCost limit target)) :
    ∃ ttl s', buildTrustChain env target s = (.trusted (T.keys target.path) ttl, s') ∧
      s.Spends s' (walkCost limit target) := by
  obtain ⟨rest, hzones, hwalk⟩ := climb_descends target rfl
  have hlength : rest.length ≤ target.labels.length := by
    have hle := length_climb_le target.labels.length target
    rw [← List.length_reverse, hzones, List.length_cons] at hle
    omega
  have hmem : ∀ zone ∈ Name.root :: rest, T.zone zone.path ∧ zone.IsLower := by
    intro zone hmem
    rw [← hzones, List.mem_reverse] at hmem
    exact ⟨zone_of_below hzone (Name.zoneOf_iff.mp (Name.mem_ancestors hmem)), hlower.climb hmem⟩
  obtain ⟨⟨hrootZone, hrootLower⟩, htree⟩ := List.forall_mem_cons.mp hmem
  have hwhole : walkCost limit target =
      stepCost limit .root + target.labels.length * (limit + limit) := rfl
  rw [hwhole] at hbudget ⊢
  have hroot : Name.root.isRoot = true := rfl
  obtain ⟨ttl, s₁, hstep, hspends₁⟩ := chainStep_finds hpublished none hcached hrootZone hrootLower
    (fun h => by cases h) (hbudget.mono (Nat.le_add_right _ _))
  have hcached₁ := chainStep_cached hfaithful hpublished .root none hcached
  rw [hstep] at hcached₁
  have hcost : rest.length * (limit + limit) ≤ target.labels.length * (limit + limit) :=
    Nat.mul_le_mul_right _ hlength
  obtain ⟨ttl', s', hchain, hspends'⟩ := chainFrom_finds hfaithful hpublished hwalk htree
    (ttl.getD 300) hcached₁ ((hbudget.after hspends₁).mono hcost)
  refine ⟨ttl', s'.logChain target (.trusted (T.keys target.path) ttl'), ?_, ?_⟩
  · unfold buildTrustChain
    rw [zonePath, Name.ancestors, hzones]
    simp only [chainFrom, hstep, hchain]
  · have hspends := hspends₁.trans (hspends'.mono hcost)
    exact ⟨hspends.limit_eq, hspends.checks_le⟩

/-! ### One RRset -/

/-- An RRset is signed by a zone of the tree, and no other zone has a say in it: every signature that may
become a candidate is one of a zone of the tree. -/
structure RrsetSigned (T : SignedTree) (env : Env) (owner : Name) (records : List Record)
    (sigs : List RRSIG) : Prop where
  signers : ∀ sig ∈ sigs, sig.signerName.zoneOf owner = true →
    (∃ tick, rrsigTimeValid sig (env.clock tick) = true) →
      T.zone sig.signerName.path ∧ sig.signerName.IsLower
  good : ∃ sig ∈ sigs, sig.signerName.zoneOf owner = true ∧ ∃ key ∈ T.keys sig.signerName.path,
    keyTagMatches env.platform key sig.keyTag = true ∧
      ∀ tick, verifyRrsig env.platform (env.clock tick) sig key owner records = true

/-- The checks one signature takes at most: the chain of its signer, and a check for every key. -/
def tryCost (T : SignedTree) (limit : Nat) (sig : RRSIG) : Nat :=
  walkCost limit sig.signerName + (T.keys sig.signerName.path).length

/-- The checks an RRset takes at most. -/
def rrsetCost (T : SignedTree) (limit : Nat) (sigs : List RRSIG) : Nat :=
  (sigs.map (tryCost T limit)).sum

theorem rrsetCost_filter (T : SignedTree) (limit : Nat) (p : RRSIG → Bool) (sigs : List RRSIG) :
    rrsetCost T limit (sigs.filter p) ≤ rrsetCost T limit sigs := by
  simp only [rrsetCost]
  induction sigs with
  | nil => exact le_rfl
  | cons sig rest ih =>
      rw [List.filter_cons]
      split
      · simp only [List.map_cons, List.sum_cons]
        exact Nat.add_le_add_left ih _
      · exact ih.trans (Nat.le_add_left _ _)

/-- Keys the budget has a check for are tried until one accepts the signature. -/
theorem tryKeys_affords {rrsig : RRSIG} {owner : Name} {records : List Record} {keys : List DNSKEY}
    {s : VState} (hbudget : s.Affords keys.length) :
    ∃ status s', tryKeys env rrsig owner records keys s = (status, s') ∧ s.Spends s' keys.length ∧
      (status = some .secure ∨ status = none ∧ ∀ key ∈ keys,
        keyTagMatches env.platform key rrsig.keyTag = true →
          ∃ tick, verifyRrsig env.platform (env.clock tick) rrsig key owner records = false) := by
  induction keys generalizing s with
  | nil => exact ⟨none, s, rfl, .of_eq rfl, Or.inr ⟨rfl, fun key hkey => absurd hkey List.not_mem_nil⟩⟩
  | cons key rest ih =>
      rw [List.length_cons] at hbudget ⊢
      have hleft : ¬ s.budget.maxSigChecks ≤ s.budget.sigChecks := by
        unfold VState.Affords at hbudget
        omega
      have hpaid : s.Spends { s with budget := { s.budget with sigChecks := s.budget.sigChecks + 1 } } 1 :=
        ⟨rfl, le_rfl⟩
      rw [Nat.add_comm] at hbudget ⊢
      have hrest := hbudget.after hpaid
      simp only [tryKeys, VState.canCheckSig, if_neg hleft]
      by_cases htag : keyTagMatches env.platform key rrsig.keyTag = true
      · simp only [if_pos htag, checkRrsig, VState.readClock]
        cases hverify : verifyRrsig env.platform (env.clock s.tick) rrsig key owner records with
        | true => exact ⟨_, _, rfl, ⟨rfl, Nat.add_le_add_left (Nat.le_add_right _ _) _⟩, Or.inl rfl⟩
        | false =>
            obtain ⟨status, s', htry, hspends, hstatus⟩ := ih (s :=
              { s with tick := s.tick + 1, budget := { s.budget with sigChecks := s.budget.sigChecks + 1 },
                       verifyCalls := s.verifyCalls + 1 }) hrest
            refine ⟨status, s', htry, hpaid.trans ⟨hspends.limit_eq, hspends.checks_le⟩, ?_⟩
            rcases hstatus with hsecure | ⟨hnone, hall⟩
            · exact Or.inl hsecure
            · exact Or.inr ⟨hnone, List.forall_mem_cons.mpr ⟨fun _ => ⟨s.tick, hverify⟩, hall⟩⟩
      · simp only [if_neg htag]
        obtain ⟨status, s', htry, hspends, hstatus⟩ := ih hrest
        refine ⟨status, s', htry, hpaid.trans hspends, ?_⟩
        rcases hstatus with hsecure | ⟨hnone, hall⟩
        · exact Or.inl hsecure
        · exact Or.inr ⟨hnone, List.forall_mem_cons.mpr ⟨fun h => absurd h htag, hall⟩⟩

/-- The loop over signatures of zones of the tree comes to the good one. -/
theorem tryCandidates_finds (hfaithful : env.platform.NameKeyFaithful)
    (hpublished : T.Published env limit) {owner : Name} {records : List Record}
    {candidates : List RRSIG} (anyTrustedChain : Bool) {s : VState}
    (hcached : T.Cached env.platform s.keyTrustCache)
    (htree : ∀ sig ∈ candidates, T.zone sig.signerName.path ∧ sig.signerName.IsLower)
    (hgood : ∃ sig ∈ candidates, ∃ key ∈ T.keys sig.signerName.path,
      keyTagMatches env.platform key sig.keyTag = true ∧
        ∀ tick, verifyRrsig env.platform (env.clock tick) sig key owner records = true)
    (hbudget : s.Affords (rrsetCost T limit candidates)) :
    ∃ s', tryCandidates env owner records candidates anyTrustedChain s = (.secure, s') ∧
      s.Spends s' (rrsetCost T limit candidates) := by
  induction candidates generalizing anyTrustedChain s with
  | nil =>
      obtain ⟨sig, hmem, -⟩ := hgood
      cases hmem
  | cons rrsig rest ih =>
      have hsplit : rrsetCost T limit (rrsig :: rest) = walkCost limit rrsig.signerName +
          ((T.keys rrsig.signerName.path).length + rrsetCost T limit rest) := by
        simp only [rrsetCost, tryCost, List.map_cons, List.sum_cons]
        omega
      rw [hsplit] at hbudget ⊢
      obtain ⟨⟨hzone, hlower⟩, hrest⟩ := List.forall_mem_cons.mp htree
      obtain ⟨ttl, s₁, hchain, hspends₁⟩ := buildTrustChain_finds hfaithful hpublished hcached hzone
        hlower (hbudget.mono (Nat.le_add_right _ _))
      have hcached₁ := buildTrustChain_cached hfaithful hpublished rrsig.signerName hcached
      rw [hchain] at hcached₁
      have hbudget₁ := hbudget.after hspends₁
      obtain ⟨status, s₂, htry, hspends₂, hstatus⟩ := @tryKeys_affords env rrsig owner records
        (T.keys rrsig.signerName.path) s₁ (hbudget₁.mono (Nat.le_add_right _ _))
      have hspends := hspends₁.trans hspends₂
      simp only [tryCandidates, hchain, htry]
      rcases hstatus with rfl | ⟨rfl, hrefused⟩
      · exact ⟨s₂, rfl, hspends.mono (by omega)⟩
      · have hgood' : ∃ sig ∈ rest, ∃ key ∈ T.keys sig.signerName.path,
            keyTagMatches env.platform key sig.keyTag = true ∧
              ∀ tick, verifyRrsig env.platform (env.clock tick) sig key owner records = true := by
          obtain ⟨sig, hmem, key, hkey, htag, hverifies⟩ := hgood
          rcases List.mem_cons.mp hmem with rfl | hmem
          · obtain ⟨tick, hrefuses⟩ := hrefused key hkey htag
            rw [hverifies tick] at hrefuses
            cases hrefuses
          · exact ⟨sig, hmem, key, hkey, htag, hverifies⟩
        have hcached₂ : T.Cached env.platform s₂.keyTrustCache := by
          have hsame := (tryKeys_sameTables env rrsig owner records (T.keys rrsig.signerName.path)
            s₁).keyTrustCache_eq
          rw [htry] at hsame
          rwa [hsame]
        obtain ⟨s', hloop, hspends'⟩ := ih true hcached₂ hrest hgood' (hbudget₁.after hspends₂)
        exact ⟨s', hloop, (hspends.trans hspends').mono (by omega)⟩

/-- The signatures `validate_rrset` considers at a clock reading. -/
def timelySigs (owner : Name) (now : Nat) (sigs : List RRSIG) : List RRSIG :=
  sigs.filter fun rrsig =>
    rrsigTimeValid rrsig now && (rrsig.signerName.zoneOf owner || rrsig.signerName == owner)

theorem mem_timelySigs {owner : Name} {now : Nat} {sigs : List RRSIG} {sig : RRSIG} :
    sig ∈ timelySigs owner now sigs ↔
      sig ∈ sigs ∧ rrsigTimeValid sig now = true ∧ sig.signerName.zoneOf owner = true := by
  have habsorb : (sig.signerName.zoneOf owner || sig.signerName == owner) =
      sig.signerName.zoneOf owner := by
    cases hzone : sig.signerName.zoneOf owner with
    | true => rfl
    | false =>
        rw [Bool.false_or, Bool.eq_false_iff]
        intro heq
        refine Bool.eq_false_iff.mp hzone ?_
        rw [Name.zoneOf_iff, Name.beq_iff_path.mp heq]
  rw [timelySigs, List.mem_filter, habsorb, Bool.and_eq_true]

/-- A signed RRset validates as `secure`. -/
theorem validateRrset_finds (hfaithful : env.platform.NameKeyFaithful)
    (hpublished : T.Published env limit) {owner : Name} {rtype : RecordType}
    {targetRecords allRecords : List Record} {s : VState}
    (hcached : T.Cached env.platform s.keyTrustCache)
    (hsigned : T.RrsetSigned env owner targetRecords (coveringRrsigs allRecords owner rtype))
    (hbudget : s.Affords (rrsetCost T limit (coveringRrsigs allRecords owner rtype))) :
    ∃ s', validateRrset env owner rtype targetRecords allRecords s = (.secure, s') ∧
      s.Spends s' (rrsetCost T limit (coveringRrsigs allRecords owner rtype)) := by
  obtain ⟨good, hmem, habove, key, hkey, htag, hverifies⟩ := hsigned.good
  have hsome : (coveringRrsigs allRecords owner rtype).isEmpty = false :=
    List.isEmpty_eq_false_iff.mpr (List.ne_nil_of_mem hmem)
  -- The good signature is in time whenever the clock is read.
  have hcandidate : good ∈ timelySigs owner (env.clock s.tick) (coveringRrsigs allRecords owner rtype) :=
    mem_timelySigs.mpr ⟨hmem, (verifyRrsig_accepted (hverifies s.tick)).1, habove⟩
  have htree : ∀ sig ∈ timelySigs owner (env.clock s.tick) (coveringRrsigs allRecords owner rtype),
      T.zone sig.signerName.path ∧ sig.signerName.IsLower := by
    intro sig hsig
    obtain ⟨hcovers, htime, hsigner⟩ := mem_timelySigs.mp hsig
    exact hsigned.signers sig hcovers hsigner ⟨s.tick, htime⟩
  have hcost : rrsetCost T limit
      (timelySigs owner (env.clock s.tick) (coveringRrsigs allRecords owner rtype)) ≤
        rrsetCost T limit (coveringRrsigs allRecords owner rtype) := rrsetCost_filter T limit _ _
  obtain ⟨s', hloop, hspends⟩ := tryCandidates_finds hfaithful hpublished false
    (s := (s.readClock env).2) hcached htree ⟨good, hcandidate, key, hkey, htag, hverifies⟩
    (hbudget.mono hcost)
  have hnonempty : (timelySigs owner (env.clock s.tick)
      (coveringRrsigs allRecords owner rtype)).isEmpty = false :=
    List.isEmpty_eq_false_iff.mpr (List.ne_nil_of_mem hcandidate)
  refine ⟨s', ?_, hspends.limit_eq, hspends.checks_le.trans (Nat.add_le_add_left hcost _)⟩
  unfold timelySigs at hnonempty hloop
  simp only [validateRrset, hsome, Bool.false_eq_true, if_false, VState.readClock, hnonempty]
  exact hloop

/-! ### Whole messages -/

/-- Every validation keeps the cache right. -/
theorem Cached.progress (hfaithful : env.platform.NameKeyFaithful)
    (hpublished : T.Published env limit) {s s' : VState} (h : Progress env s s')
    (hcached : T.Cached env.platform s.keyTrustCache) : T.Cached env.platform s'.keyTrustCache := by
  induction h with
  | same h => rwa [h.keyTrustCache_eq]
  | chain zone s => exact buildTrustChain_cached hfaithful hpublished zone hcached
  | store =>
      unfold storeSignedness
      split
      · exact hcached
      · exact hcached
  | trans _ _ ihab ihbc => exact ihbc (ihab hcached)

theorem Cached.run (hfaithful : env.platform.NameKeyFaithful) (hpublished : T.Published env limit)
    {s : VState} (hrun : ValidationRun env s) : T.Cached env.platform s.keyTrustCache := by
  induction hrun with
  | init =>
      intro zone entry _ hentry
      cases hentry
  | validate msg qname qtype _ ih =>
      exact ih.progress hfaithful hpublished (validateMessage_progress env msg qname qtype _)

/-- The RRsets a redirection is made of: a CNAME made from a DNAME counts when it comes with signatures of its
own. -/
def stepRrsets (records : List Record) : RedirectionStep → List (Name × RecordType)
  | .cname owner _ => [(owner, .CNAME)]
  | .dname dnameOwner _ inputName _ =>
      (dnameOwner, dnameRecordType) ::
        if (coveringRrsigs records inputName .CNAME).isEmpty then [] else [(inputName, .CNAME)]

/-- The RRsets an answer is made of. -/
def answerRrsets (records : List Record) (name : Name) (rtype : RecordType)
    (chain : List RedirectionStep) : List (Name × RecordType) :=
  chain.flatMap (stepRrsets records) ++ [(finalOwner name chain, rtype)]

/-- The RRset is in the message, and signed. -/
def HopSigned (T : SignedTree) (env : Env) (records : List Record) (hop : Name × RecordType) : Prop :=
  rrset records hop.1 hop.2 ≠ [] ∧
    T.RrsetSigned env hop.1 (rrset records hop.1 hop.2) (coveringRrsigs records hop.1 hop.2)

/-- The checks the RRsets take at most. -/
def hopsCost (T : SignedTree) (limit : Nat) (records : List Record) (hops : List (Name × RecordType)) : Nat :=
  (hops.map fun hop => rrsetCost T limit (coveringRrsigs records hop.1 hop.2)).sum

/-- The redirections of an answer lead to an end, and all its RRsets are signed. -/
structure AnswerSigned (T : SignedTree) (env : Env) (limit : Nat) (records : List Record) (name : Name)
    (rtype : RecordType) (chain : List RedirectionStep) : Prop where
  complete : redirections env name rtype records = .complete chain
  signed : ∀ hop ∈ answerRrsets records name rtype chain, T.HopSigned env records hop
  affordable : hopsCost T limit records (answerRrsets records name rtype chain) ≤
    ValidationBudget.default.maxSigChecks

theorem hopsCost_cons (T : SignedTree) (limit : Nat) (records : List Record) (hop : Name × RecordType)
    (hops : List (Name × RecordType)) :
    hopsCost T limit records (hop :: hops) =
      rrsetCost T limit (coveringRrsigs records hop.1 hop.2) + hopsCost T limit records hops := by
  rw [hopsCost, List.map_cons, List.sum_cons, hopsCost]

theorem hopsCost_append (T : SignedTree) (limit : Nat) (records : List Record)
    (first second : List (Name × RecordType)) :
    hopsCost T limit records (first ++ second) =
      hopsCost T limit records first + hopsCost T limit records second := by
  simp only [hopsCost, List.map_append, List.sum_append]

theorem validateHop_finds (hfaithful : env.platform.NameKeyFaithful)
    (hpublished : T.Published env limit) {records : List Record} {hop : Name × RecordType} {s : VState}
    (hcached : T.Cached env.platform s.keyTrustCache) (hsigned : T.HopSigned env records hop)
    (hbudget : s.Affords (rrsetCost T limit (coveringRrsigs records hop.1 hop.2))) :
    ∃ s', validateHop env hop.1 hop.2 records s = (.secure, s') ∧
      s.Spends s' (rrsetCost T limit (coveringRrsigs records hop.1 hop.2)) := by
  obtain ⟨s', hvalidate, hspends⟩ := validateRrset_finds hfaithful hpublished hcached hsigned.2 hbudget
  refine ⟨s', ?_, hspends⟩
  simp only [validateHop, List.isEmpty_eq_false_iff.mpr hsigned.1, Bool.false_eq_true, if_false, hvalidate]

/-- A redirection whose RRsets are signed is authenticated. -/
theorem validateStep_finds (hfaithful : env.platform.NameKeyFaithful)
    (hpublished : T.Published env limit) {records : List Record} {step : RedirectionStep} {s : VState}
    (hcached : T.Cached env.platform s.keyTrustCache)
    (hsigned : ∀ hop ∈ stepRrsets records step, T.HopSigned env records hop)
    (hbudget : s.Affords (hopsCost T limit records (stepRrsets records step))) :
    ∃ s', validateStep env records step s = (.secure, s') ∧
      s.Spends s' (hopsCost T limit records (stepRrsets records step)) := by
  cases step with
  | cname owner target =>
      rw [stepRrsets, hopsCost_cons] at hbudget ⊢
      obtain ⟨s', hhop, hspends⟩ := validateHop_finds hfaithful hpublished hcached
        (hsigned (owner, .CNAME) List.mem_cons_self) (hbudget.mono (Nat.le_add_right _ _))
      exact ⟨s', hhop, hspends.mono (Nat.le_add_right _ _)⟩
  | dname dnameOwner target inputName redirectedName =>
      rw [stepRrsets, hopsCost_cons] at hbudget ⊢
      rw [stepRrsets] at hsigned
      obtain ⟨hdname, hsynthesized⟩ := List.forall_mem_cons.mp hsigned
      obtain ⟨s₁, hhop, hspends₁⟩ := validateHop_finds hfaithful hpublished hcached hdname
        (hbudget.mono (Nat.le_add_right _ _))
      have hcached₁ := hcached.progress hfaithful hpublished
        (validateHop_progress env dnameOwner dnameRecordType records s)
      rw [hhop] at hcached₁
      simp only [validateStep, hhop]
      cases hunsigned : (coveringRrsigs records inputName .CNAME).isEmpty with
      | true =>
          simp only [Bool.not_true, Bool.and_false, Bool.false_eq_true, if_false]
          exact ⟨s₁, rfl, hspends₁.mono (Nat.le_add_right _ _)⟩
      | false =>
          rw [hunsigned] at hsynthesized hbudget
          simp only [Bool.false_eq_true, if_false, hopsCost_cons] at hbudget hsynthesized ⊢
          obtain ⟨hnonempty, hcname⟩ := hsynthesized (inputName, .CNAME) List.mem_cons_self
          obtain ⟨s', hvalidate, hspends'⟩ := validateRrset_finds hfaithful hpublished hcached₁ hcname
            ((hbudget.after hspends₁).mono (Nat.le_add_right _ _))
          rw [List.isEmpty_eq_false_iff.mpr hnonempty]
          exact ⟨s', hvalidate, hspends₁.trans (hspends'.mono (Nat.le_add_right _ _))⟩

theorem validateSteps_finds (hfaithful : env.platform.NameKeyFaithful)
    (hpublished : T.Published env limit) {records : List Record} {chain : List RedirectionStep} {s : VState}
    (hcached : T.Cached env.platform s.keyTrustCache)
    (hsigned : ∀ hop ∈ chain.flatMap (stepRrsets records), T.HopSigned env records hop)
    (hbudget : s.Affords (hopsCost T limit records (chain.flatMap (stepRrsets records)))) :
    ∃ s', validateSteps env records chain s = (.secure, s') ∧
      s.Spends s' (hopsCost T limit records (chain.flatMap (stepRrsets records))) := by
  induction chain generalizing s with
  | nil => exact ⟨s, rfl, .of_eq rfl⟩
  | cons step rest ih =>
      rw [List.flatMap_cons, hopsCost_append] at hbudget ⊢
      rw [List.flatMap_cons] at hsigned
      obtain ⟨hstep, hrest⟩ := List.forall_mem_append.mp hsigned
      obtain ⟨s₁, hvalidate, hspends₁⟩ := validateStep_finds hfaithful hpublished hcached hstep
        (hbudget.mono (Nat.le_add_right _ _))
      have hcached₁ := hcached.progress hfaithful hpublished (validateStep_progress env records step s)
      rw [hvalidate] at hcached₁
      obtain ⟨s', hloop, hspends'⟩ := ih hcached₁ hrest (hbudget.after hspends₁)
      simp only [validateSteps, hvalidate]
      exact ⟨s', hloop, hspends₁.trans hspends'⟩

theorem validateAnswer_finds (hfaithful : env.platform.NameKeyFaithful)
    (hpublished : T.Published env limit) {records : List Record} {name : Name} {rtype : RecordType}
    {chain : List RedirectionStep} {s : VState} (hcached : T.Cached env.platform s.keyTrustCache)
    (hsigned : T.AnswerSigned env limit records name rtype chain)
    (hbudget : s.Affords (hopsCost T limit records (answerRrsets records name rtype chain))) :
    (validateAnswer env name rtype records s).1 = .secure := by
  obtain ⟨hsteps, hfinal⟩ := List.forall_mem_append.mp hsigned.signed
  rw [answerRrsets, hopsCost_append, hopsCost_cons] at hbudget
  obtain ⟨s₁, hvalidate, hspends₁⟩ := validateSteps_finds hfaithful hpublished hcached hsteps
    (hbudget.mono (Nat.le_add_right _ _))
  have hcached₁ := hcached.progress hfaithful hpublished (validateSteps_progress env records chain s)
  rw [hvalidate] at hcached₁
  obtain ⟨hnonempty, hrrset⟩ := hfinal _ List.mem_cons_self
  obtain ⟨s', hend, -⟩ := validateRrset_finds hfaithful hpublished hcached₁ hrrset
    ((hbudget.after hspends₁).mono (Nat.le_add_right _ _))
  simp only [validateAnswer, hsigned.complete, hvalidate, List.isEmpty_eq_false_iff.mpr hnonempty,
    Bool.false_eq_true, if_false, hend]

/-- The key of the zone `a.`. -/
def leafKey : DNSKEY := ⟨257, 8, [1, 3, 143]⟩

/-- The DS record of `a.` in the root. -/
def leafDs : DS := ⟨37900, 8, 2, [56, 124, 7, 5, 130, 154, 19, 254, 88, 90, 120, 113, 248, 163, 74, 136, 191, 134,
  244, 183, 60, 110, 245, 1, 134, 146, 172, 190, 131, 88, 110, 227]⟩

def leafPlatform : Platform := { rootPlatform with
  calculateKeyTag := fun key => if key = leafKey then some 37900 else rootPlatform.calculateKeyTag key
  sha256 := fun wire =>
    if wire = nameWire (topName 97) ++ dnskeyWire leafKey then leafDs.digest else rootPlatform.sha256 wire }

def leafRecord (owner : Name) (data : RData) : Record := ⟨owner, .IN, 300, data⟩

/-- The signature of `a.` over the RRset of `rtype` at `owner`. -/
def leafSigned (owner : Name) (rtype : RecordType) : Record :=
  ⟨owner, .IN, 300,
    .rrsig ⟨rtype, 8, Fin.ofNat 256 owner.numLabels, 300, 100, 0, 37900, topName 97, [1]⟩⟩

def leafDnskeyAnswer : Message := { Message.new with
  answers := [leafRecord (topName 97) (.dnskey leafKey), leafSigned (topName 97) .DNSKEY] }

def leafDsAnswer : Message := { Message.new with
  answers := [rootRecord (topName 97) (.ds leafDs), rootSigned (topName 97) .DS] }

/-- The root and `a.` publish their keys, at the fixed time 50. -/
def leafEnv : Env where
  platform := leafPlatform
  clock _ := 50
  resolve _ name rtype :=
    if name.path = [] ∧ rtype = .DNSKEY then some rootDnskeyAnswer
    else if name.path = [[97]] ∧ rtype = .DNSKEY then some leafDnskeyAnswer
    else if name.path = [[97]] ∧ rtype = .DS then some leafDsAnswer
    else none

/-- The root and `a.`. -/
def leafTree : SignedTree where
  zone p := p = [] ∨ p = [[97]]
  keys p := if p = [] then [rootKey] else [leafKey]
  ds p := if p = [] then rootDs else [leafDs]
  closed h := by
    rcases h with rfl | rfl
    · exact Or.inl rfl
    · exact Or.inl rfl
  root_ds := rfl

/-- The signature record of `leafSigned` and `rootSigned`. -/
def sigOver (rtype : RecordType) (labels : Byte) (tag : UInt16) (signer : Name) : RRSIG :=
  ⟨rtype, 8, labels, 300, 100, 0, tag, signer, [1]⟩

theorem dnskeyRecords_congr {answers : List Record} {zone zone' : Name} (h : zone.path = zone'.path) :
    dnskeyRecords answers zone = dnskeyRecords answers zone' := by
  have hname : ∀ n : Name, (n == zone) = (n == zone') := by
    intro n
    rw [Bool.eq_iff_iff, Name.beq_iff_path, Name.beq_iff_path, h]
  simp only [dnskeyRecords, hname]

theorem leafTree_published : leafTree.Published leafEnv 1 where
  dnskeys := by
    intro zone tick m hzone hresolve
    rcases hzone with hroot | hleaf
    · simp only [leafEnv, hroot] at hresolve
      cases hresolve
      rw [@dnskeyRecords_congr _ zone .root hroot, hroot]
      decide +kernel
    · simp only [leafEnv, hleaf] at hresolve
      cases hresolve
      rw [@dnskeyRecords_congr _ zone (topName 97) hleaf, hleaf]
      decide +kernel
  keys := by
    intro zone hzone hlower tick
    rcases hzone with hroot | hleaf
    · obtain rfl : zone = .root := hlower.eq (by decide) hroot
      refine ⟨rootDnskeyAnswer, rfl, .of_mem (sigOver .DNSKEY 0 20326 .root) rootKey
        List.mem_cons_self ?_ ?_ (fun _ => ?_) ?_⟩
      · decide +kernel
      · decide +kernel
      · show verifyRrsig leafPlatform 50 _ _ _ _ = true
        decide +kernel
      · decide +kernel
    · obtain rfl : zone = topName 97 := hlower.eq (by decide) hleaf
      refine ⟨leafDnskeyAnswer, rfl, .of_mem (sigOver .DNSKEY 1 37900 (topName 97)) leafKey
        List.mem_cons_self ?_ ?_ (fun _ => ?_) ?_⟩
      · decide +kernel
      · decide +kernel
      · show verifyRrsig leafPlatform 50 _ _ _ _ = true
        decide +kernel
      · decide +kernel
  ds := by
    intro zone hzone hlower hnotRoot tick
    rcases hzone with hroot | hleaf
    · rw [Name.isRoot_iff_path.mpr hroot] at hnotRoot
      cases hnotRoot
    · obtain rfl : zone = topName 97 := hlower.eq (by decide) hleaf
      refine ⟨leafDsAnswer, rfl, ?_, ?_, .of_mem (sigOver .DS 1 20326 .root) rootKey
        List.mem_cons_self ?_ ?_ (fun _ => ?_) ?_⟩
      · decide +kernel
      · decide +kernel
      · decide +kernel
      · decide +kernel
      · show verifyRrsig leafPlatform 50 _ _ _ _ = true
        decide +kernel
      · decide +kernel

/-- `h.a.` -/
def leafHost : Name := ⟨[[104], [97]], by simp [ValidLabels, wireLength]⟩

/-- `h.a.` is an alias, signed by `a.`, for a name of the root zone. -/
def leafAnswer : List Record :=
  [leafRecord leafHost (.cname (topName 99)), leafSigned leafHost .CNAME,
    rootRecord (topName 99) (.a ⟨192, 0, 2, 1⟩), rootSigned (topName 99) .A]

theorem leafAnswer_signed :
    leafTree.AnswerSigned leafEnv 1 leafAnswer leafHost .A [.cname leafHost (topName 99)] where
  complete := by rfl
  affordable := by decide +kernel
  signed := by
    intro hop hhop
    rcases List.mem_cons.mp hhop with rfl | hhop
    · refine ⟨List.cons_ne_nil _ _, fun sig hsig _ _ => ?_, ?_⟩
      · obtain rfl : sig = sigOver .CNAME 2 37900 (topName 97) := List.mem_singleton.mp hsig
        exact ⟨Or.inr rfl, by decide⟩
      · refine ⟨sigOver .CNAME 2 37900 (topName 97), List.mem_cons_self, by decide +kernel, leafKey,
          List.mem_cons_self, by decide +kernel, fun _ => ?_⟩
        show verifyRrsig leafPlatform 50 _ _ _ _ = true
        decide +kernel
    · obtain rfl : hop = (topName 99, .A) := List.mem_singleton.mp hhop
      refine ⟨List.cons_ne_nil _ _, fun sig hsig _ _ => ?_, ?_⟩
      · obtain rfl : sig = sigOver .A 1 20326 .root := List.mem_singleton.mp hsig
        exact ⟨Or.inl rfl, by decide⟩
      · refine ⟨sigOver .A 1 20326 .root, List.mem_cons_self, by decide +kernel, rootKey,
          List.mem_cons_self, by decide +kernel, fun _ => ?_⟩
        show verifyRrsig leafPlatform 50 _ _ _ _ = true
        decide +kernel

end SignedTree
end Dnssec
end UnifiedDns
