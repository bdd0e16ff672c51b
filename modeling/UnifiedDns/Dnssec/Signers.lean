import UnifiedDns.Dnssec.SignedData
import UnifiedDns.Dnssec.Validator

/-!
# Zones that sign

Who signs what outside the resolver, and what the chain of trust keeps of it: every key that
`build_trust_chain` trusts belongs to the zone it was trusted for.

* `SignedZone` — the keys a zone holds and the RRsets it signs, wildcards under their own names.
* `Honest` — a world of such zones: signatures cannot be forged, a zone publishes its own keys and
  refers to its children by digests of theirs.
* `verifyRrsig_genuine` — what verifies under a key of a zone has the contents of an RRset of the zone,
  at the signed owner.
* `TrustSound` — the invariant of the key cache and of the finished walks; `buildTrustChain_sound` is its
  step, `TrustSound.progress` carries it through the validator.
-/

namespace UnifiedDns
namespace Dnssec

/-- A zone as its signer knows it. -/
structure SignedZone where
  /-- The zone holds the private key. -/
  ownsKey : DNSKEY → Prop
  /-- The RRset that the zone signs at an owner. -/
  data : Path → RecordType → List Record
  /-- The names of the zone, empty non-terminals and unsigned delegations included. -/
  HasName : Path → Prop
  hasName_of_data : ∀ p q rtype, data q rtype ≠ [] → p <+: q → HasName p

/-- The signer of the zone made a signature over these octets: over one of its RRsets, with the label
count of the owner. -/
def SignedZone.Signed (Z : SignedZone) (P : Platform) (apex : Path) (tbs : List Byte) : Prop :=
  ∃ (rrsig : RRSIG) (owner : Name), rrsig.signerName.path = apex ∧
    rrsig.numLabels.val = owner.numLabels ∧
      buildTbs P rrsig owner (Z.data owner.path rrsig.typeCovered) = some tbs

/-- The two RDATA are the same octets on the wire. -/
def SameWire (P : Platform) (a b : RData) : Prop :=
  ∃ wire, P.rdataWire a = some wire ∧ P.rdataWire b = some wire

/-- The zones of the name space by their apexes. -/
abbrev World := Path → SignedZone

/-- All keys of the list belong to the zone. -/
def World.Owns (W : World) (apex : Path) (keys : List DNSKEY) : Prop :=
  ∀ key ∈ keys, (W apex).ownsKey key

/-- Zones that keep their keys and publish what belongs to them. -/
structure Honest (P : Platform) (W : World) : Prop where
  /-- A signature that verifies under a key was made by the holder of the key. -/
  unforgeable : ∀ apex key tbs sig, (W apex).ownsKey key →
    P.acceptsSignature key.algorithm key.publicKey tbs sig = true → (W apex).Signed P apex tbs
  /-- The DNSKEY RRset of a zone holds keys of the zone. -/
  ownKeys : ∀ apex, ∀ r ∈ (W apex).data apex .DNSKEY, ∀ key, SameWire P r.data (.dnskey key) →
    (W apex).ownsKey key
  /-- The digests in the DS RRset of a child are digests of the child's keys. -/
  delegations : ∀ child : Name, ∀ r ∈ (W child.path.dropLast).data child.path .DS, ∀ d key,
    SameWire P r.data (.ds d) → computeDsDigest P child key d.digestType = some d.digest →
      (W child.path).ownsKey key
  /-- The anchors compiled into the program are digests of the root's keys. -/
  anchors : ∀ d ∈ rootDs, ∀ key, computeDsDigest P .root key d.digestType = some d.digest →
    (W []).ownsKey key
  /-- Keys and their digests do not stand at wildcards. -/
  noWildcardKeys : ∀ apex p rtype, rtype = .DS ∨ rtype = .DNSKEY →
    (W apex).data (p ++ [Name.starLabel]) rtype = []
  fits : RdataFits P
  readsStar : P.ReadsStar

/-! ### Genuine RRsets -/

/-- The RRset has the contents that the zone signs at the signed owner, which has the label count of the
RRSIG: the owner itself, or what was read in the place of the wildcard above it. -/
structure Genuine (P : Platform) (W : World) (apex : Path) (rrsig : RRSIG) (owner : Name)
    (records : List Record) : Prop where
  nonempty : records ≠ []
  emitted : ∀ r ∈ records, ∃ wire, P.rdataWire r.data = some wire
  signer : rrsig.signerName.path = apex
  labels : (signedOwner P rrsig owner).numLabels = rrsig.numLabels.val
  contents_perm : (contents P records).Perm
    (contents P ((W apex).data (signedOwner P rrsig owner).path rrsig.typeCovered))

/-- What verifies under a key of a zone is genuine. -/
theorem verifyRrsig_genuine {P : Platform} {W : World} (hhonest : Honest P W) {apex : Path}
    {now : Nat} {rrsig : RRSIG} {key : DNSKEY} {owner : Name} {records : List Record}
    (hkey : (W apex).ownsKey key) (h : verifyRrsig P now rrsig key owner records = true) :
    Genuine P W apex rrsig owner records := by
  obtain ⟨-, tbs, htbs, hsig⟩ := verifyRrsig_accepted h
  obtain ⟨made, owner', hsigner, hlabels, hmade⟩ := hhonest.unforgeable apex key tbs rrsig.sig hkey hsig
  obtain ⟨hfields, howner, hcontents⟩ := buildTbs_inj hhonest.fits htbs hmade
  simp only [rrsigFields, Prod.mk.injEq] at hfields
  obtain ⟨htype, -, hcount, -, -, -, -, hname⟩ := hfields
  -- The signer counted the labels of the owner, so it signed the owner itself.
  rw [signedOwner_of_le hlabels.ge] at howner
  have hcovered : rrsig.typeCovered = made.typeCovered :=
    congrArg RecordType.mk htype
  refine ⟨fun hnil => ?_, buildTbs_emitted hhonest.fits htbs, ?_, ?_, ?_⟩
  · rw [hnil] at htbs
    cases htbs
  · rw [← Name.path_toLowercase, hname, Name.path_toLowercase, hsigner]
  · rw [Name.numLabels_congr howner, ← hlabels, hcount]
  · rw [howner, hcovered]
    exact hcontents

/-- With fewer labels in the RRSIG the signed owner is a wildcard with that many labels above the star. -/
theorem Genuine.wildcard {P : Platform} {W : World} (hreads : P.ReadsStar) {apex : Path} {rrsig : RRSIG}
    {owner : Name} {records : List Record} (h : Genuine P W apex rrsig owner records)
    (hfewer : rrsig.numLabels.val < owner.numLabels) :
    readWildcard P owner rrsig.numLabels.val = some (signedOwner P rrsig owner) ∧
      ∃ parent, parent.length = rrsig.numLabels.val ∧
        (signedOwner P rrsig owner).path = parent ++ [Name.starLabel] := by
  rcases signedOwner_of_numLabels h.labels with ⟨hsame, -⟩ | ⟨-, hread⟩
  · exact absurd hsame hfewer.ne
  · obtain ⟨rest, hrest⟩ := hreads _ _ hread
    have hcount := h.labels
    rw [Name.numLabels, hrest] at hcount
    refine ⟨hread, (rest.map lowerLabel).reverse, ?_, ?_⟩
    · rw [List.length_reverse, List.length_map]
      simpa using hcount
    · rw [Name.path, hrest, List.map_cons, List.reverse_cons, Name.lowerLabel_eq_star.mpr rfl]

/-- A genuine RRset of keys or digests stands at its owner. -/
theorem Genuine.published {P : Platform} {W : World} (hhonest : Honest P W) {apex : Path}
    {rrsig : RRSIG} {owner : Name} {records : List Record}
    (h : Genuine P W apex rrsig owner records)
    (htype : rrsig.typeCovered = .DS ∨ rrsig.typeCovered = .DNSKEY) :
    ∀ r ∈ records, ∃ r' ∈ (W apex).data owner.path rrsig.typeCovered,
      SameWire P r'.data r.data := by
  intro r hr
  have hmem := h.contents_perm.mem_iff.mp (List.mem_map_of_mem hr)
  obtain ⟨r', hr', hcontent⟩ := List.mem_map.mp hmem
  have hself : signedOwner P rrsig owner = owner := by
    refine signedOwner_of_le (Nat.not_lt.mp fun hfewer => ?_)
    obtain ⟨-, parent, -, hstar⟩ := h.wildcard hhonest.readsStar hfewer
    rw [hstar, hhonest.noWildcardKeys apex _ _ htype] at hr'
    cases hr'
  rw [hself] at hr'
  obtain ⟨wire, hwire⟩ := h.emitted r hr
  exact ⟨r', hr', wire, (congrArg Prod.snd hcontent).trans hwire, hwire⟩

/-- An RRset of keys or digests that some signature verifies under keys of a zone is published by the
zone. -/
theorem VerifiedUnder.published {env : Env} {W : World} (hhonest : Honest env.platform W)
    {apex : Path} {keys : List DNSKEY} (howned : W.Owns apex keys) {answers : List Record}
    {rtype : RecordType} (hrtype : rtype = .DS ∨ rtype = .DNSKEY) {owner : Name}
    {records : List Record}
    (h : VerifiedUnder env keys (rrsigsOver answers rtype) owner records) :
    ∀ r ∈ records, ∃ r' ∈ (W apex).data owner.path rtype,
      SameWire env.platform r'.data r.data := by
  obtain ⟨rrsig, hrrsig, key, hkey, tick, hverify⟩ := h
  have htype : rrsig.typeCovered = rtype := by
    simpa using (List.mem_filter.mp hrrsig).2
  have hgenuine := verifyRrsig_genuine hhonest (howned key hkey) hverify
  rw [← htype] at hrtype ⊢
  exact hgenuine.published hhonest hrtype

/-! ### One zone of the walk -/

/-- The DS data stand for keys of the zone only. -/
def World.DigestsOf (W : World) (P : Platform) (zone : Name) (trustedDs : List DS) : Prop :=
  ∀ d ∈ trustedDs, ∀ key, computeDsDigest P zone key d.digestType = some d.digest →
    (W zone.path).ownsKey key

theorem mem_dsRecords {answers : List Record} {zone : Name} {d : DS}
    (h : d ∈ dsRecords answers zone) : ∃ r ∈ rrset answers zone .DS, r.data = .ds d := by
  obtain ⟨r, hr, hds⟩ := List.mem_filterMap.mp h
  obtain ⟨hmem, hname⟩ := List.mem_filter.mp hr
  unfold Record.ds? at hds
  split at hds
  · rename_i d' hdata
    cases hds
    refine ⟨r, mem_rrset.mpr ⟨hmem, Name.beq_iff_path.mp hname, ?_⟩, hdata⟩
    rw [Record.recordType, hdata]
    rfl
  · cases hds

theorem mem_dnskeyRecords {answers : List Record} {zone : Name} {key : DNSKEY}
    (h : key ∈ dnskeyRecords answers zone) :
    ∃ r ∈ rrset answers zone .DNSKEY, r.data = .dnskey key := by
  obtain ⟨r, hr, hkey⟩ := List.mem_filterMap.mp h
  obtain ⟨hmem, hname⟩ := List.mem_filter.mp hr
  unfold Record.dnskey? at hkey
  split at hkey
  · rename_i key' hdata
    cases hkey
    refine ⟨r, mem_rrset.mpr ⟨hmem, Name.beq_iff_path.mp hname, ?_⟩, hdata⟩
    rw [Record.recordType, hdata]
    rfl
  · cases hkey

/-- The anchors that a parent's answer gives are digests of the child's keys. -/
theorem fetchDs_digestsOf {env : Env} {W : World} (hhonest : Honest env.platform W)
    {parentKeys : List DNSKEY} {zone : Name} {s : VState} {trustedDs : List DS} {ttl : Nat}
    (howned : W.Owns zone.path.dropLast parentKeys)
    (h : (fetchDs env parentKeys zone s).1 = .anchors trustedDs ttl) :
    W.DigestsOf env.platform zone trustedDs := by
  unfold fetchDs at h
  split at h
  · cases h
  · rename_i dsMsg s₁ _
    simp only [judgeDs] at h
    split at h
    · split at h <;> cases h
    · split at h
      · cases h
      · split at h
        · rename_i heq
          split at h
          · cases h
          · cases h
            have hverified := searchSignatures_verifiedUnder (congrArg Prod.fst heq)
            intro d hd key hdigest
            obtain ⟨r, hr, hdata⟩ := mem_dsRecords (List.mem_filter.mp hd).1
            obtain ⟨r', hr', hwire⟩ := hverified.published hhonest howned (Or.inl rfl) r hr
            rw [hdata] at hwire
            exact hhonest.delegations zone r' hr' d key hwire hdigest
        · cases h
        · cases h

/-- A parent's answer alone trusts no keys. -/
theorem fetchDs_not_trusted (env : Env) (parentKeys : List DNSKEY) (zone : Name) (s : VState)
    (keys : List DNSKEY) (ttl : Nat) :
    (fetchDs env parentKeys zone s).1 ≠ .stop (.trusted keys ttl) := by
  intro h
  unfold fetchDs at h
  split at h
  · cases h
  · simp only [judgeDs] at h
    split at h
    · split at h <;> cases h
    · split at h
      · cases h
      · split at h
        · split at h <;> cases h
        · cases h
        · cases h

theorem mem_matchedKeys {P : Platform} {zone : Name} {trustedDs : List DS}
    {candidates : List DNSKEY} {key : DNSKEY} (h : key ∈ matchedKeys P zone trustedDs candidates) :
    ∃ d ∈ trustedDs, computeDsDigest P zone key d.digestType = some d.digest := by
  obtain ⟨cand, -, hcand⟩ := List.mem_flatMap.mp h
  obtain ⟨d, hd, hmatch⟩ := List.mem_filterMap.mp hcand
  split at hmatch
  · rename_i hcond
    cases hmatch
    exact ⟨d, hd, hcond.2.2⟩
  · cases hmatch

/-- The keys that a zone's answer gives belong to the zone. -/
theorem fetchDnskey_owned {env : Env} {W : World} (hhonest : Honest env.platform W) {zone : Name}
    {trustedDs : List DS} {s : VState} {keys : List DNSKEY} {ttl : Nat}
    (hdigests : W.DigestsOf env.platform zone trustedDs)
    (h : (fetchDnskey env zone trustedDs s).1 = some (keys, ttl)) : W.Owns zone.path keys := by
  unfold fetchDnskey at h
  split at h
  · cases h
  · rename_i dnskeyMsg s₁ _
    simp only at h
    split at h
    · cases h
    · split at h
      · cases h
      · split at h
        · cases h
        · split at h
          · rename_i heq
            cases h
            -- The keys that match a DS record vouch for the rest of the RRset.
            have hmatched : W.Owns zone.path (matchedKeys env.platform zone trustedDs
                (dnskeyRecords dnskeyMsg.answers zone)) := by
              intro key hkey
              obtain ⟨d, hd, hdigest⟩ := mem_matchedKeys hkey
              exact hdigests d hd key hdigest
            have hverified := searchSignatures_verifiedUnder (congrArg Prod.fst heq)
            intro key hkey
            obtain ⟨r, hr, hdata⟩ := mem_dnskeyRecords (List.mem_filter.mp hkey).1
            obtain ⟨r', hr', hwire⟩ := hverified.published hhonest hmatched (Or.inr rfl) r hr
            rw [hdata] at hwire
            exact hhonest.ownKeys zone.path r' hr' key hwire
          · cases h
          · cases h

/-! ### The walk -/

/-- The keys in the cache and the keys of finished walks belong to their zones. -/
structure TrustSound (env : Env) (W : World) (s : VState) : Prop where
  cached : ∀ text entry, s.keyTrustCache text = some entry →
    ∃ zone : Name, env.platform.nameKey zone = text ∧ W.Owns zone.path entry.keys
  logged : ∀ zone keys ttl, (zone, ChainResult.trusted keys ttl) ∈ s.chainLog →
    W.Owns zone.path keys

theorem TrustSound.init (env : Env) (W : World) : TrustSound env W .init where
  cached _ _ hentry := by cases hentry
  logged _ _ _ hlog := by cases hlog

theorem TrustSound.of_sameTables {env : Env} {W : World} {s s' : VState}
    (h : TrustSound env W s) (hsame : s.SameTables s') : TrustSound env W s' where
  cached text entry hentry := h.cached text entry (by rwa [hsame.keyTrustCache_eq] at hentry)
  logged zone keys ttl hlog := h.logged zone keys ttl (by rwa [hsame.chainLog_eq] at hlog)

theorem cachedKeys_owned {env : Env} {W : World} (hfaithful : env.platform.NameKeyFaithful)
    {zone : Name} {s : VState} (hsound : TrustSound env W s) {keys : List DNSKEY}
    (h : (cachedKeys env zone s).1 = some keys) : W.Owns zone.path keys := by
  unfold cachedKeys at h
  split at h
  · cases h
  · rename_i cached hcached
    simp only at h
    split at h
    · cases h
      obtain ⟨zone', htext, howned⟩ := hsound.cached _ cached hcached
      rw [(hfaithful zone' zone).mp htext] at howned
      exact howned
    · cases h

theorem storeKeys_sound {env : Env} {W : World} {zone : Name} {keys : List DNSKEY} {ttl : Nat}
    {s : VState} (hsound : TrustSound env W s) (howned : W.Owns zone.path keys) :
    TrustSound env W (storeKeys env zone keys ttl s) where
  cached text entry hentry := by
    rcases TextMap.insert_eq_some hentry with ⟨hkey, hnew⟩ | hold
    · rw [hnew]
      exact ⟨zone, hkey.symm, howned⟩
    · exact hsound.cached text entry hold
  logged := hsound.logged

/-- What a step of the walk makes of a zone: its keys, or an end that trusts nothing. -/
structure StepSound (env : Env) (W : World) (zone : Name) (r : StepOutcome × VState) : Prop where
  state : TrustSound env W r.2
  next : ∀ keys ttl, r.1 = .next keys ttl → W.Owns zone.path keys
  stop : ∀ keys ttl, r.1 ≠ .stop (.trusted keys ttl)

theorem fetchZoneKeys_sound {env : Env} {W : World} (hhonest : Honest env.platform W)
    {zone : Name} {trustedDs : List DS} {parentDsTtl : Nat} {s : VState}
    (hdigests : W.DigestsOf env.platform zone trustedDs) (hsound : TrustSound env W s) :
    StepSound env W zone (fetchZoneKeys env zone trustedDs parentDsTtl s) := by
  have hafter := hsound.of_sameTables (fetchDnskey_sameTables env zone trustedDs s)
  unfold fetchZoneKeys
  split
  · rename_i heq
    rw [heq] at hafter
    exact ⟨hafter, fun _ _ h => (by cases h), fun _ _ h => (by cases h)⟩
  · rename_i keys ttl s₁ heq
    rw [heq] at hafter
    have howned := fetchDnskey_owned hhonest hdigests (congrArg Prod.fst heq)
    refine ⟨storeKeys_sound hafter howned, fun _ _ hnext => ?_, fun _ _ h => (by cases h)⟩
    cases hnext
    exact howned

/-- One turn of the loop, with keys of the parent. -/
theorem chainStep_sound {env : Env} {W : World} (hhonest : Honest env.platform W)
    (hfaithful : env.platform.NameKeyFaithful) {zone : Name} {parentKeys : Option (List DNSKEY)}
    {s : VState} (hparent : ∀ keys, parentKeys = some keys → W.Owns zone.path.dropLast keys)
    (hsound : TrustSound env W s) : StepSound env W zone (chainStep env zone parentKeys s) := by
  have hcached := hsound.of_sameTables (cachedKeys_sameTables env zone s)
  unfold chainStep
  split
  · rename_i keys s₁ heq
    rw [heq] at hcached
    refine ⟨hcached, fun _ _ hnext => ?_, fun _ _ h => (by cases h)⟩
    cases hnext
    exact cachedKeys_owned hfaithful hsound (congrArg Prod.fst heq)
  · rename_i s₁ heq
    rw [heq] at hcached
    split
    · -- The root answers to the anchors, every other zone to its parent.
      rename_i hroot
      have hzone := Name.eq_root_of_isRoot hroot
      subst hzone
      exact fetchZoneKeys_sound hhonest hhonest.anchors hcached
    · split
      · exact ⟨hcached, fun _ _ h => (by cases h), fun _ _ h => (by cases h)⟩
      · rename_i keys
        have hds := hcached.of_sameTables (fetchDs_sameTables env keys zone s₁)
        split
        · rename_i result s₂ heq₂
          rw [heq₂] at hds
          refine ⟨hds, fun _ _ h => (by cases h), fun trusted ttl hstop => ?_⟩
          cases hstop
          exact fetchDs_not_trusted env keys zone s₁ trusted ttl (congrArg Prod.fst heq₂)
        · rename_i trustedDs ttl s₂ heq₂
          rw [heq₂] at hds
          exact fetchZoneKeys_sound hhonest
            (fetchDs_digestsOf hhonest (hparent keys rfl) (congrArg Prod.fst heq₂)) hds

/-- The zones lead from one name down to another, one label at a time. -/
inductive Descends : Name → List Name → Name → Prop
  | done (n : Name) : Descends n [] n
  | step {prev zone target : Name} {rest : List Name} (hparent : zone.path.dropLast = prev.path)
      (hrest : Descends zone rest target) : Descends prev (zone :: rest) target

theorem Descends.concat {prev last target : Name} {zones : List Name}
    (h : Descends prev zones last) (hparent : target.path.dropLast = last.path) :
    Descends prev (zones ++ [target]) target := by
  induction h with
  | done n => exact .step hparent (.done target)
  | step hzone _ ih => exact .step hzone (ih hparent)

theorem climb_descends (n : Name) {steps : Nat} (hsteps : steps = n.labels.length) :
    ∃ rest, (Name.climb steps n).reverse = .root :: rest ∧ Descends .root rest n := by
  induction steps generalizing n with
  | zero =>
      have hnone : n.labels = [] := List.length_eq_zero_iff.mp hsteps.symm
      have hroot := Name.eq_root_of_isRoot (List.isEmpty_iff.mpr hnone)
      subst hroot
      exact ⟨[], rfl, .done _⟩
  | succ steps ih =>
      have hparent : steps = n.baseName.labels.length := by
        simp only [Name.baseName, List.length_tail]
        omega
      have hnotroot : n.isRoot = false := by
        cases hn : n.labels with
        | nil => rw [hn] at hsteps; cases hsteps
        | cons => simp [Name.isRoot, hn]
      obtain ⟨rest, hrest, hdescends⟩ := ih n.baseName hparent
      -- The walk to the parent, one step longer.
      refine ⟨rest ++ [n], ?_, hdescends.concat (Name.path_baseName n).symm⟩
      simp [Name.climb, hnotroot, hrest]

/-- The loop over the zones that are left, with keys of the zone before them. -/
theorem chainFrom_sound {env : Env} {W : World} (hhonest : Honest env.platform W)
    (hfaithful : env.platform.NameKeyFaithful) {prev target : Name} {zones : List Name}
    (hwalk : Descends prev zones target) {keys : List DNSKEY} {lastTtl : Nat} {s : VState}
    (howned : W.Owns prev.path keys) (hsound : TrustSound env W s) :
    TrustSound env W (chainFrom env zones (some keys) lastTtl s).2 ∧
      ∀ trusted ttl, (chainFrom env zones (some keys) lastTtl s).1 = .trusted trusted ttl →
        W.Owns target.path trusted := by
  induction hwalk generalizing keys lastTtl s with
  | done n =>
      refine ⟨hsound, fun trusted ttl hresult => ?_⟩
      cases hresult
      exact howned
  | @step prev zone target rest hparent _ ih =>
      have hstep : StepSound env W zone (chainStep env zone (some keys) s) := by
        refine chainStep_sound hhonest hfaithful (fun keys' hkeys => ?_) hsound
        cases hkeys
        rw [hparent]
        exact howned
      simp only [chainFrom]
      split
      · rename_i heq
        rw [heq] at hstep
        exact ih (hstep.next _ _ rfl) hstep.state
      · rename_i heq
        rw [heq] at hstep
        refine ⟨hstep.state, fun trusted ttl hresult => ?_⟩
        exact absurd (congrArg StepOutcome.stop hresult) (hstep.stop trusted ttl)

/-- The whole walk, from the root. -/
theorem buildTrustChain_sound {env : Env} {W : World} (hhonest : Honest env.platform W)
    (hfaithful : env.platform.NameKeyFaithful) (target : Name) {s : VState}
    (hsound : TrustSound env W s) : TrustSound env W (buildTrustChain env target s).2 := by
  obtain ⟨rest, hzones, hwalk⟩ := climb_descends target rfl
  have hroot : StepSound env W .root (chainStep env .root none s) :=
    chainStep_sound hhonest hfaithful (fun _ h => by cases h) hsound
  have hwhole : TrustSound env W (chainFrom env (zonePath target) none 300 s).2 ∧
      ∀ trusted ttl, (chainFrom env (zonePath target) none 300 s).1 = .trusted trusted ttl →
        W.Owns target.path trusted := by
    rw [zonePath, Name.ancestors, hzones]
    simp only [chainFrom]
    split
    · rename_i heq
      rw [heq] at hroot
      exact chainFrom_sound hhonest hfaithful hwalk (hroot.next _ _ rfl) hroot.state
    · rename_i heq
      rw [heq] at hroot
      refine ⟨hroot.state, fun trusted ttl hresult => ?_⟩
      exact absurd (congrArg StepOutcome.stop hresult) (hroot.stop trusted ttl)
  obtain ⟨hstate, hresult⟩ := hwhole
  refine ⟨hstate.cached, fun zone keys ttl hlog => ?_⟩
  rcases List.mem_cons.mp hlog with hnew | hold
  · obtain ⟨rfl, htrusted⟩ := Prod.mk.inj hnew
    exact hresult keys ttl htrusted.symm
  · exact hstate.logged zone keys ttl hold

theorem storeSignedness_trustSound {env : Env} {W : World} {zone : Name}
    {signedness : ZoneSignedness} {proofTtl : Nat} {s : VState} (hsound : TrustSound env W s) :
    TrustSound env W (storeSignedness env zone signedness proofTtl s) := by
  unfold storeSignedness
  split
  · exact hsound
  · exact ⟨hsound.cached, hsound.logged⟩

/-- Nothing the validator does puts a foreign key into the cache or on the log. -/
theorem TrustSound.progress {env : Env} {W : World} (hhonest : Honest env.platform W)
    (hfaithful : env.platform.NameKeyFaithful) {s s' : VState} (h : TrustSound env W s)
    (hprogress : Progress env s s') : TrustSound env W s' := by
  induction hprogress with
  | same hsame => exact h.of_sameTables hsame
  | chain zone s => exact buildTrustChain_sound hhonest hfaithful zone h
  | store hlog => exact storeSignedness_trustSound h
  | trans _ _ ihab ihbc => exact ihbc (ihab h)

end Dnssec
end UnifiedDns
