import UnifiedDns.Dnssec.Validator

/-!
# What a secure verdict says of the answer section

* `Authenticated` — an RRset of a section carries a signature that was accepted, during one
  validation, under a key that `build_trust_chain` had just returned for the signer.
* `SectionAuthenticated` — every RRset of the answer section does, or is the CNAME of an
  authenticated DNAME.
* `validateAnswer_secure` — the redirections followed and the RRset they end at are authenticated.
* `NoRider` — the answer section holds nothing else.
* `validateMessage_secure_authenticates` — without riders a secure verdict vouches for the whole
  section; with an unsigned one it never does.
-/

namespace UnifiedDns
namespace Dnssec

/-- Between `s` and `s'` a signature over the RRset was accepted under a key of its signer's chain. -/
def Authenticated (env : Env) (records : List Record) (owner : Name) (rtype : RecordType)
    (s s' : VState) : Prop :=
  ∃ rrsig ∈ coveringRrsigs records owner rtype, ∃ keys ttl, ∃ key ∈ keys, ∃ tick,
    s.LoggedSince s' (rrsig.signerName, .trusted keys ttl) ∧ s.tick ≤ tick ∧ tick < s'.tick ∧
      verifyRrsig env.platform (env.clock tick) rrsig key owner (rrset records owner rtype) = true

theorem Authenticated.mono {env : Env} {records : List Record} {owner : Name}
    {rtype : RecordType} {s₀ s s' s₁ : VState} (h : Authenticated env records owner rtype s s')
    (hbefore : s₀.Extends s) (hafter : s'.Extends s₁) :
    Authenticated env records owner rtype s₀ s₁ := by
  obtain ⟨rrsig, hrrsig, keys, ttl, key, hkey, tick, hlog, hlow, hhigh, hverify⟩ := h
  have hlow' := hbefore.tick_le
  have hhigh' := hafter.tick_le
  exact ⟨rrsig, hrrsig, keys, ttl, key, hkey, tick, hlog.mono hbefore hafter, by omega, by omega,
    hverify⟩

theorem tryKeys_secure {env : Env} {rrsig : RRSIG} {owner : Name} {targetRecords : List Record}
    {keys : List DNSKEY} {s : VState}
    (h : (tryKeys env rrsig owner targetRecords keys s).1 = some .secure) :
    ∃ key ∈ keys, ∃ tick, s.tick ≤ tick ∧
      tick < (tryKeys env rrsig owner targetRecords keys s).2.tick ∧
        verifyRrsig env.platform (env.clock tick) rrsig key owner targetRecords = true := by
  induction keys generalizing s with
  | nil => cases h
  | cons dnskey rest ih =>
      -- A later key that verifies is also a key of the whole list.
      have hrest : ∀ s₁, s.tick ≤ s₁.tick →
          (tryKeys env rrsig owner targetRecords rest s₁).1 = some .secure →
          ∃ key ∈ dnskey :: rest, ∃ tick, s.tick ≤ tick ∧
            tick < (tryKeys env rrsig owner targetRecords rest s₁).2.tick ∧
              verifyRrsig env.platform (env.clock tick) rrsig key owner targetRecords = true := by
        intro s₁ hle hsecure
        obtain ⟨key, hkey, tick, hlow, hhigh, hverify⟩ := ih hsecure
        exact ⟨key, List.mem_cons_of_mem _ hkey, tick, hle.trans hlow, hhigh, hverify⟩
      have hbudget := s.canCheckSig_sameTables.tick_le
      simp only [tryKeys] at h ⊢
      split at h
      · cases h
      · rename_i s₁ heq
        rw [heq] at hbudget
        split at h
        · rename_i htag
          rw [if_pos htag]
          have hcheck := (checkRrsig_sameTables env rrsig dnskey owner targetRecords s₁).tick_le
          split at h
          · rename_i s₂ heq₂
            refine ⟨dnskey, List.mem_cons_self, s₁.tick, hbudget, ?_, congrArg Prod.fst heq₂⟩
            have hs₂ : (checkRrsig env rrsig dnskey owner targetRecords s₁).2 = s₂ :=
              congrArg Prod.snd heq₂
            rw [← hs₂]
            exact Nat.lt_succ_self s₁.tick
          · rename_i s₂ heq₂
            rw [heq₂] at hcheck
            exact hrest s₂ (hbudget.trans hcheck) h
        · rename_i htag
          rw [if_neg htag]
          exact hrest s₁ hbudget h

theorem tryCandidates_secure {env : Env} {owner : Name} {rtype : RecordType}
    {records : List Record} {candidates : List RRSIG} {anyTrustedChain : Bool} {s : VState}
    (hcover : ∀ rrsig ∈ candidates, rrsig ∈ coveringRrsigs records owner rtype)
    (h : (tryCandidates env owner (rrset records owner rtype) candidates anyTrustedChain s).1 =
      .secure) :
    Authenticated env records owner rtype s
      (tryCandidates env owner (rrset records owner rtype) candidates anyTrustedChain s).2 := by
  induction candidates generalizing anyTrustedChain s with
  | nil =>
      simp only [tryCandidates] at h
      split at h <;> cases h
  | cons rrsig rest ih =>
      obtain ⟨hrrsig, hrest⟩ := List.forall_mem_cons.mp hcover
      have hchain := buildTrustChain_extends env rrsig.signerName s
      obtain ⟨-, -, hlog⟩ := buildTrustChain_frame env rrsig.signerName s
      simp only [tryCandidates] at h ⊢
      split at h
      · rename_i keys ttl s₁ heq
        rw [heq] at hchain hlog
        have hkeys := (tryKeys_sameTables env rrsig owner (rrset records owner rtype) keys s₁).extends
        split at h
        · -- The chain was logged just before its keys were tried.
          rename_i status s₂ heq₂
          rw [heq₂] at hkeys
          simp only at h ⊢
          subst h
          have hsecure := tryKeys_secure (congrArg Prod.fst heq₂)
          rw [heq₂] at hsecure
          obtain ⟨key, hkey, tick, hlow, hhigh, hverify⟩ := hsecure
          refine ⟨rrsig, hrrsig, keys, ttl, key, hkey, tick, ?_, hchain.tick_le.trans hlow, hhigh,
            hverify⟩
          refine VState.LoggedSince.mono ⟨[_], hlog, List.mem_singleton_self _⟩
            (VState.Extends.refl s) hkeys
        · rename_i s₂ heq₂
          rw [heq₂] at hkeys
          exact (ih hrest h).mono (hchain.trans hkeys) (VState.Extends.refl _)
      · rename_i heq
        rw [heq] at hchain
        exact (ih hrest h).mono hchain (VState.Extends.refl _)
      · cases h

/-- A `secure` RRset of the answer section is authenticated. -/
theorem validateRrset_secure {env : Env} {owner : Name} {rtype : RecordType}
    {records : List Record} {s : VState}
    (h : (validateRrset env owner rtype (rrset records owner rtype) records s).1 = .secure) :
    Authenticated env records owner rtype s
      (validateRrset env owner rtype (rrset records owner rtype) records s).2 := by
  simp only [validateRrset] at h ⊢
  split at h
  · -- Without a signature no status is `secure`.
    cases hsigned : (isZoneSigned env owner s).1 <;>
      simp [hsigned, ZoneSignedness.unsignedRrset] at h
  · rename_i hrrsigs
    rw [if_neg hrrsigs]
    split at h
    · cases h
    · rename_i hcandidates
      rw [if_neg hcandidates]
      refine (tryCandidates_secure ?_ h).mono (VState.readClock_sameTables env s).extends
        (VState.Extends.refl _)
      intro rrsig hrrsig
      exact (List.mem_filter.mp hrrsig).1

theorem validateHop_secure {env : Env} {owner : Name} {rtype : RecordType}
    {records : List Record} {s : VState}
    (h : (validateHop env owner rtype records s).1 = .secure) :
    Authenticated env records owner rtype s (validateHop env owner rtype records s).2 := by
  simp only [validateHop] at h ⊢
  split at h
  · cases h
  · rename_i hrecords
    rw [if_neg hrecords]
    exact validateRrset_secure h

/-- The RRset a redirection rests on. -/
def RedirectionStep.rrsetKey : RedirectionStep → Name × RecordType
  | .cname owner _ => (owner, .CNAME)
  | .dname dnameOwner _ _ _ => (dnameOwner, dnameRecordType)

theorem validateStep_secure {env : Env} {records : List Record} {step : RedirectionStep}
    {s : VState} (h : (validateStep env records step s).1 = .secure) :
    Authenticated env records step.rrsetKey.1 step.rrsetKey.2 s
      (validateStep env records step s).2 := by
  cases step with
  | cname owner target => exact validateHop_secure h
  | dname dnameOwner target inputName redirectedName =>
      have hhop : (validateHop env dnameOwner dnameRecordType records s).1 = .secure →
          Authenticated env records dnameOwner dnameRecordType s
            (validateHop env dnameOwner dnameRecordType records s).2 := validateHop_secure
      simp only [validateStep] at h ⊢
      split at h
      · rename_i s₁ heq
        rw [heq] at hhop
        have hauth := hhop rfl
        split at h
        · rename_i hsynth
          rw [if_pos hsynth]
          exact hauth.mono (VState.Extends.refl s)
            (validateRrset_progress env inputName .CNAME _ records s₁).toExtends
        · rename_i hsynth
          rw [if_neg hsynth]
          exact hauth
      · rename_i hstatus _
        exact absurd h hstatus

theorem validateSteps_secure {env : Env} {records : List Record} {chain : List RedirectionStep}
    {s : VState} (h : (validateSteps env records chain s).1 = .secure) :
    ∀ step ∈ chain, Authenticated env records step.rrsetKey.1 step.rrsetKey.2 s
      (validateSteps env records chain s).2 := by
  induction chain generalizing s with
  | nil => simp
  | cons step rest ih =>
      have hstep : (validateStep env records step s).1 = .secure →
          Authenticated env records step.rrsetKey.1 step.rrsetKey.2 s
            (validateStep env records step s).2 := validateStep_secure
      have hextends := (validateStep_progress env records step s).toExtends
      simp only [validateSteps] at h ⊢
      split at h
      · rename_i s₁ heq
        rw [heq] at hstep hextends
        refine List.forall_mem_cons.mpr ⟨?_, fun step' hstep' => ?_⟩
        · exact (hstep rfl).mono (VState.Extends.refl s)
            (validateSteps_progress env records rest s₁).toExtends
        · exact (ih h step' hstep').mono hextends (VState.Extends.refl _)
      · rename_i hstatus _
        exact absurd h hstatus

/-! ### The whole section -/

/-- `r` is the CNAME that the DNAME record `d` makes of its owner. -/
def SynthesizedFrom (P : Platform) (d r : Record) : Prop :=
  ∃ target synth redirected, extractDnameTarget d = some target ∧ r.data = .cname synth ∧
    dnameSubstitute P r.name d.name target = .ok redirected ∧ redirected.path = synth.path

/-- The RRset that `r` belongs to is authenticated. -/
def RecordAuthenticated (env : Env) (records : List Record) (r : Record) (s s' : VState) : Prop :=
  ∃ owner : Name, owner.path = r.name.path ∧ Authenticated env records owner r.recordType s s'

/-- Every RRset of the section is authenticated, or is the CNAME of an authenticated DNAME.  A
signature is not signed itself. -/
def SectionAuthenticated (env : Env) (records : List Record) (s s' : VState) : Prop :=
  ∀ r ∈ records, r.recordType ≠ .RRSIG → RecordAuthenticated env records r s s' ∨
    ∃ d ∈ records, SynthesizedFrom env.platform d r ∧ RecordAuthenticated env records d s s'

/-- `r` belongs to a redirection from the query name or to the RRset the redirections end at. -/
def OnPath (env : Env) (qname : Name) (qtype : RecordType) (records : List Record)
    (r : Record) : Prop :=
  ∃ chain, redirections env qname qtype records = .complete chain ∧
    ((∃ step ∈ chain, step.rrsetKey.1.path = r.name.path ∧ step.rrsetKey.2 = r.recordType) ∨
      ((finalOwner qname chain).path = r.name.path ∧ qtype = r.recordType))

/-- The answer section holds nothing that validation does not look at: in an NXDOMAIN response only
signatures, in a positive one only signatures, records on the path and CNAMEs of DNAMEs on it. -/
def NoRider (env : Env) (msg : Message) (qname : Name) (qtype : RecordType) : Prop :=
  match msg.responseCode with
  | .nxDomain => ∀ r ∈ msg.answers, r.recordType = .RRSIG
  | .noError => ∀ r ∈ msg.answers, r.recordType = .RRSIG ∨
      OnPath env qname qtype msg.answers r ∨
        ∃ d ∈ msg.answers, SynthesizedFrom env.platform d r ∧ OnPath env qname qtype msg.answers d
  | _ => True

/-- Some record of the section is neither signed nor the CNAME of a DNAME there. -/
def UnsignedRider (env : Env) (records : List Record) : Prop :=
  ∃ r ∈ records, r.recordType ≠ .RRSIG ∧ coveringRrsigs records r.name r.recordType = [] ∧
    ∀ d ∈ records, ¬ SynthesizedFrom env.platform d r

/-- A `secure` answer vouches for the redirections it followed and for the RRset they end at. -/
theorem validateAnswer_secure {env : Env} {qname : Name} {qtype : RecordType}
    {records : List Record} {s : VState}
    (h : (validateAnswer env qname qtype records s).1 = .secure) :
    ∃ chain, redirections env qname qtype records = .complete chain ∧
      (∀ step ∈ chain, Authenticated env records step.rrsetKey.1 step.rrsetKey.2 s
        (validateAnswer env qname qtype records s).2) ∧
      Authenticated env records (finalOwner qname chain) qtype s
        (validateAnswer env qname qtype records s).2 := by
  unfold validateAnswer at h ⊢
  split at h
  · cases h
  · cases h
  · rename_i chain hchain
    have hsteps : (validateSteps env records chain s).1 = .secure →
        ∀ step ∈ chain, Authenticated env records step.rrsetKey.1 step.rrsetKey.2 s
          (validateSteps env records chain s).2 := validateSteps_secure
    have hextends := (validateSteps_progress env records chain s).toExtends
    refine ⟨chain, hchain, ?_⟩
    split at h
    · rename_i s₁ heq
      rw [heq] at hsteps hextends
      simp only at h ⊢
      split at h
      · cases h
      · rename_i hrecords
        rw [if_neg hrecords]
        refine ⟨fun step hstep => ?_, (validateRrset_secure h).mono hextends (VState.Extends.refl _)⟩
        exact (hsteps rfl step hstep).mono (VState.Extends.refl s)
          (validateRrset_progress env (finalOwner qname chain) qtype _ records s₁).toExtends
    · rename_i hstatus _
      exact absurd h hstatus

theorem OnPath.authenticated {env : Env} {qname : Name} {qtype : RecordType}
    {records : List Record} {r : Record} {s : VState} (hpath : OnPath env qname qtype records r)
    (h : (validateAnswer env qname qtype records s).1 = .secure) :
    RecordAuthenticated env records r s (validateAnswer env qname qtype records s).2 := by
  obtain ⟨chain, hchain, hsteps, hfinal⟩ := validateAnswer_secure h
  obtain ⟨chain', hchain', hwhere⟩ := hpath
  have hsame : chain' = chain := by
    rw [hchain] at hchain'
    exact (RedirectionChainResult.complete.inj hchain').symm
  subst hsame
  rcases hwhere with ⟨step, hstep, howner, htype⟩ | ⟨howner, htype⟩
  · refine ⟨step.rrsetKey.1, howner, ?_⟩
    rw [← htype]
    exact hsteps step hstep
  · refine ⟨finalOwner qname chain', howner, ?_⟩
    rw [← htype]
    exact hfinal

/-- An unsigned rider is authenticated by nothing. -/
theorem UnsignedRider.not_sectionAuthenticated {env : Env} {records : List Record}
    (h : UnsignedRider env records) (s s' : VState) :
    ¬ SectionAuthenticated env records s s' := by
  obtain ⟨r, hr, htype, hunsigned, hsynth⟩ := h
  intro hauth
  rcases hauth r hr htype with ⟨owner, howner, rrsig, hrrsig, -⟩ | ⟨d, hd, hfrom, -⟩
  · obtain ⟨sig, hsig, hdata, hcovered, hname⟩ := mem_coveringRrsigs.mp hrrsig
    have hmem := mem_coveringRrsigs.mpr ⟨sig, hsig, hdata, hcovered, hname.trans howner⟩
    rw [hunsigned] at hmem
    cases hmem
  · exact hsynth d hd hfrom

theorem validateMessage_of_noRider {env : Env} {msg : Message} {qname : Name}
    {qtype : RecordType} {s : VState} (hrider : NoRider env msg qname qtype)
    (h : (validateMessage env msg qname qtype s).1 = .secure) :
    SectionAuthenticated env msg.answers s (validateMessage env msg qname qtype s).2 := by
  have hfresh : s.Extends { s with budget := .default } := ⟨le_rfl, List.suffix_rfl⟩
  intro r hr htype
  unfold validateMessage validateMessageWithBudget at h ⊢
  unfold NoRider at hrider
  split at h
  · rename_i hcode
    rw [hcode] at hrider
    -- A denial looks at no record of the answer section.
    exact absurd (hrider r hr) htype
  · rename_i hcode
    rw [hcode] at hrider
    split at h
    · rename_i hempty
      rw [List.isEmpty_iff.mp hempty] at hr
      cases hr
    · rename_i hempty
      rw [if_neg hempty]
      have hauth : ∀ r, OnPath env qname qtype msg.answers r →
          RecordAuthenticated env msg.answers r s
            (validateAnswer env qname qtype msg.answers { s with budget := .default }).2 := by
        intro r hpath
        obtain ⟨owner, howner, hverified⟩ := hpath.authenticated h
        exact ⟨owner, howner, hverified.mono hfresh (VState.Extends.refl _)⟩
      rcases hrider r hr with hsig | hpath | ⟨d, hd, hfrom, hpath⟩
      · exact absurd hsig htype
      · exact Or.inl (hauth r hpath)
      · exact Or.inr ⟨d, hd, hfrom, hauth d hpath⟩
  · cases h

/-- **What a secure verdict says of the answer section.**  For every message, question, environment
and state: if nothing rides along that validation does not look at, `secure` means that the whole
section is authenticated; and if an unsigned RRset rides along, `secure` never means that. -/
theorem validateMessage_secure_authenticates (env : Env) (msg : Message) (qname : Name)
    (qtype : RecordType) (s : VState) :
    (NoRider env msg qname qtype → (validateMessage env msg qname qtype s).1 = .secure →
        SectionAuthenticated env msg.answers s (validateMessage env msg qname qtype s).2) ∧
      (UnsignedRider env msg.answers → (validateMessage env msg qname qtype s).1 = .secure →
        ¬ SectionAuthenticated env msg.answers s (validateMessage env msg qname qtype s).2) :=
  ⟨validateMessage_of_noRider, fun hrider _ => hrider.not_sectionAuthenticated _ _⟩

/-! ### A forged address in a genuine denial -/

/-- An unsigned address of `b.`. -/
def forgedAddress : Record := rootRecord (topName 98) (.a ⟨6, 6, 6, 6⟩)

/-- The root zone's denial of `b.`, with a forged address in the answer section. -/
def forgedDenial : Message :=
  { Message.new with
    responseCode := .nxDomain
    answers := [forgedAddress]
    nameServers := rootDenial }

theorem forgedDenial_unsignedRider :
    UnsignedRider (rootEnv fun _ _ => none) forgedDenial.answers := by
  refine ⟨forgedAddress, List.mem_singleton_self _, by decide, by decide, ?_⟩
  intro d hd hfrom
  obtain ⟨target, synth, redirected, -, hdata, -⟩ := hfrom
  cases hdata

/-- A forged address rides along with a `secure` denial. -/
theorem secure_denial_with_forged_address :
    ¬ ∀ (env : Env) (msg : Message) (qname : Name) (qtype : RecordType) (s : VState),
        (validateMessage env msg qname qtype s).1 = .secure →
        SectionAuthenticated env msg.answers s (validateMessage env msg qname qtype s).2 := by
  intro hclaim
  have hsecure : (validateMessage (rootEnv fun _ _ => none) forgedDenial (topName 98) .A
      .init).1 = .secure := by decide +kernel
  exact forgedDenial_unsignedRider.not_sectionAuthenticated _ _
    (hclaim _ forgedDenial (topName 98) .A .init hsecure)

/-- The address of `a.`, signed. -/
def signedAddress : Message :=
  { Message.new with
    answers := [rootRecord (topName 97) (.a ⟨1, 2, 3, 4⟩), rootSigned (topName 97) .A] }

/-- The signed address of `a.` without riders is vouched for, the forged address of `b.` is not. -/
theorem validateMessage_secure_authenticates_root :
    SectionAuthenticated (rootEnv fun _ _ => none) signedAddress.answers .init
        (validateMessage (rootEnv fun _ _ => none) signedAddress (topName 97) .A .init).2 ∧
      ¬ SectionAuthenticated (rootEnv fun _ _ => none) forgedDenial.answers .init
        (validateMessage (rootEnv fun _ _ => none) forgedDenial (topName 98) .A .init).2 := by
  have hpath : OnPath (rootEnv fun _ _ => none) (topName 97) .A signedAddress.answers
      (rootRecord (topName 97) (.a ⟨1, 2, 3, 4⟩)) := ⟨[], rfl, Or.inr ⟨rfl, rfl⟩⟩
  refine ⟨(validateMessage_secure_authenticates _ _ _ _ _).1 ?_ (by decide +kernel),
    (validateMessage_secure_authenticates _ _ _ _ _).2 forgedDenial_unsignedRider
      (by decide +kernel)⟩
  intro r hr
  rcases List.mem_pair.mp hr with rfl | rfl
  · exact Or.inr (Or.inl hpath)
  · exact Or.inl rfl

end Dnssec
end UnifiedDns
