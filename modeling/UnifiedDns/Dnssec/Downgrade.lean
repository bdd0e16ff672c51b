import UnifiedDns.Dnssec.AnswerSection
import UnifiedDns.Dnssec.InsecureDelegation

/-!
# What an insecure verdict rests on

A message that is neither `secure` nor `bogus` is served without authentication, so the two insecure
statuses decide what an attacker can strip from a response.

* `SecurelyReached` — the redirections from the query name to a name are all authenticated.
* `ProvenInsecure` — `build_trust_chain` has returned `unsigned` for a zone at or above a name.
* `Undetermined` — the exits of the validator to `insecureUnknown`, with what had been verified before.
* `ValidationRun` — the states the validator can be in: the two caches are filled by validations only.
* `validateMessage_insecure` — `insecureUnsigned` rests on a proven insecure zone (or, for a DS question,
  on an Opt-Out record); `insecureUnknown` is one of the listed exits.
-/

namespace UnifiedDns
namespace Dnssec

/-- `build_trust_chain` has returned `unsigned` for a zone at or above `n`. -/
def ProvenInsecure (s : VState) (n : Name) : Prop :=
  ∃ zone ttl, zone.zoneOf n = true ∧ (zone, ChainResult.unsigned ttl) ∈ s.chainLog

/-- Between `s` and `s'`, `build_trust_chain` has failed for a zone at or above `n`. -/
def ChainFailed (s s' : VState) (n : Name) : Prop :=
  ∃ zone : Name, zone.zoneOf n = true ∧ s.LoggedSince s' (zone, .bogus)

/-- Redirections of the records lead from `qname` to `n`, and each rests on an RRset that was
authenticated between `s` and `s'`. -/
def SecurelyReached (env : Env) (records : List Record) (qname n : Name) (s s' : VState) : Prop :=
  ∃ steps, Linked qname steps ∧ finalOwner qname steps = n ∧ ∀ step ∈ steps,
    StepBacked env.platform records step ∧
      Authenticated env records step.rrsetKey.1 step.rrsetKey.2 s s'

/-- The response is judged by `validate_negative`. -/
def judgedNegative (msg : Message) : Bool :=
  decide (msg.responseCode = .nxDomain) || msg.answers.isEmpty

/-- The SOA of the response stands at or above the query name. -/
def SoaAbove (msg : Message) (qname : Name) : Prop :=
  ∀ soaRec, denialSoa msg = some soaRec → soaRec.name.zoneOf qname = true

/-- The zone of the SOA is trusted and the SOA verified under its keys. -/
def VerifiedSoa (env : Env) (msg : Message) (s s' : VState) (soaRec : Record)
    (keys : List DNSKEY) : Prop :=
  denialSoa msg = some soaRec ∧
    (∃ ttl, s.LoggedSince s' (soaRec.name, .trusted keys ttl)) ∧
      VerifiedDenial env keys msg.nameServers soaRec

/-- The response denies a DS record by a verified Opt-Out record over the next closer name. -/
def OptOutDenial (env : Env) (msg : Message) (qname : Name) (qtype : RecordType)
    (s s' : VState) : Prop :=
  qtype = .DS ∧ ∃ soaRec keys, VerifiedSoa env msg s s' soaRec keys ∧
    ∃ rec ∈ denialRecords .NSEC3 msg.nameServers, VerifiedDenial env keys msg.nameServers rec ∧
      OptOutCovers env.platform (finalTarget msg qname) (denialRecords .NSEC3 msg.nameServers) rec

/-- How a message comes out `insecureUnknown`. -/
inductive Undetermined (env : Env) (msg : Message) (qname : Name) (qtype : RecordType)
    (s s' : VState) : Prop
  /-- A negative response without SOA. -/
  | noSoa (hnegative : judgedNegative msg = true) (hsoa : denialSoa msg = none)
  /-- A negative response with a verified SOA, whose first NSEC3 record has parameters the code does
  not compute with. -/
  | nsec3Parameters (soaRec : Record) (keys : List DNSKEY) (rec : Record) (n : NSEC3)
      (hnegative : judgedNegative msg = true) (hsoa : VerifiedSoa env msg s s' soaRec keys)
      (hfirst : (denialRecords .NSEC3 msg.nameServers).head? = some rec) (hn : rec.nsec3? = some n)
      (hunusable : n.hashAlgorithm ≠ nsec3Sha1 ∨ maxNsec3Iterations < n.iterations)
  /-- Authenticated redirections end at a name that has no records of the type. -/
  | noRecords (n : Name) (hpositive : judgedNegative msg = false)
      (hreached : SecurelyReached env msg.answers qname n s s')
      (hnone : rrset msg.answers n qtype = [])
  /-- An RRset without signature at, or above, a name that authenticated redirections lead to; the
  chain of the zone it seems to be in has failed. -/
  | noChain (n owner : Name) (rtype : RecordType) (hpositive : judgedNegative msg = false)
      (hreached : SecurelyReached env msg.answers qname n s s') (howner : owner.zoneOf n = true)
      (hunsigned : coveringRrsigs msg.answers owner rtype = []) (hfailed : ChainFailed s s' owner)

/-- The states of the validator: it starts with empty caches and only validations change them. -/
inductive ValidationRun (env : Env) : VState → Prop
  | init : ValidationRun env .init
  | validate (msg : Message) (qname : Name) (qtype : RecordType) {s : VState}
      (h : ValidationRun env s) : ValidationRun env (validateMessage env msg qname qtype s).2

theorem ProvenInsecure.mono {s s' : VState} {n : Name} (h : ProvenInsecure s n)
    (hextends : s.Extends s') : ProvenInsecure s' n := by
  obtain ⟨zone, ttl, hzone, hmem⟩ := h
  exact ⟨zone, ttl, hzone, hextends.mem hmem⟩

theorem ProvenInsecure.below {s : VState} {owner n : Name} (h : ProvenInsecure s owner)
    (hbelow : owner.zoneOf n = true) : ProvenInsecure s n := by
  obtain ⟨zone, ttl, hzone, hmem⟩ := h
  exact ⟨zone, ttl, Name.zoneOf_trans hzone hbelow, hmem⟩

theorem ChainFailed.mono {s₀ s s' s₁ : VState} {n : Name} (h : ChainFailed s s' n)
    (hbefore : s₀.Extends s) (hafter : s'.Extends s₁) : ChainFailed s₀ s₁ n := by
  obtain ⟨zone, hzone, hlog⟩ := h
  exact ⟨zone, hzone, hlog.mono hbefore hafter⟩

theorem SecurelyReached.mono {env : Env} {records : List Record} {qname n : Name}
    {s₀ s s' s₁ : VState} (h : SecurelyReached env records qname n s s')
    (hbefore : s₀.Extends s) (hafter : s'.Extends s₁) :
    SecurelyReached env records qname n s₀ s₁ := by
  obtain ⟨steps, hlinked, hfinal, hsteps⟩ := h
  refine ⟨steps, hlinked, hfinal, fun step hstep => ?_⟩
  obtain ⟨hbacked, hauth⟩ := hsteps step hstep
  exact ⟨hbacked, hauth.mono hbefore hafter⟩

/-- No redirection is needed to reach the query name. -/
theorem SecurelyReached.here (env : Env) (records : List Record) (qname : Name)
    (s s' : VState) : SecurelyReached env records qname qname s s' :=
  ⟨[], trivial, rfl, by simp⟩

/-! ### The zone of a name -/

/-- The table of signed zones answers for a zone at or above the name, and never `unknown`. -/
theorem cachedSignedness_some {env : Env} {name : Name} {names : List Name} {s : VState}
    {signedness : ZoneSignedness} (h : (cachedSignedness env name names s).1 = some signedness) :
    signedness ≠ .unknown ∧ (signedness = .provenUnsigned → ∃ cur ∈ names, ∃ entry,
      s.signedZoneCache (env.platform.nameKey cur) = some entry ∧
        entry.signedness = .provenUnsigned) := by
  induction names generalizing s with
  | nil => cases h
  | cons cur rest ih =>
      -- What the rest of the search finds is found in the same table.
      have hrest : ∀ s₁ : VState, s₁.signedZoneCache = s.signedZoneCache →
          (cachedSignedness env name rest s₁).1 = some signedness →
          signedness ≠ .unknown ∧ (signedness = .provenUnsigned → ∃ cur' ∈ cur :: rest, ∃ entry,
            s.signedZoneCache (env.platform.nameKey cur') = some entry ∧
              entry.signedness = .provenUnsigned) := by
        intro s₁ htable hs₁
        obtain ⟨hne, hentry⟩ := ih hs₁
        refine ⟨hne, fun hunsigned => ?_⟩
        obtain ⟨cur', hcur', entry, hfound, hproven⟩ := hentry hunsigned
        rw [htable] at hfound
        exact ⟨cur', List.mem_cons_of_mem _ hcur', entry, hfound, hproven⟩
      simp only [cachedSignedness] at h
      split at h
      · exact hrest s rfl h
      · rename_i entry hentry
        split at h
        · split at h
          · rename_i hproven
            cases h
            exact ⟨by simp, fun _ => ⟨cur, List.mem_cons_self, entry, hentry, hproven⟩⟩
          · split at h
            · cases h
              exact ⟨by simp, fun hunsigned => by cases hunsigned⟩
            · exact hrest (s.readClock env).2 rfl h
          · exact hrest (s.readClock env).2 rfl h
        · exact hrest (s.readClock env).2 rfl h

theorem isZoneSigned_provenUnsigned {env : Env} (hfaithful : env.platform.NameKeyFaithful)
    {name : Name} {s : VState} (hbacked : UnsignedBacked env s)
    (h : (isZoneSigned env name s).1 = .provenUnsigned) :
    ProvenInsecure (isZoneSigned env name s).2 name := by
  rcases isZoneSigned_cases env name s with ⟨signedness, hcached, heq⟩ | ⟨zone, s₁, hzone, -, heq⟩
  · -- From the table: the entry is backed by an earlier chain.
    rw [heq] at h ⊢
    obtain ⟨cur, hcur, entry, hentry, hproven⟩ := (cachedSignedness_some hcached).2 h
    obtain ⟨zone, ttl, hkey, hmem⟩ := hbacked _ entry hentry hproven
    have hpath := (hfaithful zone cur).mp hkey
    have habove := Name.mem_ancestors hcur
    rw [Name.zoneOf_iff, ← hpath] at habove
    exact ⟨zone, ttl, Name.zoneOf_iff.mpr habove,
      (cachedSignedness_sameTables env name name.ancestors s).extends.mem hmem⟩
  · -- From the chain of the zone found, which is on the log.
    rw [heq] at h ⊢
    have hmem := buildTrustChain_mem_log env zone s₁
    cases hresult : (buildTrustChain env zone s₁).1 with
    | trusted keys ttl => simp [hresult, ChainResult.signedness] at h
    | unsigned ttl =>
        rw [hresult] at hmem
        exact ⟨zone, ttl, hzone, (storeSignedness_extends env _ _ _ _).mem hmem⟩
    | bogus => simp [hresult, ChainResult.signedness] at h

theorem isZoneSigned_unknown {env : Env} {name : Name} {s : VState}
    (h : (isZoneSigned env name s).1 = .unknown) :
    ChainFailed s (isZoneSigned env name s).2 name := by
  rcases isZoneSigned_cases env name s with ⟨signedness, hcached, heq⟩ |
    ⟨zone, s₁, hzone, htables, heq⟩
  · rw [heq] at h
    exact absurd h (cachedSignedness_some hcached).1
  · rw [heq] at h ⊢
    obtain ⟨-, -, hlog⟩ := buildTrustChain_frame env zone s₁
    refine ⟨zone, hzone, ?_⟩
    cases hresult : (buildTrustChain env zone s₁).1 with
    | trusted keys ttl => simp [hresult, ChainResult.signedness] at h
    | unsigned ttl => simp [hresult, ChainResult.signedness] at h
    | bogus =>
        rw [hresult] at hlog
        show s.LoggedSince (storeSignedness env zone _ _ (buildTrustChain env zone s₁).2) _
        exact VState.LoggedSince.mono ⟨[_], hlog, List.mem_singleton_self _⟩ htables.extends
          (storeSignedness_extends env _ _ _ _)

/-! ### One RRset -/

/-- Trying keys ends in `secure`, in `bogus` or without a verdict. -/
theorem tryKeys_some {env : Env} {rrsig : RRSIG} {owner : Name} {targetRecords : List Record}
    {keys : List DNSKEY} {s : VState} {status : DnssecStatus}
    (h : (tryKeys env rrsig owner targetRecords keys s).1 = some status) :
    status = .secure ∨ status = .bogus := by
  induction keys generalizing s with
  | nil => cases h
  | cons dnskey rest ih =>
      simp only [tryKeys] at h
      split at h
      · cases h
        exact Or.inr rfl
      · split at h
        · split at h
          · cases h
            exact Or.inl rfl
          · exact ih h
        · exact ih h

/-- When the signatures come out insecure, no chain was trusted and every signer's chain ended in
`unsigned`. -/
theorem tryCandidates_insecure {env : Env} {owner : Name} {targetRecords : List Record}
    {candidates : List RRSIG} {anyTrustedChain : Bool} {s : VState} :
    (tryCandidates env owner targetRecords candidates anyTrustedChain s).1 ≠ .insecureUnknown ∧
      ((tryCandidates env owner targetRecords candidates anyTrustedChain s).1 = .insecureUnsigned →
        anyTrustedChain = false ∧ ∀ rrsig ∈ candidates, ∃ ttl,
          (rrsig.signerName, ChainResult.unsigned ttl) ∈
            (tryCandidates env owner targetRecords candidates anyTrustedChain s).2.chainLog) := by
  induction candidates generalizing anyTrustedChain s with
  | nil => cases anyTrustedChain <;> simp [tryCandidates]
  | cons rrsig rest ih =>
      have hlog := buildTrustChain_mem_log env rrsig.signerName s
      simp only [tryCandidates]
      split
      · rename_i keys ttl s₁ heq
        have hstatus : ∀ status,
            (tryKeys env rrsig owner targetRecords keys s₁).1 = some status →
            status = .secure ∨ status = .bogus := fun _ => tryKeys_some
        split
        · rename_i status s₂ heq₂
          rcases hstatus status (by rw [heq₂]) with rfl | rfl <;> simp
        · -- From a trusted chain on nothing is insecure any more.
          refine ⟨ih.1, fun h => ?_⟩
          have htrusted := (ih.2 h).1
          cases htrusted
      · rename_i ttl s₁ heq
        rw [heq] at hlog
        refine ⟨ih.1, fun h => ?_⟩
        obtain ⟨hnone, hrest⟩ := ih.2 h
        have hextends :=
          (tryCandidates_progress env owner targetRecords rest anyTrustedChain s₁).toExtends
        exact ⟨hnone, List.forall_mem_cons.mpr ⟨⟨ttl, hextends.mem hlog⟩, hrest⟩⟩
      · simp

theorem validateRrset_insecureUnsigned {env : Env} (hfaithful : env.platform.NameKeyFaithful)
    {owner : Name} {rtype : RecordType} {targetRecords allRecords : List Record} {s : VState}
    (hbacked : UnsignedBacked env s)
    (h : (validateRrset env owner rtype targetRecords allRecords s).1 = .insecureUnsigned) :
    ProvenInsecure (validateRrset env owner rtype targetRecords allRecords s).2 owner := by
  simp only [validateRrset] at h ⊢
  split at h
  · rename_i hnone
    rw [if_pos hnone]
    refine isZoneSigned_provenUnsigned hfaithful hbacked ?_
    cases hsigned : (isZoneSigned env owner s).1 with
    | signed => simp [hsigned, ZoneSignedness.unsignedRrset] at h
    | provenUnsigned => rfl
    | unknown => simp [hsigned, ZoneSignedness.unsignedRrset] at h
  · rename_i hsome
    rw [if_neg hsome]
    split at h
    · cases h
    · rename_i hcandidates
      rw [if_neg hcandidates]
      obtain ⟨-, hchains⟩ := tryCandidates_insecure.2 h
      obtain ⟨rrsig, hrrsig⟩ := List.exists_mem_of_ne_nil _ (mt List.isEmpty_iff.mpr hcandidates)
      obtain ⟨ttl, hmem⟩ := hchains rrsig hrrsig
      have hsigner := (List.mem_filter.mp hrrsig).2
      simp only [Bool.and_eq_true, Bool.or_eq_true] at hsigner
      refine ⟨rrsig.signerName, ttl, ?_, hmem⟩
      rcases hsigner.2 with hzone | heq
      · exact hzone
      · rw [Name.zoneOf_iff, Name.beq_iff_path.mp heq]

theorem validateRrset_insecureUnknown {env : Env} {owner : Name} {rtype : RecordType}
    {targetRecords allRecords : List Record} {s : VState}
    (h : (validateRrset env owner rtype targetRecords allRecords s).1 = .insecureUnknown) :
    coveringRrsigs allRecords owner rtype = [] ∧
      ChainFailed s (validateRrset env owner rtype targetRecords allRecords s).2 owner := by
  simp only [validateRrset] at h ⊢
  split at h
  · rename_i hnone
    rw [if_pos hnone]
    refine ⟨by simpa using hnone, isZoneSigned_unknown ?_⟩
    cases hsigned : (isZoneSigned env owner s).1 with
    | signed => simp [hsigned, ZoneSignedness.unsignedRrset] at h
    | provenUnsigned => simp [hsigned, ZoneSignedness.unsignedRrset] at h
    | unknown => rfl
  · split at h
    · cases h
    · exact absurd h tryCandidates_insecure.1

/-! ### The redirections -/

theorem validateHop_insecureUnsigned {env : Env} (hfaithful : env.platform.NameKeyFaithful)
    {owner : Name} {rtype : RecordType} {allRecords : List Record} {s : VState}
    (hbacked : UnsignedBacked env s)
    (h : (validateHop env owner rtype allRecords s).1 = .insecureUnsigned) :
    ProvenInsecure (validateHop env owner rtype allRecords s).2 owner := by
  simp only [validateHop] at h ⊢
  split at h
  · cases h
  · rename_i hrecords
    rw [if_neg hrecords]
    exact validateRrset_insecureUnsigned hfaithful hbacked h

theorem validateHop_insecureUnknown {env : Env} {owner : Name} {rtype : RecordType}
    {allRecords : List Record} {s : VState}
    (h : (validateHop env owner rtype allRecords s).1 = .insecureUnknown) :
    coveringRrsigs allRecords owner rtype = [] ∧
      ChainFailed s (validateHop env owner rtype allRecords s).2 owner := by
  simp only [validateHop] at h ⊢
  split at h
  · cases h
  · rename_i hrecords
    rw [if_neg hrecords]
    exact validateRrset_insecureUnknown h

/-- The DNAME of a step stands above the name it redirects. -/
theorem StepBacked.dnameOwner_zoneOf {P : Platform} {records : List Record}
    {dnameOwner target inputName redirectedName : Name}
    (h : StepBacked P records (.dname dnameOwner target inputName redirectedName)) :
    dnameOwner.zoneOf inputName = true := by
  obtain ⟨-, -, -, -, habove, -⟩ := dnameStepAt_spec h.2
  exact Name.zoneOf_iff.mpr habove

theorem validateStep_insecureUnsigned {env : Env} (hfaithful : env.platform.NameKeyFaithful)
    {records : List Record} {step : RedirectionStep} {s : VState}
    (hstep : StepBacked env.platform records step) (hbacked : UnsignedBacked env s)
    (h : (validateStep env records step s).1 = .insecureUnsigned) :
    ProvenInsecure (validateStep env records step s).2 step.source := by
  cases step with
  | cname owner target => exact validateHop_insecureUnsigned hfaithful hbacked h
  | dname dnameOwner target inputName redirectedName =>
      have hprogress := validateHop_progress env dnameOwner dnameRecordType records s
      have hhop : (validateHop env dnameOwner dnameRecordType records s).1 = .insecureUnsigned →
          ProvenInsecure (validateHop env dnameOwner dnameRecordType records s).2 dnameOwner :=
        validateHop_insecureUnsigned hfaithful hbacked
      simp only [validateStep] at h ⊢
      split at h
      · rename_i s₁ heq
        rw [heq] at hprogress
        split at h
        · rename_i hsynth
          rw [if_pos hsynth]
          exact validateRrset_insecureUnsigned hfaithful (hprogress.backed hbacked) h
        · cases h
      · rename_i status s₁ _ heq
        rw [heq] at hhop
        exact (hhop h).below hstep.dnameOwner_zoneOf

theorem validateStep_insecureUnknown {env : Env} {records : List Record}
    {step : RedirectionStep} {s : VState} (hstep : StepBacked env.platform records step)
    (h : (validateStep env records step s).1 = .insecureUnknown) :
    ∃ owner rtype, owner.zoneOf step.source = true ∧ coveringRrsigs records owner rtype = [] ∧
      ChainFailed s (validateStep env records step s).2 owner := by
  cases step with
  | cname owner target =>
      obtain ⟨hunsigned, hfailed⟩ := validateHop_insecureUnknown h
      exact ⟨owner, .CNAME, Name.zoneOf_self owner, hunsigned, hfailed⟩
  | dname dnameOwner target inputName redirectedName =>
      have hextends := (validateHop_progress env dnameOwner dnameRecordType records s).toExtends
      have hhop : (validateHop env dnameOwner dnameRecordType records s).1 = .insecureUnknown →
          coveringRrsigs records dnameOwner dnameRecordType = [] ∧
            ChainFailed s (validateHop env dnameOwner dnameRecordType records s).2 dnameOwner :=
        validateHop_insecureUnknown
      simp only [validateStep] at h ⊢
      split at h
      · rename_i s₁ heq
        rw [heq] at hextends
        split at h
        · rename_i hsynth
          rw [if_pos hsynth]
          obtain ⟨hunsigned, hfailed⟩ := validateRrset_insecureUnknown h
          exact ⟨inputName, .CNAME, Name.zoneOf_self inputName, hunsigned,
            hfailed.mono hextends (VState.Extends.refl _)⟩
        · cases h
      · rename_i status s₁ _ heq
        rw [heq] at hhop
        obtain ⟨hunsigned, hfailed⟩ := hhop h
        exact ⟨dnameOwner, dnameRecordType, hstep.dnameOwner_zoneOf, hunsigned, hfailed⟩

/-- The name the first step of a linked chain starts at ends the steps before it. -/
theorem Linked.finalOwner_append {name : Name} {pre post : List RedirectionStep}
    {step : RedirectionStep} (h : Linked name (pre ++ step :: post)) :
    Linked name pre ∧ finalOwner name pre = step.source := by
  induction pre generalizing name with
  | nil => exact ⟨trivial, h.1.symm⟩
  | cons first rest ih =>
      obtain ⟨hfirst, hrest⟩ := h
      obtain ⟨hlinked, hfinal⟩ := ih hrest
      exact ⟨⟨hfirst, hlinked⟩, by rw [finalOwner_cons, hfinal]⟩

/-- A walk over the redirections that does not end `secure` stops at one of them, and those before it
were `secure`. -/
theorem validateSteps_stop {env : Env} {records : List Record} {chain : List RedirectionStep}
    {s : VState} (h : (validateSteps env records chain s).1 ≠ .secure) :
    ∃ pre step post s₁, chain = pre ++ step :: post ∧ Progress env s s₁ ∧
      (∀ earlier ∈ pre,
        Authenticated env records earlier.rrsetKey.1 earlier.rrsetKey.2 s s₁) ∧
      validateSteps env records chain s = validateStep env records step s₁ := by
  induction chain generalizing s with
  | nil => exact absurd rfl h
  | cons first rest ih =>
      have hfirst : (validateStep env records first s).1 = .secure →
          Authenticated env records first.rrsetKey.1 first.rrsetKey.2 s
            (validateStep env records first s).2 := validateStep_secure
      have hprogress := validateStep_progress env records first s
      simp only [validateSteps] at h ⊢
      split at h
      · rename_i s₁ heq
        rw [heq] at hfirst hprogress
        obtain ⟨pre, step, post, s₂, hchain, hprogress₂, hpre, hend⟩ := ih h
        refine ⟨first :: pre, step, post, s₂, by rw [hchain]; rfl, hprogress.trans hprogress₂, ?_,
          hend⟩
        refine List.forall_mem_cons.mpr ⟨?_, fun earlier hearlier => ?_⟩
        · exact (hfirst rfl).mono (VState.Extends.refl s) hprogress₂.toExtends
        · exact (hpre earlier hearlier).mono hprogress.toExtends (VState.Extends.refl s₂)
      · rename_i heq
        exact ⟨[], first, rest, s, rfl, Progress.refl env s, by simp, heq.symm⟩

/-- The redirections followed are linked from the query name on and backed by records. -/
theorem redirections_linked {env : Env} {name : Name} {rtype : RecordType}
    {records : List Record} {chain : List RedirectionStep}
    (h : redirections env name rtype records = .complete chain) :
    Linked name chain ∧ ∀ step ∈ chain, StepBacked env.platform records step := by
  unfold redirections at h
  split at h
  · cases h
    exact ⟨trivial, by simp⟩
  · obtain ⟨hlinked, hbacked, -⟩ := collectRedirectionChain_linked h
    exact ⟨hlinked, hbacked⟩

/-- The redirections before a name the walk stopped at are authenticated. -/
theorem SecurelyReached.of_append {env : Env} {records : List Record} {qname : Name}
    {pre post : List RedirectionStep} {step : RedirectionStep} {s s' : VState}
    (hlinked : Linked qname (pre ++ step :: post))
    (hbacked : ∀ earlier ∈ pre, StepBacked env.platform records earlier)
    (hpre : ∀ earlier ∈ pre,
      Authenticated env records earlier.rrsetKey.1 earlier.rrsetKey.2 s s') :
    SecurelyReached env records qname step.source s s' := by
  obtain ⟨hlinkedPre, hfinal⟩ := hlinked.finalOwner_append
  exact ⟨pre, hlinkedPre, hfinal, fun earlier h => ⟨hbacked earlier h, hpre earlier h⟩⟩

/-- The end of a walk that started in `s`: the name is in an insecure zone, or an RRset at or above it has
no signatures and the chain of its zone failed. -/
def StoppedInsecure (records : List Record) (s s' : VState) (n : Name) (status : DnssecStatus) :
    Prop :=
  (status = .insecureUnsigned ∧ ProvenInsecure s' n) ∨
    (status = .insecureUnknown ∧ ∃ owner rtype, owner.zoneOf n = true ∧
      coveringRrsigs records owner rtype = [] ∧ ChainFailed s s' owner)

theorem validateRrset_insecure {env : Env} (hfaithful : env.platform.NameKeyFaithful) {n : Name}
    {rtype : RecordType} {targetRecords records : List Record} {s s₁ s' : VState}
    {status : DnssecStatus} (hprogress : Progress env s s₁) (hbacked : UnsignedBacked env s)
    (h : validateRrset env n rtype targetRecords records s₁ = (status, s'))
    (hsecure : status ≠ .secure) (hbogus : status ≠ .bogus) :
    StoppedInsecure records s s' n status := by
  have hstatus := congrArg Prod.fst h
  have hstate := congrArg Prod.snd h
  simp only at hstatus hstate
  cases status with
  | secure => exact absurd rfl hsecure
  | bogus => exact absurd rfl hbogus
  | insecureUnsigned =>
      have hproven := validateRrset_insecureUnsigned hfaithful (hprogress.backed hbacked) hstatus
      rw [hstate] at hproven
      exact Or.inl ⟨rfl, hproven⟩
  | insecureUnknown =>
      obtain ⟨hunsigned, hfailed⟩ := validateRrset_insecureUnknown hstatus
      rw [hstate] at hfailed
      exact Or.inr ⟨rfl, _, rtype, Name.zoneOf_self _, hunsigned,
        hfailed.mono hprogress.toExtends (VState.Extends.refl s')⟩

theorem validateStep_insecure {env : Env} (hfaithful : env.platform.NameKeyFaithful)
    {records : List Record} {step : RedirectionStep} {s s₁ s' : VState} {status : DnssecStatus}
    (hstep : StepBacked env.platform records step) (hprogress : Progress env s s₁)
    (hbacked : UnsignedBacked env s) (h : validateStep env records step s₁ = (status, s'))
    (hsecure : status ≠ .secure) (hbogus : status ≠ .bogus) :
    StoppedInsecure records s s' step.source status := by
  have hstatus := congrArg Prod.fst h
  have hstate := congrArg Prod.snd h
  simp only at hstatus hstate
  cases status with
  | secure => exact absurd rfl hsecure
  | bogus => exact absurd rfl hbogus
  | insecureUnsigned =>
      have hproven :=
        validateStep_insecureUnsigned hfaithful hstep (hprogress.backed hbacked) hstatus
      rw [hstate] at hproven
      exact Or.inl ⟨rfl, hproven⟩
  | insecureUnknown =>
      obtain ⟨owner, rtype, howner, hunsigned, hfailed⟩ :=
        validateStep_insecureUnknown hstep hstatus
      rw [hstate] at hfailed
      exact Or.inr ⟨rfl, owner, rtype, howner, hunsigned,
        hfailed.mono hprogress.toExtends (VState.Extends.refl s')⟩

/-- An insecure positive response: the walk reached a name by authenticated redirections and met an
insecure zone, no records, or an unsigned RRset whose chain failed. -/
theorem validateAnswer_insecure {env : Env} (hfaithful : env.platform.NameKeyFaithful)
    {qname : Name} {qtype : RecordType} {records : List Record} {s s' : VState}
    (hbacked : UnsignedBacked env s) {status : DnssecStatus}
    (h : validateAnswer env qname qtype records s = (status, s'))
    (hsecure : status ≠ .secure) (hbogus : status ≠ .bogus) :
    ∃ n, SecurelyReached env records qname n s s' ∧
      (StoppedInsecure records s s' n status ∨
        (status = .insecureUnknown ∧ rrset records n qtype = [])) := by
  unfold validateAnswer at h
  split at h
  · cases h
    exact absurd rfl hbogus
  · cases h
    exact absurd rfl hbogus
  · rename_i chain hchain
    obtain ⟨hlinked, hsteps⟩ := redirections_linked hchain
    split at h
    · -- All redirections are secure: the RRset they end at decides.
      rename_i s₁ heq
      have hauth := validateSteps_secure (congrArg Prod.fst heq)
      have hprogress := validateSteps_progress env records chain s
      rw [heq] at hauth hprogress
      have hreached : SecurelyReached env records qname (finalOwner qname chain) s s₁ :=
        ⟨chain, hlinked, rfl, fun step hstep => ⟨hsteps step hstep, hauth step hstep⟩⟩
      simp only at h
      split at h
      · rename_i hnone
        cases h
        exact ⟨_, hreached, Or.inr ⟨rfl, List.isEmpty_iff.mp hnone⟩⟩
      · have hrrset := validateRrset_progress env (finalOwner qname chain) qtype
          (rrset records (finalOwner qname chain) qtype) records s₁
        rw [h] at hrrset
        exact ⟨_, hreached.mono (VState.Extends.refl s) hrrset.toExtends,
          Or.inl (validateRrset_insecure hfaithful hprogress hbacked h hsecure hbogus)⟩
    · -- The walk stops at a redirection.
      rename_i heq
      rw [h] at heq
      have hne : (validateSteps env records chain s).1 ≠ .secure := by
        rw [heq]
        exact hsecure
      obtain ⟨pre, step, post, s₁, rfl, hprogress, hpre, hend⟩ := validateSteps_stop hne
      have hstop : validateStep env records step s₁ = (status, s') := by rw [← hend, heq]
      have hstep := validateStep_progress env records step s₁
      rw [hstop] at hstep
      have hreached : SecurelyReached env records qname step.source s s₁ :=
        .of_append hlinked (fun earlier hearlier => hsteps earlier (by simp [hearlier])) hpre
      exact ⟨step.source, hreached.mono (VState.Extends.refl s) hstep.toExtends,
        Or.inl (validateStep_insecure hfaithful (hsteps step (by simp)) hprogress hbacked hstop
          hsecure hbogus)⟩

/-! ### The denial -/

theorem validateDenial_insecure {env : Env} {keys : List DNSKEY} {target : Name}
    {qtype : RecordType} {authority : List Record} {s : VState} {status : DnssecStatus}
    (h : (validateDenial env keys target qtype authority s).1 = status)
    (hsecure : status ≠ .secure) (hbogus : status ≠ .bogus) :
    (status = .insecureUnsigned ∧ qtype = .DS ∧ ∃ rec ∈ denialRecords .NSEC3 authority,
        VerifiedDenial env keys authority rec ∧
          OptOutCovers env.platform target (denialRecords .NSEC3 authority) rec) ∨
      (status = .insecureUnknown ∧ RefusedNsec3 authority) := by
  unfold validateDenial at h
  split at h
  · rcases validateNsec3_cases h with hstatus | hunusable | ⟨first, husable, hverified, hverdict⟩
    · exact absurd hstatus hbogus
    · exact Or.inr hunusable
    · have hstatus : status = .insecureUnsigned := by
        cases status with
        | secure => exact absurd rfl hsecure
        | bogus => exact absurd rfl hbogus
        | insecureUnsigned => rfl
        | insecureUnknown => exact absurd hverdict (nsec3Verdict_ne_insecureUnknown _ _ _ _ _ _)
      subst hstatus
      have hds := (nsec3Verdict_insecureUnsigned hverdict).1
      subst hds
      obtain ⟨rec, hrec, hcovers⟩ := exists_optOutCovers husable hverdict
      exact Or.inl ⟨rfl, rfl, rec, hrec, verifyDenialRecords_verified hverified rec hrec, hcovers⟩
  · split at h
    · obtain ⟨-, -, hverdict⟩ := validateNsec_ne_bogus h hbogus
      rcases nsecVerdict_secure_or_bogus env.platform target qtype
        (denialRecords .NSEC authority) with hv | hv
      · rw [hv] at hverdict
        exact absurd hverdict.symm hsecure
      · rw [hv] at hverdict
        exact absurd hverdict.symm hbogus
    · exact absurd h.symm hbogus

/-- An insecure negative response: no SOA, an insecure zone, or the denial of a verified SOA's zone. -/
theorem validateNegative_insecure {env : Env} {msg : Message} {qname : Name}
    {qtype : RecordType} {s s' : VState} {status : DnssecStatus}
    (h : validateNegative env msg qname qtype s = (status, s'))
    (hsecure : status ≠ .secure) (hbogus : status ≠ .bogus) :
    (denialSoa msg = none ∧ status = .insecureUnknown) ∨
      (∃ soaRec ttl, denialSoa msg = some soaRec ∧ status = .insecureUnsigned ∧
        (soaRec.name, ChainResult.unsigned ttl) ∈ s'.chainLog) ∨
      (status = .insecureUnsigned ∧ OptOutDenial env msg qname qtype s s') ∨
      (status = .insecureUnknown ∧ ∃ soaRec keys, VerifiedSoa env msg s s' soaRec keys ∧
        RefusedNsec3 msg.nameServers) := by
  unfold validateNegative at h
  split at h
  · rename_i hsoa
    cases h
    exact Or.inl ⟨hsoa, rfl⟩
  · rename_i soaRec hsoa
    simp only at h
    obtain ⟨-, -, hlog⟩ := buildTrustChain_frame env soaRec.name s
    split at h
    · cases h
      exact absurd rfl hbogus
    · split at h
      · rename_i ttl s₁ heq
        rw [heq] at hlog
        cases h
        refine Or.inr (Or.inl ⟨soaRec, ttl, hsoa, rfl, ?_⟩)
        rw [hlog]
        exact List.mem_cons_self
      · cases h
        exact absurd rfl hbogus
      · rename_i keys ttl s₁ heq
        rw [heq] at hlog
        have hverify := verifyNegativeRrset_sameTables env soaRec msg.nameServers keys s₁
        split at h
        · cases h
          exact absurd rfl hbogus
        · rename_i s₂ heq₂
          rw [heq₂] at hverify
          have hdenial := validateDenial_sameTables env keys (finalTarget msg qname) qtype
            msg.nameServers s₂
          rw [h] at hdenial
          have hverified : VerifiedSoa env msg s s' soaRec keys := by
            refine ⟨hsoa, ⟨ttl, ?_⟩, verifyNegativeRrset_verified (congrArg Prod.fst heq₂)⟩
            exact VState.LoggedSince.mono ⟨[_], hlog, List.mem_singleton_self _⟩
              (VState.Extends.refl s) (hverify.trans hdenial).extends
          rcases validateDenial_insecure (congrArg Prod.fst h) hsecure hbogus with
            ⟨hstatus, hds, hrec⟩ | ⟨hstatus, hrec⟩
          · exact Or.inr (Or.inr (Or.inl ⟨hstatus, hds, soaRec, keys, hverified, hrec⟩))
          · exact Or.inr (Or.inr (Or.inr ⟨hstatus, soaRec, keys, hverified, hrec⟩))

/-! ### Whole messages -/

/-- The table of signed zones is backed in every state a run reaches. -/
theorem ValidationRun.unsignedBacked {env : Env} {s : VState} (h : ValidationRun env s) :
    UnsignedBacked env s := by
  induction h with
  | init =>
      intro key entry hentry
      cases hentry
  | validate msg qname qtype _ ih =>
      exact (validateMessage_progress env msg qname qtype _).backed ih

theorem VerifiedSoa.mono {env : Env} {msg : Message} {s₀ s s' : VState} {soaRec : Record}
    {keys : List DNSKEY} (h : VerifiedSoa env msg s s' soaRec keys) (hbefore : s₀.Extends s) :
    VerifiedSoa env msg s₀ s' soaRec keys := by
  obtain ⟨hsoa, ⟨ttl, hlog⟩, hverified⟩ := h
  exact ⟨hsoa, ⟨ttl, hlog.mono hbefore (VState.Extends.refl s')⟩, hverified⟩

/-- The two pipelines, from a fresh budget. -/
theorem validateMessage_eq (env : Env) {msg : Message} (qname : Name) (qtype : RecordType)
    (s : VState) (hcode : msg.responseCode = .noError ∨ msg.responseCode = .nxDomain) :
    validateMessage env msg qname qtype s =
      if judgedNegative msg then validateNegative env msg qname qtype { s with budget := .default }
      else validateAnswer env qname qtype msg.answers { s with budget := .default } := by
  unfold validateMessage validateMessageWithBudget judgedNegative
  rcases hcode with hcode | hcode
  · simp [hcode]
  · simp [hcode]

theorem rootPlatform_nameKeyFaithful : rootPlatform.NameKeyFaithful := plain_nameKeyFaithful

/-- Every DS question is answered by the root zone's denial; nothing else is answered. -/
def unsignedEnv : Env :=
  rootEnv fun _ rtype =>
    if rtype = .DS then some { Message.new with nameServers := rootDenial } else none

/-- `b.a.` -/
def belowTop : Name := ⟨[[98], [97]], by simp [ValidLabels, wireLength]⟩

/-- An address of `b.a.` without signature. -/
def unsignedAddress : Message :=
  { Message.new with answers := [rootRecord belowTop (.a ⟨1, 2, 3, 4⟩)] }

end Dnssec
end UnifiedDns
