import UnifiedDns.Dnssec.Downgrade
import UnifiedDns.Dnssec.Signers

/-!
# Answers that zones above them have signed

In a world of honest zones a `secure` verdict on a positive message leaves no room: every RRset on the way
from the query name to its end has the contents that a zone at or above its owner signs.  Unlike a statement
about one run of the loop over the signatures, this one is about the records alone, so that it can be carried
to whoever holds copies of them.

* `SignedFrom`, `SignedBy` — the contents are those that a zone signs, at the owner or at the wildcard that
  `build_tbs` reads in its place.
* `SignedAbove` — a zone at or above the owner signs them.
* `tryCandidates_genuine` — the loop accepts genuine RRsets only.
* `AuthenticAnswer`, `validateMessage_authentic` — every RRset on the way.
* `AuthenticAnswer.transfer` — records that say the same on the way are authentic too.
-/

namespace UnifiedDns
namespace Dnssec

/-- The zone signs these contents under the name `signed`. -/
structure SignedFrom (P : Platform) (W : World) (apex signed : Path) (rtype : RecordType)
    (records : List Record) : Prop where
  nonempty : records ≠ []
  emitted : ∀ content ∈ contents P records, ∃ wire, content.2 = some wire
  contents_perm : (contents P records).Perm (contents P ((W apex).data signed rtype))

/-- What is signed under a name may stand at an owner: at the name itself, or where the name is the wildcard,
with `count` labels above the star, that is read in the place of the one above the owner. -/
def StandsFor (P : Platform) (signed : Path) (owner : Name) : Prop :=
  signed = owner.path ∨
    ∃ count wildcard, count < owner.numLabels ∧ readWildcard P owner count = some wildcard ∧
      signed = wildcard.path ∧ ∃ parent, parent.length = count ∧ signed = parent ++ [Name.starLabel]

/-- The zone signs the RRset, under its owner or under the wildcard read for it. -/
def SignedBy (P : Platform) (W : World) (apex : Path) (records : List Record) (owner : Name)
    (rtype : RecordType) : Prop :=
  ∃ signed, StandsFor P signed owner ∧ SignedFrom P W apex signed rtype (rrset records owner rtype)

/-- A zone at or above the owner signs the RRset. -/
def SignedAbove (P : Platform) (W : World) (records : List Record) (owner : Name) (rtype : RecordType) :
    Prop :=
  ∃ apex : Path, apex <+: owner.path ∧ SignedBy P W apex records owner rtype

theorem SignedFrom.of_contents {P : Platform} {W : World} {apex signed : Path} {rtype : RecordType}
    {records records' : List Record} (h : SignedFrom P W apex signed rtype records)
    (hsame : contents P records' = contents P records) : SignedFrom P W apex signed rtype records' where
  nonempty hnil := by
    rw [hnil] at hsame
    exact h.nonempty (List.map_eq_nil_iff.mp hsame.symm)
  emitted := hsame ▸ h.emitted
  contents_perm := hsame ▸ h.contents_perm

/-- Each record is, octet for octet, one of those that the zone signs. -/
theorem SignedFrom.published {P : Platform} {W : World} {apex signed : Path} {rtype : RecordType}
    {records : List Record} (h : SignedFrom P W apex signed rtype records) {rec : Record}
    (hrec : rec ∈ records) : ∃ r ∈ (W apex).data signed rtype, SameWire P r.data rec.data := by
  have hcontent : (rec.dnsClass, P.rdataWire rec.data) ∈ contents P records := List.mem_map_of_mem hrec
  obtain ⟨wire, hwire⟩ := h.emitted _ hcontent
  obtain ⟨r, hr, hsame⟩ := List.mem_map.mp (h.contents_perm.mem_iff.mp hcontent)
  exact ⟨r, hr, wire, (congrArg Prod.snd hsame).trans hwire, hwire⟩

/-- A genuine RRset is signed by its signer. -/
theorem Genuine.signedBy {P : Platform} {W : World} (hreads : P.ReadsStar) {apex : Path}
    {records : List Record} {owner : Name} {rtype : RecordType} {rrsig : RRSIG}
    (h : Genuine P W apex rrsig owner (rrset records owner rtype)) (htype : rrsig.typeCovered = rtype) :
    SignedBy P W apex records owner rtype := by
  refine ⟨(signedOwner P rrsig owner).path, ?_, h.nonempty, ?_, htype ▸ h.contents_perm⟩
  · by_cases hfewer : rrsig.numLabels.val < owner.numLabels
    · obtain ⟨hread, hstar⟩ := h.wildcard hreads hfewer
      exact Or.inr ⟨_, _, hfewer, hread, rfl, hstar⟩
    · rw [signedOwner_of_le (Nat.not_lt.mp hfewer)]
      exact Or.inl rfl
  · intro content hcontent
    obtain ⟨r, hr, rfl⟩ := List.mem_map.mp hcontent
    exact h.emitted r hr

section Loop

variable {env : Env} {W : World}

theorem buildTrustChain_owned (hhonest : Honest env.platform W) (hfaithful : env.platform.NameKeyFaithful)
    {zone : Name} {s : VState} (hsound : TrustSound env W s) {keys : List DNSKEY} {ttl : Nat}
    (h : (buildTrustChain env zone s).1 = .trusted keys ttl) : W.Owns zone.path keys := by
  have hafter := buildTrustChain_sound hhonest hfaithful zone hsound
  obtain ⟨-, -, hlog⟩ := buildTrustChain_frame env zone s
  refine hafter.logged zone keys ttl ?_
  rw [hlog, h]
  exact List.mem_cons_self

/-- What the loop over the signatures accepts is genuine, for a signature among the candidates. -/
theorem tryCandidates_genuine (hhonest : Honest env.platform W)
    (hfaithful : env.platform.NameKeyFaithful) {owner : Name} {records : List Record}
    {candidates : List RRSIG} {anyTrustedChain : Bool} {s : VState} (hsound : TrustSound env W s)
    (h : (tryCandidates env owner records candidates anyTrustedChain s).1 = .secure) :
    ∃ rrsig ∈ candidates, Genuine env.platform W rrsig.signerName.path rrsig owner records := by
  induction candidates generalizing anyTrustedChain s with
  | nil =>
      simp only [tryCandidates] at h
      split at h
      · cases h
      · cases h
  | cons rrsig rest ih =>
      have hafter := buildTrustChain_sound hhonest hfaithful rrsig.signerName hsound
      have howned := fun keys ttl =>
        @buildTrustChain_owned env W hhonest hfaithful rrsig.signerName s hsound keys ttl
      have hlater : ∀ (tried : Bool) (s₁ : VState), TrustSound env W s₁ →
          (tryCandidates env owner records rest tried s₁).1 = .secure →
          ∃ sig ∈ rrsig :: rest, Genuine env.platform W sig.signerName.path sig owner records := by
        intro tried s₁ hsound₁ hsecure
        obtain ⟨sig, hsig, hgenuine⟩ := ih hsound₁ hsecure
        exact ⟨sig, List.mem_cons_of_mem _ hsig, hgenuine⟩
      simp only [tryCandidates] at h
      split at h
      · rename_i keys ttl s₁ heq
        rw [heq] at hafter howned
        have hkeys := tryKeys_sameTables env rrsig owner records keys s₁
        split at h
        · rename_i status s₂ heq₂
          simp only at h
          subst h
          obtain ⟨key, hkey, tick, -, -, hverify⟩ := tryKeys_secure (congrArg Prod.fst heq₂)
          exact ⟨rrsig, List.mem_cons_self,
            verifyRrsig_genuine hhonest (howned keys ttl rfl key hkey) hverify⟩
        · rename_i s₂ heq₂
          rw [heq₂] at hkeys
          exact hlater true s₂ (hafter.of_sameTables hkeys) h
      · rename_i s₁ heq
        rw [heq] at hafter
        exact hlater anyTrustedChain s₁ hafter h
      · cases h

/-- A `secure` RRset is signed by a zone at or above its owner. -/
theorem validateRrset_signedAbove (hhonest : Honest env.platform W)
    (hfaithful : env.platform.NameKeyFaithful) {owner : Name} {rtype : RecordType}
    {records : List Record} {s : VState} (hsound : TrustSound env W s)
    (h : (validateRrset env owner rtype (rrset records owner rtype) records s).1 = .secure) :
    SignedAbove env.platform W records owner rtype := by
  simp only [validateRrset] at h
  split at h
  · -- Without a signature no status is `secure`.
    cases hsigned : (isZoneSigned env owner s).1 with
    | _ => simp [hsigned, ZoneSignedness.unsignedRrset] at h
  · split at h
    · cases h
    · have hclock := hsound.of_sameTables (VState.readClock_sameTables env s)
      obtain ⟨rrsig, hrrsig, hgenuine⟩ := tryCandidates_genuine hhonest hfaithful hclock h
      obtain ⟨hcovering, hcandidate⟩ := List.mem_filter.mp hrrsig
      obtain ⟨-, -, -, htype, -⟩ := mem_coveringRrsigs.mp hcovering
      refine ⟨_, ?_, hgenuine.signedBy hhonest.readsStar htype⟩
      rw [Bool.and_eq_true, Bool.or_eq_true, Name.zoneOf_iff, Name.beq_iff_path] at hcandidate
      rcases hcandidate.2 with habove | hsame
      · exact habove
      · rw [hsame]

theorem validateHop_signedAbove (hhonest : Honest env.platform W)
    (hfaithful : env.platform.NameKeyFaithful) {owner : Name} {rtype : RecordType}
    {records : List Record} {s : VState} (hsound : TrustSound env W s)
    (h : (validateHop env owner rtype records s).1 = .secure) :
    SignedAbove env.platform W records owner rtype := by
  simp only [validateHop] at h
  split at h
  · cases h
  · exact validateRrset_signedAbove hhonest hfaithful hsound h

theorem validateStep_signedAbove (hhonest : Honest env.platform W)
    (hfaithful : env.platform.NameKeyFaithful) {records : List Record} {step : RedirectionStep}
    {s : VState} (hsound : TrustSound env W s) (h : (validateStep env records step s).1 = .secure) :
    SignedAbove env.platform W records step.rrsetKey.1 step.rrsetKey.2 := by
  cases step with
  | cname owner target => exact validateHop_signedAbove hhonest hfaithful hsound h
  | dname dnameOwner target inputName redirectedName =>
      simp only [validateStep] at h
      split at h
      · rename_i s₁ heq
        exact validateHop_signedAbove hhonest hfaithful hsound (congrArg Prod.fst heq)
      · rename_i hstatus _
        exact absurd h hstatus

theorem validateSteps_signedAbove (hhonest : Honest env.platform W)
    (hfaithful : env.platform.NameKeyFaithful) {records : List Record} {chain : List RedirectionStep}
    {s : VState} (hsound : TrustSound env W s) (h : (validateSteps env records chain s).1 = .secure) :
    ∀ step ∈ chain, SignedAbove env.platform W records step.rrsetKey.1 step.rrsetKey.2 := by
  induction chain generalizing s with
  | nil => exact fun step hstep => absurd hstep List.not_mem_nil
  | cons step rest ih =>
      have hafter := hsound.progress hhonest hfaithful (validateStep_progress env records step s)
      simp only [validateSteps] at h
      split at h
      · rename_i s₁ heq
        rw [heq] at hafter
        exact List.forall_mem_cons.mpr ⟨validateStep_signedAbove hhonest hfaithful hsound
          (congrArg Prod.fst heq), ih hafter h⟩
      · rename_i hstatus _
        exact absurd h hstatus

end Loop

/-! ### Whole answers -/

/-- Every RRset on the way from the query name to its end is signed by a zone at or above its owner. -/
def AuthenticAnswer (env : Env) (W : World) (qname : Name) (qtype : RecordType) (records : List Record) :
    Prop :=
  ∃ chain, redirections env qname qtype records = .complete chain ∧
    (∀ step ∈ chain, SignedAbove env.platform W records step.rrsetKey.1 step.rrsetKey.2) ∧
    SignedAbove env.platform W records (finalOwner qname chain) qtype

section Answers

variable {env : Env} {W : World}

theorem validateAnswer_authentic (hhonest : Honest env.platform W)
    (hfaithful : env.platform.NameKeyFaithful) {qname : Name} {qtype : RecordType}
    {records : List Record} {s : VState} (hsound : TrustSound env W s)
    (h : (validateAnswer env qname qtype records s).1 = .secure) :
    AuthenticAnswer env W qname qtype records := by
  unfold validateAnswer at h
  split at h
  · cases h
  · cases h
  · rename_i chain hchain
    have hafter := hsound.progress hhonest hfaithful (validateSteps_progress env records chain s)
    refine ⟨chain, hchain, ?_⟩
    split at h
    · rename_i s₁ heq
      rw [heq] at hafter
      refine ⟨validateSteps_signedAbove hhonest hfaithful hsound (congrArg Prod.fst heq), ?_⟩
      simp only at h
      split at h
      · cases h
      · exact validateRrset_signedAbove hhonest hfaithful hafter h
    · rename_i hstatus _
      exact absurd h hstatus

/-- A `secure` verdict on a positive message. -/
theorem validateMessage_authentic (hhonest : Honest env.platform W)
    (hfaithful : env.platform.NameKeyFaithful) {msg : Message} {qname : Name} {qtype : RecordType}
    {s : VState} (hsound : TrustSound env W s) (hpositive : judgedNegative msg = false)
    (h : (validateMessage env msg qname qtype s).1 = .secure) :
    AuthenticAnswer env W qname qtype msg.answers := by
  simp only [judgedNegative, Bool.or_eq_false_iff, decide_eq_false_iff_not] at hpositive
  obtain ⟨hcode, hanswers⟩ := hpositive
  unfold validateMessage validateMessageWithBudget at h
  split at h
  · rename_i hnx
    exact absurd hnx hcode
  · have hfresh : TrustSound env W { s with budget := .default } := ⟨hsound.cached, hsound.logged⟩
    rw [hanswers, if_neg Bool.false_ne_true] at h
    exact validateAnswer_authentic hhonest hfaithful hfresh h
  · cases h

/-- Records from which the same redirections are read, and which say the same on the way. -/
theorem AuthenticAnswer.transfer {qname : Name} {qtype : RecordType} {records records' : List Record}
    (h : AuthenticAnswer env W qname qtype records)
    (hchain : redirections env qname qtype records' = redirections env qname qtype records)
    (hsame : ∀ owner rtype, rtype = .CNAME ∨ rtype = dnameRecordType ∨ rtype = qtype →
      contents env.platform (rrset records' owner rtype) =
        contents env.platform (rrset records owner rtype)) :
    AuthenticAnswer env W qname qtype records' := by
  obtain ⟨chain, hcomplete, hsteps, hfinal⟩ := h
  have hkept : ∀ owner rtype, rtype = .CNAME ∨ rtype = dnameRecordType ∨ rtype = qtype →
      SignedAbove env.platform W records owner rtype → SignedAbove env.platform W records' owner rtype := by
    rintro owner rtype htype ⟨apex, habove, signed, hstands, hsigned⟩
    exact ⟨apex, habove, signed, hstands, hsigned.of_contents (hsame owner rtype htype)⟩
  refine ⟨chain, hchain.trans hcomplete, fun step hstep => hkept _ _ ?_ (hsteps step hstep),
    hkept _ _ (Or.inr (Or.inr rfl)) hfinal⟩
  cases step with
  | cname => exact Or.inl rfl
  | dname => exact Or.inr (Or.inl rfl)

end Answers

end Dnssec
end UnifiedDns
