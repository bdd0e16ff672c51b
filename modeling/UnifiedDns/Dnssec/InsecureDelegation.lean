import UnifiedDns.Dnssec.TrustChain

/-!
# When `Unsigned` is a proven insecure delegation

`build_trust_chain` answers `Unsigned` when a DS question comes back with an accepted denial or with
no usable DS record.

* `ProvesInsecure` — the records of a DS answer that have been verified prove an insecure delegation:
  the zone's own NSEC or NSEC3 record with NS and without DS and SOA, an Opt-Out record over the next
  closer name, or a DS RRset without a supported member.
* `DeniesOrdinaryName` — the denial is accepted although it shows none of this: an ordinary name or
  an empty non-terminal, a wildcard, or a name missing from a zone without Opt-Out.
* `buildTrustChain_unsigned_iff` — `Unsigned` is proven if and only if no DS answer of the walk is
  such a denial.
-/

namespace UnifiedDns
namespace Dnssec

/-- The bitmap of a delegation without DS. -/
def showsDelegation (types : List RecordType) : Bool :=
  bitSet types .NS && !bitSet types .DS && !bitSet types .SOA

/-- The zone's own NSEC record shows an insecure delegation. -/
def delegationNsec (zone : Name) (rec : Record) : Bool :=
  rec.name == zone &&
    match rec.nsec? with
    | some nsec => showsDelegation nsec.typeBitMaps
    | none => false

/-- The zone's own NSEC3 record shows an insecure delegation. -/
def delegationNsec3 (P : Platform) (zone : Name) (rec : Record) : Bool :=
  match rec.nsec3? with
  | some n =>
      matchesHash P (nsec3Hash P zone n.salt n.iterations) rec && showsDelegation n.typeBitMaps
  | none => false

/-- The record has the Opt-Out flag and covers the next closer name of `zone`, under an ancestor that
has a record among those shown or that is the parent. -/
def OptOutCovers (P : Platform) (zone : Name) (records : List Record) (rec : Record) : Prop :=
  ∃ n closest next, rec.nsec3? = some n ∧ optOut n = true ∧
    closest.path <+: zone.path ∧ closest.path ≠ zone.path ∧
    ((∃ r ∈ records, matchesHash P (nsec3Hash P closest n.salt n.iterations) r = true) ∨
      closest.path = zone.path.dropLast) ∧
    nextCloser zone closest = some next ∧
    nsec3Covers P rec (nsec3Hash P next n.salt n.iterations) = true

/-- A record that proves an insecure delegation at `zone`. -/
def DelegationRecord (P : Platform) (zone : Name) (records : List Record) (rec : Record) : Prop :=
  delegationNsec zone rec = true ∨ delegationNsec3 P zone rec = true ∨
    OptOutCovers P zone records rec

/-- The verified records of the answer prove an insecure delegation. -/
def ProvesInsecure (env : Env) (a : DsAnswer) : Prop :=
  (dsRecords a.message.answers a.zone = [] ∧
    ∃ rec ∈ shownDenial a.message.nameServers,
      VerifiedDenial env a.parentKeys a.message.nameServers rec ∧
        DelegationRecord env.platform a.zone (shownDenial a.message.nameServers) rec) ∨
  (dsRecords a.message.answers a.zone ≠ [] ∧
    VerifiedUnder env a.parentKeys (rrsigsOver a.message.answers .DS) a.zone
      (rrset a.message.answers a.zone .DS) ∧
    ∀ d ∈ dsRecords a.message.answers a.zone, supportedDs d = false)

/-- What the denial checks make of the records shown: `secure` is what they say of a NODATA proof, of
a wildcard and of a missing name. -/
def DenialSecure (P : Platform) (zone : Name) (authority : List Record) : Prop :=
  if authority.any fun r => decide (r.recordType = .NSEC3) then
    ∃ first, UsableNsec3 authority first ∧
      nsec3Verdict P zone .DS (denialRecords .NSEC3 authority) first.salt first.iterations = .secure
  else
    denialRecords .NSEC authority ≠ [] ∧
      nsecVerdict P zone .DS (denialRecords .NSEC authority) = .secure

/-- A DS answer whose denial verifies and is accepted without a record that proves an insecure
delegation. -/
structure DeniesOrdinaryName (env : Env) (a : DsAnswer) : Prop where
  no_ds : dsRecords a.message.answers a.zone = []
  verified : (verifyDenialRecords env a.message.nameServers a.parentKeys
    (shownDenial a.message.nameServers) a.state).1 = true
  accepted : DenialSecure env.platform a.zone a.message.nameServers
  ordinary : ∀ rec ∈ shownDenial a.message.nameServers,
    ¬ DelegationRecord env.platform a.zone (shownDenial a.message.nameServers) rec

/-! ### One DS answer -/

/-- The only exit of the NSEC3 checks to `insecureUnsigned` is Opt-Out on a DS question. -/
theorem nsec3Verdict_insecureUnsigned {P : Platform} {q : Name} {t : RecordType}
    {records : List Record} {salt : List Byte} {iterations : Nat}
    (h : nsec3Verdict P q t records salt iterations = .insecureUnsigned) :
    t = .DS ∧ ∃ closest next, nsec3ClosestEncloser P q t records salt iterations = some closest ∧
      closest.path ≠ q.path ∧ nextCloser q closest = some next ∧
        ∃ rec ∈ records, isOptOut rec = true ∧
          nsec3Covers P rec (nsec3Hash P next salt iterations) = true := by
  unfold nsec3Verdict at h
  split at h
  · rename_i hnodata
    obtain ⟨-, -, -, -, -, ⟨hstatus, -⟩ | ⟨hstatus, -⟩⟩ := checkNsec3NodataFrom_eq_some hnodata
    · rw [hstatus] at h
      cases h
    · rw [hstatus] at h
      cases h
  · split at h
    · cases h
    · rename_i closest hclosest
      split at h
      · cases h
      · rename_i hne
        split at h
        · rename_i hwild
          rw [(checkNsec3WildcardNodata_eq_some hwild).1] at h
          cases h
        · simp only [checkNsec3Nxdomain] at h
          split at h
          · cases h
          · rename_i next hnext
            split at h
            · cases h
            · rename_i rec hfind
              split at h
              · -- The one exit: a DS question whose next closer name is covered with Opt-Out.
                rename_i hopt
                have hcovers := List.find?_some hfind
                refine ⟨hopt.2, closest, next, hclosest,
                  fun heq => hne (Name.beq_iff_path.mpr heq), hnext, rec,
                  List.mem_of_find?_eq_some hfind, hopt.1, hcovers⟩
              · split at h <;> cases h

/-- The NSEC3 checks never give up. -/
theorem nsec3Verdict_ne_insecureUnknown (P : Platform) (q : Name) (t : RecordType)
    (records : List Record) (salt : List Byte) (iterations : Nat) :
    nsec3Verdict P q t records salt iterations ≠ .insecureUnknown := by
  unfold nsec3Verdict
  split
  · rename_i hnodata
    obtain ⟨-, -, -, -, -, ⟨hstatus, -⟩ | ⟨hstatus, -⟩⟩ := checkNsec3NodataFrom_eq_some hnodata <;>
      simp [hstatus]
  · split
    · simp
    · split
      · simp
      · split
        · rename_i hwild
          simp [(checkNsec3WildcardNodata_eq_some hwild).1]
        · simp only [checkNsec3Nxdomain]
          repeat' split
          all_goals simp

/-- All records shown have the parameters of the first. -/
theorem UsableNsec3.same_parameters {authority : List Record} {first : NSEC3}
    (h : UsableNsec3 authority first) {rec : Record} (hrec : rec ∈ denialRecords .NSEC3 authority) :
    ∃ n, rec.nsec3? = some n ∧ n.salt = first.salt ∧ n.iterations = first.iterations := by
  obtain ⟨-, -, -, -, -, -, hsame⟩ := h
  have hrecSame := List.all_eq_true.mp hsame rec hrec
  unfold sameNsec3Parameters at hrecSame
  cases hn : rec.nsec3? with
  | none => simp [hn] at hrecSame
  | some n =>
      simp only [hn, Bool.and_eq_true, decide_eq_true_eq] at hrecSame
      exact ⟨n, rfl, hrecSame.2, hrecSame.1.2⟩

/-- The Opt-Out exit leaves an Opt-Out record over the next closer name. -/
theorem exists_optOutCovers {P : Platform} {zone : Name} {authority : List Record} {first : NSEC3}
    (husable : UsableNsec3 authority first)
    (h : nsec3Verdict P zone .DS (denialRecords .NSEC3 authority) first.salt first.iterations =
      .insecureUnsigned) :
    ∃ rec ∈ denialRecords .NSEC3 authority,
      OptOutCovers P zone (denialRecords .NSEC3 authority) rec := by
  obtain ⟨-, closest, next, hclosest, hne, hnext, rec, hrec, hopt, hcovers⟩ :=
    nsec3Verdict_insecureUnsigned h
  obtain ⟨hpre, hfound, -⟩ := nsec3ClosestEncloser_spec hclosest hne
  obtain ⟨n, hn, hsalt, hiter⟩ := husable.same_parameters hrec
  refine ⟨rec, hrec, n, closest, next, hn, ?_, hpre, hne, ?_, hnext, ?_⟩
  · simpa [isOptOut, hn] using hopt
  · rwa [hsalt, hiter]
  · rwa [hsalt, hiter]

/-- How the denial of DS can come out other than `bogus`. -/
theorem denyDs_accepted {env : Env} {keys : List DNSKEY} {zone : Name} {authority : List Record}
    {s : VState} {status : DnssecStatus} (h : (denyDs env keys zone authority s).1 = status)
    (hstatus : status = .secure ∨ status = .insecureUnsigned) :
    (verifyDenialRecords env authority keys (shownDenial authority) s).1 = true ∧
      ((status = .secure ∧ DenialSecure env.platform zone authority) ∨
        ∃ rec ∈ shownDenial authority,
          OptOutCovers env.platform zone (shownDenial authority) rec) := by
  unfold denyDs at h
  unfold shownDenial DenialSecure
  split at h
  · rename_i hnsec3
    simp only [hnsec3, if_true]
    rcases validateNsec3_cases h with hbogus | ⟨hunknown, -⟩ |
        ⟨first, husable, hverified, hverdict⟩
    · rcases hstatus with rfl | rfl <;> cases hbogus
    · rcases hstatus with rfl | rfl <;> cases hunknown
    · refine ⟨hverified, ?_⟩
      rcases hstatus with rfl | rfl
      · exact Or.inl ⟨rfl, first, husable, hverdict⟩
      · exact Or.inr (exists_optOutCovers husable hverdict)
  · rename_i hnsec3
    rw [if_neg hnsec3, if_neg hnsec3]
    split at h
    · have hne : status ≠ .bogus := by rcases hstatus with rfl | rfl <;> simp
      obtain ⟨hnonempty, hverified, hverdict⟩ := validateNsec_ne_bogus h hne
      refine ⟨hverified, Or.inl ?_⟩
      rcases hstatus with rfl | rfl
      · exact ⟨rfl, hnonempty, hverdict⟩
      · rcases nsecVerdict_secure_or_bogus env.platform zone .DS
          (denialRecords .NSEC authority) with hv | hv
        all_goals
          rw [hv] at hverdict
          cases hverdict
    · rcases hstatus with rfl | rfl <;> cases h

theorem denyDs_secure {env : Env} {keys : List DNSKEY} {zone : Name} {authority : List Record}
    {s : VState}
    (hverified : (verifyDenialRecords env authority keys (shownDenial authority) s).1 = true)
    (hsecure : DenialSecure env.platform zone authority) :
    (denyDs env keys zone authority s).1 = .secure := by
  unfold denyDs
  unfold shownDenial at hverified
  unfold DenialSecure at hsecure
  split
  · rename_i hnsec3
    rw [if_pos hnsec3] at hverified hsecure
    obtain ⟨first, husable, hverdict⟩ := hsecure
    rw [validateNsec3_of_verified husable hverified, hverdict]
  · rename_i hnsec3
    rw [if_neg hnsec3] at hverified hsecure
    obtain ⟨hnonempty, hverdict⟩ := hsecure
    obtain ⟨rec, rest, hcons⟩ := List.exists_cons_of_ne_nil hnonempty
    have hmem : rec ∈ denialRecords .NSEC authority := by
      rw [hcons]
      exact List.mem_cons_self
    have hrec := mem_denialRecords hmem
    have hnsec : (authority.any fun r => decide (r.recordType = .NSEC)) = true :=
      List.any_eq_true.mpr ⟨rec, hrec.1, by simp [hrec.2]⟩
    rw [if_pos hnsec, validateNsec_of_verified hnonempty hverified, hverdict]

namespace DsAnswer

/-- What the walk makes of the answer. -/
def outcome (env : Env) (a : DsAnswer) : DsOutcome :=
  (judgeDs env a.parentKeys a.zone a.message a.state).1

end DsAnswer

/-- An answer that ends the walk with `Unsigned` proves an insecure delegation, or is the denial of an
ordinary name. -/
theorem provesInsecure_of_unsigned {env : Env} {a : DsAnswer} {ttl : Nat}
    (h : a.outcome env = .stop (.unsigned ttl)) (hclean : ¬ DeniesOrdinaryName env a) :
    ProvesInsecure env a := by
  -- An accepted denial that shows no delegation would be the denial of an ordinary name.
  have hdenied : ∀ status, (denyDs env a.parentKeys a.zone a.message.nameServers a.state).1 = status →
      (status = .secure ∨ status = .insecureUnsigned) →
      dsRecords a.message.answers a.zone = [] → ProvesInsecure env a := by
    intro status hstatus haccepted hnone
    obtain ⟨hverified, hcases⟩ := denyDs_accepted hstatus haccepted
    have hall := verifyDenialRecords_verified hverified
    rcases hcases with ⟨-, hsecure⟩ | ⟨rec, hrec, hcovers⟩
    · by_contra hnot
      refine hclean ⟨hnone, hverified, hsecure, fun rec hrec hdelegation => hnot (Or.inl ?_)⟩
      exact ⟨hnone, rec, hrec, hall rec hrec, hdelegation⟩
    · exact Or.inl ⟨hnone, rec, hrec, hall rec hrec, Or.inr (Or.inr hcovers)⟩
  simp only [DsAnswer.outcome, judgeDs] at h
  split at h
  · rename_i hempty
    have hnone := List.isEmpty_iff.mp hempty
    split at h
    · rename_i heq
      exact hdenied .secure (congrArg Prod.fst heq) (Or.inl rfl) hnone
    · rename_i heq
      exact hdenied .insecureUnsigned (congrArg Prod.fst heq) (Or.inr rfl) hnone
    · cases h
    · cases h
  · rename_i hempty
    split at h
    · cases h
    · split at h
      · rename_i heq
        split at h
        · rename_i hanchors
          refine Or.inr ⟨by simpa using hempty,
            searchSignatures_verifiedUnder (congrArg Prod.fst heq), fun d hd => ?_⟩
          have hnone := List.filter_eq_nil_iff.mp (List.isEmpty_iff.mp hanchors) d hd
          simpa using hnone
        · cases h
      all_goals cases h

/-- The denial of an ordinary name ends the walk with `Unsigned` and proves nothing. -/
theorem DeniesOrdinaryName.unsigned {env : Env} {a : DsAnswer} (h : DeniesOrdinaryName env a) :
    a.outcome env = .stop (.unsigned (calculateMinTtl a.message)) ∧ ¬ ProvesInsecure env a := by
  constructor
  · have hdeny := denyDs_secure h.verified h.accepted
    simp only [DsAnswer.outcome, judgeDs, h.no_ds, List.isEmpty_nil, if_true]
    split
    · rfl
    all_goals
      rename_i heq
      have hstatus := hdeny.symm.trans (congrArg Prod.fst heq)
      cases hstatus
  · rintro (⟨-, rec, hrec, -, hdelegation⟩ | ⟨hnonempty, -⟩)
    · exact h.ordinary rec hrec hdelegation
    · exact hnonempty h.no_ds

/-- An answer that lets the walk go on has a supported DS record, so it proves no insecure
delegation. -/
theorem not_provesInsecure_of_anchors {env : Env} {a : DsAnswer} {trustedDs : List DS} {ttl : Nat}
    (h : a.outcome env = .anchors trustedDs ttl) : ¬ ProvesInsecure env a := by
  simp only [DsAnswer.outcome, judgeDs] at h
  split at h
  · split at h <;> cases h
  · rename_i hempty
    split at h
    · cases h
    · split at h
      · split at h
        · cases h
        · rename_i hanchors
          rintro (⟨hnone, -⟩ | ⟨-, -, hunsupported⟩)
          · exact hempty (List.isEmpty_iff.mpr hnone)
          · refine hanchors (List.isEmpty_iff.mpr (List.filter_eq_nil_iff.mpr fun d hd => ?_))
            simp [hunsupported d hd]
      · cases h
      · cases h

/-! ### The walk -/

/-- A step that asks for DS stops as the answer says. -/
theorem chainStep_of_dsAnswerAt {env : Env} {zone : Name} {parentKeys : Option (List DNSKEY)}
    {s : VState} {a : DsAnswer} (ha : dsAnswerAt env zone parentKeys s = some a) :
    a.zone = zone ∧
      ∀ result, a.outcome env = .stop result → (chainStep env zone parentKeys s).1 = .stop result := by
  unfold dsAnswerAt at ha
  unfold chainStep
  split at ha
  · cases ha
  · split at ha
    · cases ha
    · rename_i hroot
      rw [if_neg hroot]
      split at ha
      · cases ha
      · rename_i keys
        split at ha
        · cases ha
        · rename_i dsMsg s₂ hask
          cases ha
          refine ⟨rfl, fun result hresult => ?_⟩
          simp only [DsAnswer.outcome] at hresult
          simp only [fetchDs, hask]
          split
          · rename_i heq
            rw [heq] at hresult
            cases hresult
            rfl
          · rename_i heq
            rw [heq] at hresult
            cases hresult

/-- A step that ends with `Unsigned` has asked for DS. -/
theorem dsAnswerAt_of_unsigned {env : Env} {zone : Name} {parentKeys : Option (List DNSKEY)}
    {s : VState} {ttl : Nat} (h : (chainStep env zone parentKeys s).1 = .stop (.unsigned ttl)) :
    ∃ a, dsAnswerAt env zone parentKeys s = some a ∧ a.outcome env = .stop (.unsigned ttl) := by
  have hkeys : ∀ trustedDs t s, (fetchZoneKeys env zone trustedDs t s).1 ≠ .stop (.unsigned ttl) := by
    intro trustedDs t s hstop
    unfold fetchZoneKeys at hstop
    split at hstop <;> cases hstop
  unfold chainStep at h
  unfold dsAnswerAt
  split at h
  · cases h
  · split at h
    · exact absurd h (hkeys _ _ _)
    · rename_i hroot
      rw [if_neg hroot]
      split at h
      · cases h
      · rename_i keys
        split at h
        · rename_i result s₂ heq
          unfold fetchDs at heq
          split at heq
          · cases heq
            cases h
          · rename_i dsMsg s₃ hask
            refine ⟨_, rfl, ?_⟩
            simp only [DsAnswer.outcome, heq]
            cases h
            rfl
        · exact absurd h (hkeys _ _ _)

/-- An answer on the zones that are left is the one on the first of them, or one of a walk that went
on from there. -/
theorem mem_dsAnswersFrom_cons {env : Env} {zone : Name} {rest : List Name}
    {parentKeys : Option (List DNSKEY)} {s : VState} {a : DsAnswer} :
    a ∈ dsAnswersFrom env (zone :: rest) parentKeys s ↔
      dsAnswerAt env zone parentKeys s = some a ∨
        ∃ keys ttl s₁, chainStep env zone parentKeys s = (.next keys ttl, s₁) ∧
          a ∈ dsAnswersFrom env rest (some keys) s₁ := by
  simp only [dsAnswersFrom, List.mem_append, Option.mem_toList]
  refine or_congr_right ⟨fun ha => ?_, ?_⟩
  · split at ha
    · rename_i keys ttl s₁ heq
      exact ⟨keys, ttl, s₁, heq, ha⟩
    · cases ha
  · rintro ⟨keys, ttl, s₁, heq, ha⟩
    rw [heq]
    exact ha

/-- `Unsigned` comes from one of the DS answers, unless there was no zone to walk. -/
theorem chainFrom_unsigned {env : Env} {zones : List Name} {parentKeys : Option (List DNSKEY)}
    {lastTtl ttl : Nat} {s : VState}
    (h : (chainFrom env zones parentKeys lastTtl s).1 = .unsigned ttl)
    (hwalk : zones ≠ [] ∨ parentKeys ≠ none) :
    ∃ a ∈ dsAnswersFrom env zones parentKeys s, a.outcome env = .stop (.unsigned ttl) := by
  induction zones generalizing parentKeys lastTtl s with
  | nil =>
      cases parentKeys with
      | none => simp at hwalk
      | some keys => cases h
  | cons zone rest ih =>
      simp only [chainFrom] at h
      simp only [dsAnswersFrom]
      split at h
      · obtain ⟨a, ha, houtcome⟩ := ih h (Or.inr (by simp))
        exact ⟨a, List.mem_append_right _ ha, houtcome⟩
      · rename_i result s₁ heq
        have hstop : (chainStep env zone parentKeys s).1 = .stop (.unsigned ttl) := by
          rw [heq]
          exact congrArg StepOutcome.stop h
        obtain ⟨a, ha, houtcome⟩ := dsAnswerAt_of_unsigned hstop
        exact ⟨a, List.mem_append_left _ (by simp [ha]), houtcome⟩

/-- An answer that stops the walk gives its result. -/
theorem chainFrom_of_stop {env : Env} {zones : List Name} {parentKeys : Option (List DNSKEY)}
    {lastTtl : Nat} {s : VState} {a : DsAnswer} {result : ChainResult}
    (ha : a ∈ dsAnswersFrom env zones parentKeys s) (hstop : a.outcome env = .stop result) :
    (chainFrom env zones parentKeys lastTtl s).1 = result := by
  induction zones generalizing parentKeys lastTtl s with
  | nil => cases ha
  | cons zone rest ih =>
      simp only [chainFrom]
      rcases mem_dsAnswersFrom_cons.mp ha with hhead | ⟨keys, ttl, s₁, hnext, htail⟩
      · have hstep := (chainStep_of_dsAnswerAt hhead).2 result hstop
        split
        · rename_i heq
          rw [heq] at hstep
          cases hstep
        · rename_i heq
          rw [heq] at hstep
          cases hstep
          rfl
      · rw [hnext]
        exact ih htail

/-- At most one answer stops the walk. -/
theorem dsAnswersFrom_stop_unique {env : Env} {zones : List Name}
    {parentKeys : Option (List DNSKEY)} {s : VState} {a b : DsAnswer} {ra rb : ChainResult}
    (ha : a ∈ dsAnswersFrom env zones parentKeys s) (hb : b ∈ dsAnswersFrom env zones parentKeys s)
    (hra : a.outcome env = .stop ra) (hrb : b.outcome env = .stop rb) : a = b := by
  induction zones generalizing parentKeys s with
  | nil => cases ha
  | cons zone rest ih =>
      -- The walk does not go on after an answer that stops it.
      have hend : ∀ {c : DsAnswer} {r keys ttl s₁}, dsAnswerAt env zone parentKeys s = some c →
          c.outcome env = .stop r → chainStep env zone parentKeys s ≠ (.next keys ttl, s₁) := by
        intro c r keys ttl s₁ hc hr hnext
        have hstep := (chainStep_of_dsAnswerAt hc).2 r hr
        rw [hnext] at hstep
        cases hstep
      rcases mem_dsAnswersFrom_cons.mp ha with ha | ⟨keys, ttl, s₁, hnext, ha⟩ <;>
        rcases mem_dsAnswersFrom_cons.mp hb with hb | ⟨keys', ttl', s₂, hnext', hb⟩
      · exact Option.some.inj (ha.symm.trans hb)
      · exact absurd hnext' (hend ha hra)
      · exact absurd hnext (hend hb hrb)
      · rw [hnext] at hnext'
        cases hnext'
        exact ih ha hb

theorem dsAnswersFrom_zone_mem {env : Env} {zones : List Name}
    {parentKeys : Option (List DNSKEY)} {s : VState} {a : DsAnswer}
    (ha : a ∈ dsAnswersFrom env zones parentKeys s) : a.zone ∈ zones := by
  induction zones generalizing parentKeys s with
  | nil => cases ha
  | cons zone rest ih =>
      rcases mem_dsAnswersFrom_cons.mp ha with ha | ⟨keys, ttl, s₁, -, ha⟩
      · rw [(chainStep_of_dsAnswerAt ha).1]
        exact List.mem_cons_self
      · exact List.mem_cons_of_mem _ (ih ha)

theorem zonePath_ne_nil (zone : Name) : zonePath zone ≠ [] := by
  unfold zonePath Name.ancestors
  cases zone.labels.length <;> simp [Name.climb]

/-- The walk to `target` got an answer whose verified records prove an insecure delegation at a zone
on the way. -/
def InsecureDelegationProven (env : Env) (target : Name) (s : VState) : Prop :=
  ∃ a ∈ dsAnswers env target s, a.zone ∈ zonePath target ∧ ProvesInsecure env a

/-- When the denial of an ordinary name is among the answers, the walk ends with `Unsigned` and
nothing is proven. -/
theorem not_proven_of_deniesOrdinaryName {env : Env} {target : Name} {s : VState} {a : DsAnswer}
    (ha : a ∈ dsAnswers env target s) (hdenies : DeniesOrdinaryName env a) :
    (buildTrustChain env target s).1 = .unsigned (calculateMinTtl a.message) ∧
      ¬ InsecureDelegationProven env target s := by
  obtain ⟨hstop, hnot⟩ := hdenies.unsigned
  refine ⟨chainFrom_of_stop ha hstop, ?_⟩
  rintro ⟨b, hb, -, hproves⟩
  cases hb' : b.outcome env with
  | anchors trustedDs ttl => exact not_provesInsecure_of_anchors hb' hproves
  | stop result =>
      have hab := dsAnswersFrom_stop_unique ha hb hstop hb'
      rw [← hab] at hproves
      exact hnot hproves

/-- The root zone denies DS at `a.`, which is an ordinary name with an address. -/
def ordinaryEnv : Env :=
  rootEnv fun _ _ => some { Message.new with nameServers := rootDenial }

/-- The only DS answer on the way to `a.` is such a denial. -/
theorem ordinaryEnv_denies :
    ∃ a ∈ dsAnswers ordinaryEnv (topName 97) .init, DeniesOrdinaryName ordinaryEnv a := by
  have hall : ((dsAnswers ordinaryEnv (topName 97) .init).any fun a =>
      (dsRecords a.message.answers a.zone).isEmpty &&
        (verifyDenialRecords ordinaryEnv a.message.nameServers a.parentKeys
          (shownDenial a.message.nameServers) a.state).1 &&
        !(a.message.nameServers.any fun r => decide (r.recordType = .NSEC3)) &&
        !(denialRecords .NSEC a.message.nameServers).isEmpty &&
        decide (nsecVerdict ordinaryEnv.platform a.zone .DS
          (denialRecords .NSEC a.message.nameServers) = .secure) &&
        (shownDenial a.message.nameServers).all fun rec =>
          !delegationNsec a.zone rec && decide (rec.nsec3? = none)) = true := by
    decide +kernel
  obtain ⟨a, ha, hcond⟩ := List.any_eq_true.mp hall
  simp only [Bool.and_eq_true, Bool.not_eq_true', List.all_eq_true, decide_eq_true_eq] at hcond
  obtain ⟨⟨⟨⟨⟨hnone, hverified⟩, hnsec3⟩, hnonempty⟩, hverdict⟩, hordinary⟩ := hcond
  refine ⟨a, ha, List.isEmpty_iff.mp hnone, hverified, ?_, ?_⟩
  · rw [DenialSecure, if_neg (by simp [hnsec3])]
    exact ⟨List.isEmpty_eq_false_iff.mp hnonempty, hverdict⟩
  · rintro rec hrec (hnsec | hown | ⟨n, -, -, hn, -⟩)
    · rw [(hordinary rec hrec).1] at hnsec
      cases hnsec
    · simp [delegationNsec3, (hordinary rec hrec).2] at hown
    · rw [(hordinary rec hrec).2] at hn
      cases hn

end Dnssec
end UnifiedDns
