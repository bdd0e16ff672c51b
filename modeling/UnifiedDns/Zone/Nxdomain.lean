import UnifiedDns.Dnssec.Validator
import UnifiedDns.Zone.Nsec3Denial

/-!
# When a secure NXDOMAIN is sound

`validate_message` on a response with the code NXDOMAIN and genuine denial records of a zone.  The
response code does not reach the denial checks, so what they accept as NODATA is served as a missing
name.

* `Present` — the zone has something at a name or below it.
* `DeniedName` — the name such a response denies: the query name, or the end of its CNAME chain.
* `DenialVerifies` — the SOA and the denial records carry good signatures of the zone.
* `NxdomainMisleads` — the responses that are accepted although the denied name is present.
* `secure_nxdomain_sound_iff` — a secure NXDOMAIN is true of the zone exactly for all others.
-/

namespace UnifiedDns
namespace Zone

open Dnssec

/-- The zone owns data at the name or below it. -/
def Present (Z : Zone) (p : Path) : Prop := ∃ o ∈ Z.names, p <+: o

/-- There is data at the name or below it that a cut hides. -/
def Hidden (Z : Zone) (p : Path) : Prop := ∃ o ∈ Z.names, Z.Occluded o ∧ p <+: o

/-- The name owns nothing but has an owner below it. -/
def EmptyNonTerminal (Z : Zone) (p : Path) : Prop := p ∉ Z.owners ∧ ∃ o ∈ Z.owners, p <+: o

/-- One CNAME record of the answer section. -/
def AliasStep (answers : List Record) (a b : Name) : Prop :=
  ∃ r ∈ answers, r.name.path = a.path ∧ r.data = .cname b

/-- The CNAME records of the answer section lead from the query name to `d` and no further. -/
def DeniedName (msg : Message) (qname d : Name) : Prop :=
  Relation.ReflTransGen (AliasStep msg.answers) qname d ∧ ∀ b, ¬ AliasStep msg.answers d b

/-- The chain of the SOA owner is trusted, and the SOA and the denial records verify under it. -/
def DenialVerifies (Z : Zone) (env : Env) (msg : Message) (s : VState) : Prop :=
  ∃ soa keys ttl, denialSoa msg = some soa ∧ soa.name.path = Z.apex ∧
    (buildTrustChain env soa.name s).1 = .trusted keys ttl ∧
    (verifyNegativeRrset env soa msg.nameServers keys (buildTrustChain env soa.name s).2).1 = true ∧
    (verifyDenialRecords env msg.nameServers keys (shownDenial msg.nameServers)
      (verifyNegativeRrset env soa msg.nameServers keys
        (buildTrustChain env soa.name s).2).2).1 = true

/-- The response uses NSEC3. -/
def UsesNsec3 (msg : Message) : Prop := ∃ r ∈ msg.nameServers, r.recordType = .NSEC3

/-- What the records shown say of `target`, in the terms of the two denial theorems. -/
def Shown (Z : Zone) (N : Nsec3Params) (target : Name) (qtype : RecordType) (msg : Message) :
    Prop :=
  (UsesNsec3 msg ∧ N.iterations ≤ maxNsec3Iterations ∧
    (Z.NodataShown3 N target qtype (shownDenial msg.nameServers) ∨
      Z.WildcardShown3 N target qtype (shownDenial msg.nameServers) ∨
      AbsenceShown3 N target qtype (shownDenial msg.nameServers))) ∨
  (¬ UsesNsec3 msg ∧
    (Z.NodataShown target qtype (shownDenial msg.nameServers) ∨
      Z.AbsenceShown N.platform target qtype (shownDenial msg.nameServers)))

/-- The ways a denial of a name that is present is accepted: the name's own record is shown; an
absence is shown for an empty non-terminal or for a name with hidden data; a wildcard is shown. -/
def PresenceMissed (Z : Zone) (N : Nsec3Params) (target : Name) (qtype : RecordType)
    (msg : Message) : Prop :=
  (UsesNsec3 msg ∧ N.iterations ≤ maxNsec3Iterations ∧
    (Z.NodataShown3 N target qtype (shownDenial msg.nameServers) ∨
      (Z.WildcardShown3 N target qtype (shownDenial msg.nameServers) ∧ Z.Present target.path) ∨
      (AbsenceShown3 N target qtype (shownDenial msg.nameServers) ∧ Z.Hidden target.path))) ∨
  (¬ UsesNsec3 msg ∧
    (Z.NodataShown target qtype (shownDenial msg.nameServers) ∨
      (Z.AbsenceShown N.platform target qtype (shownDenial msg.nameServers) ∧
        (Z.EmptyNonTerminal target.path ∨ Z.Hidden target.path))))

/-- The responses that are accepted although the denied name is present: the presence is missed, or
the last CNAME of the answer section does not lead to the denied name or leads out of the zone. -/
def NxdomainMisleads (Z : Zone) (N : Nsec3Params) (msg : Message) (qname : Name)
    (qtype : RecordType) : Prop :=
  (Z.apex <+: (finalTarget msg qname).path ∨ Z.apex <+: qname.path) ∧
    ∃ d, DeniedName msg qname d ∧
      ((d.path = (finalTarget msg qname).path ∧ Z.apex <+: (finalTarget msg qname).path ∧
          Z.PresenceMissed N (finalTarget msg qname) qtype msg) ∨
        (¬ (d.path = (finalTarget msg qname).path ∧ Z.apex <+: (finalTarget msg qname).path) ∧
          Z.Present d.path ∧ Z.Shown N (finalTarget msg qname) qtype msg))

variable {Z : Zone} {N : Nsec3Params} {q : Name} {t : RecordType}

/-- What is present is hidden by a cut, or is seen by the chain. -/
theorem present_iff {p : Path} : Z.Present p ↔ (∃ o ∈ Z.owners, p <+: o) ∨ Z.Hidden p := by
  constructor
  · rintro ⟨o, ho, hpre⟩
    by_cases hocc : Z.Occluded o
    · exact Or.inr ⟨o, ho, hocc, hpre⟩
    · exact Or.inl ⟨o, mem_owners.mpr ⟨ho, hocc⟩, hpre⟩
  · rintro (⟨o, ho, hpre⟩ | ⟨o, ho, -, hpre⟩)
    · exact ⟨o, (mem_owners.mp ho).1, hpre⟩
    · exact ⟨o, ho, hpre⟩

theorem Exists.present {p : Path} (h : Z.Exists p) : Z.Present p :=
  present_iff.mpr (Or.inl h.2)

theorem usesNsec3_iff {msg : Message} :
    UsesNsec3 msg ↔ (msg.nameServers.any fun r => decide (r.recordType = .NSEC3)) = true := by
  simp [UsesNsec3]

theorem not_usesNsec3_shownDenial {msg : Message} (h : ¬ UsesNsec3 msg) :
    shownDenial msg.nameServers = denialRecords .NSEC msg.nameServers := by
  rw [usesNsec3_iff] at h
  rw [shownDenial, if_neg h]

theorem usesNsec3_shownDenial {msg : Message} (h : UsesNsec3 msg) :
    shownDenial msg.nameServers = denialRecords .NSEC3 msg.nameServers := by
  rw [usesNsec3_iff] at h
  rw [shownDenial, if_pos h]

/-- The presence of a name of the zone is missed exactly when something is shown against it and it
is there. -/
theorem presenceMissed_iff {msg : Message}
    (hfree : UsesNsec3 msg → Z.CollisionFree N q)
    (hapex : Z.apex <+: q.path)
    (hnsec : ¬ UsesNsec3 msg → ∀ rec ∈ shownDenial msg.nameServers, Z.NsecRecordOf rec)
    (hnsec3 : UsesNsec3 msg → ∀ rec ∈ shownDenial msg.nameServers, Z.Nsec3RecordOf N rec) :
    Z.PresenceMissed N q t msg ↔ Z.Shown N q t msg ∧ Z.Present q.path := by
  unfold PresenceMissed Shown
  by_cases huses : UsesNsec3 msg
  · have hgenuine := hnsec3 huses
    simp only [huses, true_and, not_true_eq_false, false_and, or_false]
    constructor
    · rintro ⟨hiter, hnodata | ⟨hwild, hpresent⟩ | ⟨habsence, hhidden⟩⟩
      · have hshown := hnodata
        obtain ⟨⟨rec, -, hat⟩, -⟩ := hshown
        exact ⟨⟨hiter, Or.inl hnodata⟩, hat.1.present⟩
      · exact ⟨⟨hiter, Or.inr (Or.inl hwild)⟩, hpresent⟩
      · exact ⟨⟨hiter, Or.inr (Or.inr habsence)⟩, present_iff.mpr (Or.inr hhidden)⟩
    · rintro ⟨⟨hiter, hnodata | hwild | habsence⟩, hpresent⟩
      · exact ⟨hiter, Or.inl hnodata⟩
      · exact ⟨hiter, Or.inr (Or.inl ⟨hwild, hpresent⟩)⟩
      · -- A shown absence excludes the name itself, so only data hidden under a cut can be there.
        rcases present_iff.mp hpresent with hexist | hhidden
        · exact absurd ⟨hapex, hexist⟩ (habsence.not_exists (hfree huses) hgenuine)
        · exact ⟨hiter, Or.inr (Or.inr ⟨habsence, hhidden⟩)⟩
  · have hgenuine := hnsec huses
    simp only [huses, false_and, not_false_eq_true, true_and, false_or]
    constructor
    · rintro (hnodata | ⟨habsence, ⟨-, hbelow⟩ | hhidden⟩)
      · exact ⟨Or.inl hnodata, (exists_of_mem_owners (hnodata.mem_owners hgenuine)).present⟩
      · exact ⟨Or.inr habsence, present_iff.mpr (Or.inl hbelow)⟩
      · exact ⟨Or.inr habsence, present_iff.mpr (Or.inr hhidden)⟩
    · rintro ⟨hnodata | habsence, hpresent⟩
      · exact Or.inl hnodata
      · refine Or.inr ⟨habsence, ?_⟩
        rcases present_iff.mp hpresent with hbelow | hhidden
        · exact Or.inl ⟨habsence.not_mem_owners hgenuine, hbelow⟩
        · exact Or.inr hhidden

theorem foreignSoa_eq_false_iff {zone target qname : Name} :
    foreignSoa zone target qname = false ↔ zone.path <+: target.path ∨ zone.path <+: qname.path := by
  have hself : ∀ n : Name, zone.path = n.path → zone.path <+: n.path := by
    intro n hn
    rw [hn]
  unfold foreignSoa
  simp only [Bool.and_eq_false_iff, Bool.not_eq_false', Name.zoneOf_iff]
  constructor
  · rintro (((h | h) | h) | h)
    · exact Or.inl h
    · exact Or.inl (hself target (by simpa [bne, Name.beq_iff_path] using h))
    · exact Or.inr h
    · exact Or.inr (hself qname (by simpa [bne, Name.beq_iff_path] using h))
  · rintro (h | h)
    · exact Or.inl (Or.inl (Or.inl h))
    · exact Or.inl (Or.inr h)

/-- A chain with more iterations than the code accepts never makes it say `secure`. -/
theorem validateNsec3_ne_secure_of_iterations {env : Env} {keys : List DNSKEY}
    {authority : List Record} {s : VState}
    (hgenuine : ∀ rec ∈ denialRecords .NSEC3 authority, Z.Nsec3RecordOf N rec)
    (hiter : maxNsec3Iterations < N.iterations) :
    ¬ (validateNsec3 env keys q t authority s).1 = .secure := by
  intro h
  rcases validateNsec3_cases h with hbogus | ⟨hunknown, -⟩ | ⟨first, husable, -⟩
  · cases hbogus
  · cases hunknown
  · obtain ⟨rec, rest, hcons, hfirst, -, hle, -⟩ := husable
    have hrec : rec ∈ denialRecords .NSEC3 authority := by simp [hcons]
    obtain ⟨p, -, -, n, hn, -, -, -, hn3, -⟩ := hgenuine rec hrec
    rw [hfirst] at hn
    cases hn
    omega

/-- The denial checks on verified genuine records, in terms of what is shown. -/
theorem validateDenial_secure_iff {env : Env} {salt : List Byte} {iterations : Nat}
    {keys : List DNSKEY} {msg : Message} {s : VState}
    (hfree : UsesNsec3 msg → Z.CollisionFree ⟨env.platform, salt, iterations⟩ q)
    (hnsec : ∀ rec ∈ denialRecords .NSEC msg.nameServers, Z.NsecRecordOf rec)
    (hnsec3 : ∀ rec ∈ denialRecords .NSEC3 msg.nameServers,
      Z.Nsec3RecordOf ⟨env.platform, salt, iterations⟩ rec)
    (hverified : (verifyDenialRecords env msg.nameServers keys
      (shownDenial msg.nameServers) s).1 = true) :
    (validateDenial env keys q t msg.nameServers s).1 = .secure ↔
      Z.Shown ⟨env.platform, salt, iterations⟩ q t msg := by
  unfold validateDenial Shown
  by_cases huses : UsesNsec3 msg
  · rw [if_pos (usesNsec3_iff.mp huses)]
    rw [usesNsec3_shownDenial huses] at hverified ⊢
    simp only [huses, true_and, not_true_eq_false, false_and, or_false]
    by_cases hiter : iterations ≤ maxNsec3Iterations
    · simp only [hiter, true_and]
      exact validateNsec3_secure_iff rfl hiter (hfree huses) hnsec3 hverified
    · simp only [hiter, false_and, iff_false]
      exact validateNsec3_ne_secure_of_iterations hnsec3 (not_le.mp hiter)
  · rw [if_neg (fun h => huses (usesNsec3_iff.mpr h))]
    rw [not_usesNsec3_shownDenial huses] at hverified ⊢
    simp only [huses, false_and, not_false_eq_true, true_and, false_or]
    rw [← validateNsec_secure_iff hnsec hverified]
    split
    · exact Iff.rfl
    · -- Without NSEC records both sides fail.
      rename_i hnone
      have hempty : denialRecords .NSEC msg.nameServers = [] := by
        rw [denialRecords, List.filter_eq_nil_iff.mpr, List.take_nil]
        intro rec hrec hnsecType
        exact hnone (List.any_eq_true.mpr ⟨rec, hrec, hnsecType⟩)
      simp [validateNsec, hempty]

/-- When `validate_message` accepts an NXDOMAIN response of the zone. -/
theorem nxdomain_secure_iff {env : Env} {salt : List Byte} {iterations : Nat} {msg : Message}
    {qname : Name} {qtype : RecordType} {s : VState} (hcode : msg.responseCode = .nxDomain)
    (hfree : UsesNsec3 msg →
      Z.CollisionFree ⟨env.platform, salt, iterations⟩ (finalTarget msg qname))
    (hnsec : ∀ rec ∈ denialRecords .NSEC msg.nameServers, Z.NsecRecordOf rec)
    (hnsec3 : ∀ rec ∈ denialRecords .NSEC3 msg.nameServers,
      Z.Nsec3RecordOf ⟨env.platform, salt, iterations⟩ rec)
    (hverifies : Z.DenialVerifies env msg { s with budget := .default }) :
    (validateMessage env msg qname qtype s).1 = .secure ↔
      (Z.apex <+: (finalTarget msg qname).path ∨ Z.apex <+: qname.path) ∧
        Z.Shown ⟨env.platform, salt, iterations⟩ (finalTarget msg qname) qtype msg := by
  obtain ⟨soa, keys, ttl, hsoa, hapex, hchain, hsoaVerified, hverified⟩ := hverifies
  simp only [validateMessage, validateMessageWithBudget, hcode, validateNegative, hsoa]
  cases hforeign : foreignSoa soa.name (finalTarget msg qname) qname with
  | true =>
      have hnot : ¬ (Z.apex <+: (finalTarget msg qname).path ∨ Z.apex <+: qname.path) := by
        rw [← hapex, ← foreignSoa_eq_false_iff, hforeign]
        simp
      simp [hnot]
  | false =>
      have hwithin := foreignSoa_eq_false_iff.mp hforeign
      rw [hapex] at hwithin
      simp only [Bool.false_eq_true, if_false, hwithin, true_and]
      rw [← validateDenial_secure_iff hfree hnsec hnsec3 hverified]
      -- The chain of the SOA is trusted and the SOA verifies, so the denial decides.
      split
      · rename_i heq
        rw [heq] at hchain
        cases hchain
      · rename_i heq
        rw [heq] at hchain
        cases hchain
      · rename_i keys' ttl' s₁ heq
        rw [heq] at hchain hsoaVerified
        cases hchain
        split
        · rename_i heq₂
          rw [heq₂] at hsoaVerified
          cases hsoaVerified
        · rename_i s₂ heq₂
          simp only [heq, heq₂]

/-- **Soundness of a secure NXDOMAIN, exactly.**  For every zone signed with NSEC or with NSEC3
without Opt-Out, every NXDOMAIN response with genuine records of the zone that verify, every question
and state: a `secure` verdict means that the zone has nothing at the denied name or below it, if and
only if the response is none of the misleading ones. -/
theorem secure_nxdomain_sound_iff (Z : Zone) (env : Env) (salt : List Byte) (iterations : Nat)
    (msg : Message) (qname : Name) (qtype : RecordType) (s : VState)
    (hcode : msg.responseCode = .nxDomain)
    (hfree : UsesNsec3 msg →
      Z.CollisionFree ⟨env.platform, salt, iterations⟩ (finalTarget msg qname))
    (hnsec : ∀ rec ∈ denialRecords .NSEC msg.nameServers, Z.NsecRecordOf rec)
    (hnsec3 : ∀ rec ∈ denialRecords .NSEC3 msg.nameServers,
      Z.Nsec3RecordOf ⟨env.platform, salt, iterations⟩ rec)
    (hverifies : Z.DenialVerifies env msg { s with budget := .default }) :
    ((validateMessage env msg qname qtype s).1 = .secure →
        ∀ d, DeniedName msg qname d → ¬ Z.Present d.path) ↔
      ¬ Z.NxdomainMisleads ⟨env.platform, salt, iterations⟩ msg qname qtype := by
  rw [nxdomain_secure_iff hcode hfree hnsec hnsec3 hverifies]
  have hmissed : Z.apex <+: (finalTarget msg qname).path →
      (Z.PresenceMissed ⟨env.platform, salt, iterations⟩ (finalTarget msg qname) qtype msg ↔
        Z.Shown ⟨env.platform, salt, iterations⟩ (finalTarget msg qname) qtype msg ∧
          Z.Present (finalTarget msg qname).path) := by
    refine fun hapex => presenceMissed_iff hfree hapex (fun huses => ?_) fun huses => ?_
    · rwa [not_usesNsec3_shownDenial huses]
    · rwa [usesNsec3_shownDenial huses]
  constructor
  · rintro hsound ⟨hwithin, d, hdenied, ⟨hpath, hapex, hunseen⟩ | ⟨-, hpresent, hshown⟩⟩
    · obtain ⟨hshown, hpresent⟩ := (hmissed hapex).mp hunseen
      rw [← hpath] at hpresent
      exact hsound ⟨hwithin, hshown⟩ d hdenied hpresent
    · exact hsound ⟨hwithin, hshown⟩ d hdenied hpresent
  · rintro hclean ⟨hwithin, hshown⟩ d hdenied hpresent
    refine hclean ⟨hwithin, d, hdenied, ?_⟩
    by_cases hsame : d.path = (finalTarget msg qname).path ∧ Z.apex <+: (finalTarget msg qname).path
    · obtain ⟨hpath, hapex⟩ := hsame
      rw [hpath] at hpresent
      exact Or.inl ⟨hpath, hapex, (hmissed hapex).mpr ⟨hshown, hpresent⟩⟩
    · exact Or.inr ⟨hsame, hpresent, hshown⟩

/-! ### A NODATA proof with the code NXDOMAIN -/

/-- The root zone with an address at `a.`. -/
def rootZone : Zone where
  apex := []
  names := [[], [[97]]]
  types p := if p = [] then [.NS, .SOA, .DNSKEY] else if p = [[97]] then [.A] else []
  below_apex := by decide
  mem_names p := by
    by_cases hroot : p = []
    · simp [hroot]
    · by_cases ha : p = [[97]]
      · simp [ha]
      · simp [hroot, ha]
  apex_soa := by decide

theorem rootDenial_genuine : ∀ rec ∈ denialRecords .NSEC rootDenial, rootZone.NsecRecordOf rec := by
  have hnsec : denialRecords .NSEC rootDenial =
      [rootNsec .root (topName 97) [.NS, .SOA, .RRSIG, .NSEC, .DNSKEY],
        rootNsec (topName 97) .root [.A, .RRSIG, .NSEC]] := rfl
  have howners : rootZone.owners = [[], [[97]]] := by decide
  rw [hnsec]
  intro rec hrec
  rcases List.mem_pair.mp hrec with rfl | rfl
  · refine ⟨_, rfl, ⟨by decide, by decide, Or.inl ⟨by decide, ?_⟩⟩, ?_⟩
    · simp only [howners, Set.mem_ofPred_eq]
      decide
    · have htypes : rootZone.types [] = [.NS, .SOA, .DNSKEY] := by decide
      intro t
      simp only [rootNsec, rootRecord, Name.path_root, htypes, List.mem_cons, List.not_mem_nil,
        or_false]
      tauto
  · refine ⟨_, rfl, ⟨by decide, by decide, Or.inr ⟨by decide, ?_⟩⟩, ?_⟩
    · simp only [howners, Set.mem_ofPred_eq]
      decide
    · have htypes : rootZone.types (topName 97).path = [.A] := by decide
      intro t
      simp only [rootNsec, rootRecord, htypes, List.mem_cons, List.not_mem_nil, or_false]
      tauto

/-- A denial of the root zone with the code NXDOMAIN. -/
def rootNxdomain : Message :=
  { Message.new with
    responseCode := .nxDomain
    nameServers := rootDenial }

theorem rootNxdomain_verifies :
    rootZone.DenialVerifies (rootEnv fun _ _ => none) rootNxdomain { VState.init with budget := .default } :=
  ⟨rootRecord .root (.soa []), [rootKey], 300, rfl, by decide, by decide +kernel,
    by decide +kernel, by decide +kernel⟩

theorem rootNxdomain_not_usesNsec3 : ¬ UsesNsec3 rootNxdomain := by
  rw [usesNsec3_iff]
  decide

theorem rootNxdomain_no_nsec3 (P : Record → Prop) :
    ∀ rec ∈ denialRecords .NSEC3 rootNxdomain.nameServers, P rec := by
  have hnone : denialRecords .NSEC3 rootNxdomain.nameServers = [] := rfl
  simp [hnone]

/-- An NXDOMAIN response for `a.` is `secure` with the proof that `a.` has no AAAA record. -/
theorem nodata_proof_accepted_for_nxdomain :
    ¬ ∀ (Z : Zone) (env : Env) (salt : List Byte) (iterations : Nat) (msg : Message)
        (qname : Name) (qtype : RecordType) (s : VState), msg.responseCode = .nxDomain →
        (UsesNsec3 msg →
          Z.CollisionFree ⟨env.platform, salt, iterations⟩ (finalTarget msg qname)) →
        (∀ rec ∈ denialRecords .NSEC msg.nameServers, Z.NsecRecordOf rec) →
        (∀ rec ∈ denialRecords .NSEC3 msg.nameServers,
          Z.Nsec3RecordOf ⟨env.platform, salt, iterations⟩ rec) →
        Z.DenialVerifies env msg { s with budget := .default } →
        (validateMessage env msg qname qtype s).1 = .secure →
        ∀ d, DeniedName msg qname d → ¬ Z.Present d.path := by
  intro hclaim
  refine hclaim rootZone (rootEnv fun _ _ => none) [] 0 rootNxdomain (topName 97) .AAAA .init rfl
    (fun huses => absurd huses rootNxdomain_not_usesNsec3) rootDenial_genuine
    (rootNxdomain_no_nsec3 _) rootNxdomain_verifies (by decide +kernel) (topName 97)
    ⟨Relation.ReflTransGen.refl, ?_⟩
    ⟨[[97]], by decide, by decide⟩
  rintro b ⟨r, hr, -⟩
  cases hr

/-- The same response for `b.`, which is missing: the verdict is sound. -/
theorem secure_nxdomain_sound_iff_root :
    ((validateMessage (rootEnv fun _ _ => none) rootNxdomain (topName 98) .AAAA .init).1 = .secure →
        ∀ d, DeniedName rootNxdomain (topName 98) d → ¬ rootZone.Present d.path) ↔
      ¬ rootZone.NxdomainMisleads ⟨rootPlatform, [], 0⟩ rootNxdomain (topName 98) .AAAA :=
  secure_nxdomain_sound_iff rootZone (rootEnv fun _ _ => none) [] 0 rootNxdomain (topName 98) .AAAA
    .init rfl (fun huses => absurd huses rootNxdomain_not_usesNsec3) rootDenial_genuine
    (rootNxdomain_no_nsec3 _) rootNxdomain_verifies

end Zone
end UnifiedDns
