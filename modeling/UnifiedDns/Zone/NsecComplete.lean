import UnifiedDns.Zone.NsecDenial

/-!
# When an NSEC denial is complete

A signed zone without an answer sends certain NSEC records (RFC 4035, section 3.1.3).  This file asks
which of these proofs `validate_nsec` accepts.

* `Denied` — the zone has no answer for a name that is not at or below a delegation, its own NSEC and
  RRSIG records counted among the answers.
* `NsecSent`, `NsecProof` — the owners of the records a server sends, and a list of exactly these.
* `NearestSent` — the nearest proper ancestor of the name, at most sixteen labels up, that owns one of
  them.  The code takes it for the closest encloser.
* `validateNsec_complete_iff` — a conforming proof is accepted exactly when it is `NsecAccepted`.
-/

namespace UnifiedDns
namespace Zone

open Dnssec

/-- The signed zone answers: it owns the type, a CNAME, or the records of the chain itself. -/
def SignedAnswers (Z : Zone) (p : Path) (t : RecordType) : Prop :=
  Z.Answers p t ∨ (p ∈ Z.owners ∧ (t = .NSEC ∨ t = .RRSIG))

/-- The zone has no answer for the name, and the name is its own to deny. -/
structure DeniedBy (Z : Zone) (answers : Path → Prop) (q : Path) : Prop where
  below_apex : Z.apex <+: q
  not_delegated : ∀ d ∈ Z.names, Z.Delegation d → ¬ d <+: q
  not_occluded : ¬ Z.Occluded q
  no_data : Z.Exists q → ¬ answers q
  no_wildcard : ¬ Z.Exists q → ∀ c, Z.ClosestEncloser q c → ¬ answers (c ++ [star])

/-- A zone with an NSEC chain has no answer for the name and type. -/
abbrev Denied (Z : Zone) (q : Path) (t : RecordType) : Prop :=
  Z.DeniedBy (fun p => Z.SignedAnswers p t) q

/-- The record of `o` covers `p`. -/
def NsecCovers (Z : Zone) (o p : Path) : Prop :=
  ∃ n, CyclicChain.CyclicNext {x | x ∈ Z.owners} o n ∧ CyclicChain.InGap o n p

/-- `o` owns one of the records a server sends with a denial of `q`: the record of the name itself; or
the one that covers the name and, unless the name is an empty non-terminal, the record of the wildcard
at the closest encloser or the one that covers this wildcard. -/
inductive NsecSent (Z : Zone) (q : Path) : Path → Prop
  | own (hq : q ∈ Z.owners) : NsecSent Z q q
  | cover {o : Path} (hq : q ∉ Z.owners) (hcovers : Z.NsecCovers o q) : NsecSent Z q o
  | wildcard {c : Path} (hq : ¬ Z.Exists q) (hc : Z.ClosestEncloser q c)
      (hstar : c ++ [star] ∈ Z.owners) : NsecSent Z q (c ++ [star])
  | wildcardCover {o c : Path} (hq : ¬ Z.Exists q) (hc : Z.ClosestEncloser q c)
      (hstar : c ++ [star] ∉ Z.owners) (hcovers : Z.NsecCovers o (c ++ [star])) : NsecSent Z q o

/-- The list holds exactly the records a server sends with a denial of `q`. -/
structure NsecProof (Z : Zone) (q : Path) (records : List Record) : Prop where
  genuine : ∀ rec ∈ records, Z.NsecRecordOf rec
  exactly : ∀ o, (∃ rec ∈ records, rec.name.path = o) ↔ Z.NsecSent q o

/-- The nearest proper ancestor of `q` that owns a record sent, at most sixteen labels up. -/
structure NearestSent (Z : Zone) (q e : Path) : Prop where
  sent : Z.NsecSent q e
  above : e <+: q
  proper : e ≠ q
  within : q.length ≤ e.length + maxClosestEncloserSteps
  nearest : ∀ e', Z.NsecSent q e' → e' <+: q → e' ≠ q → e' <+: e

/-- The records sent deny `wildcard`: one covers it, or it owns one without the type. -/
def WildcardDenied (Z : Zone) (q wildcard : Path) (t : RecordType) : Prop :=
  (∃ o, Z.NsecSent q o ∧ Z.NsecCovers o wildcard) ∨
    (Z.NsecSent q wildcard ∧ Z.BitmapLacks wildcard t)

/-- The conforming proofs that are accepted: the record of the name itself, unless a DS is asked for
where an SOA is; for a name without a record, those that deny what the code reads for the wildcard below
the nearest ancestor that owns one of their records. -/
def NsecAccepted (Z : Zone) (P : Platform) (q : Name) (t : RecordType) : Prop :=
  (q.path ∈ Z.owners ∧ ¬ (t = .DS ∧ RecordType.SOA ∈ Z.types q.path)) ∨
    (q.path ∉ Z.owners ∧ ∃ e, Z.NearestSent q.path e ∧
      Z.WildcardDenied q.path (wildcardName P (q.trimTo e.length)).path t)

variable {Z : Zone} {P : Platform} {q : Name} {t : RecordType} {records : List Record}

/-- What the code can be shown is what the zone lacks. -/
theorem DeniedBy.bitmapLacks {p : Path} (h : Z.Denied p t) (howner : p ∈ Z.owners) :
    Z.BitmapLacks p t := by
  have hnone := h.no_data (exists_of_mem_owners howner)
  simp only [SignedAnswers, howner, true_and, not_or] at hnone
  exact ⟨hnone.1, hnone.2.1, hnone.2.2⟩

/-- A denied name has no answer in the sense used for soundness. -/
theorem DeniedBy.hasNoAnswer {p : Path} {answers : Path → Prop} (h : Z.DeniedBy answers p)
    (hanswers : ∀ p, Z.Answers p t → answers p) : Z.HasNoAnswer p t where
  not_occluded := h.not_occluded
  not_delegation hdel :=
    absurd List.prefix_rfl (h.not_delegated p (mem_names_of_mem_types hdel.1) hdel)
  no_data hexist hdata := h.no_data hexist (hanswers p hdata)
  no_wildcard := by
    rintro ⟨hnone, c, hc, hdata⟩
    exact h.no_wildcard hnone c hc (hanswers _ hdata)

/-- One record covers a name. -/
theorem NsecCovers.unique {o o' p : Path} (h : Z.NsecCovers o p) (h' : Z.NsecCovers o' p) :
    o = o' := by
  obtain ⟨n, hnext, hgap⟩ := h
  obtain ⟨n', hnext', hgap'⟩ := h'
  exact CyclicChain.InGap.unique hnext hnext' hgap hgap'

/-- A record of the list covers exactly what the zone's chain says. -/
theorem NsecProof.someNsecCovers_iff (hproof : Z.NsecProof q.path records) (target : Name) :
    someNsecCovers records target = true ↔
      ∃ o, Z.NsecSent q.path o ∧ Z.NsecCovers o target.path := by
  rw [Dnssec.someNsecCovers_iff]
  constructor
  · rintro ⟨rec, hrec, nsec, hnsec, hgap⟩
    obtain ⟨nsec', hnsec', hnext, -⟩ := hproof.genuine rec hrec
    rw [hnsec] at hnsec'
    cases hnsec'
    exact ⟨rec.name.path, (hproof.exactly _).mp ⟨rec, hrec, rfl⟩, _, hnext, hgap⟩
  · rintro ⟨o, hsent, n, hnext, hgap⟩
    obtain ⟨rec, hrec, hname⟩ := (hproof.exactly o).mpr hsent
    obtain ⟨nsec, hnsec, hnext', -⟩ := hproof.genuine rec hrec
    rw [hname] at hnext'
    refine ⟨rec, hrec, nsec, hnsec, ?_⟩
    rwa [hname, hnext'.unique hnext]

/-- A name that owns no record is covered by one that is sent. -/
theorem NsecProof.covers (hproof : Z.NsecProof q.path records) (hq : q.path ∉ Z.owners)
    (hne : Z.owners ≠ []) : someNsecCovers records q = true := by
  obtain ⟨o, n, hnext, hgap⟩ := CyclicChain.exists_inGap_of_notMem hne hq
  exact (hproof.someNsecCovers_iff q).mpr ⟨o, .cover hq ⟨n, hnext, hgap⟩, n, hnext, hgap⟩

/-- The code's closest encloser is the nearest ancestor that owns a record sent. -/
theorem NsecProof.findNsecClosestEncloser_iff (hproof : Z.NsecProof q.path records)
    (hq : q.path ≠ []) (e : Path) :
    (∃ closest, findNsecClosestEncloser q records = some closest ∧ closest.path = e) ↔
      Z.NearestSent q.path e := by
  have hroot : q.isRoot = false := by
    rw [Bool.eq_false_iff]
    exact fun h => hq (Name.isRoot_iff_path.mp h)
  have hlen : q.path.dropLast.length + 1 = q.path.length := by
    have hpos := List.length_pos_iff.mpr hq
    rw [List.length_dropLast]
    omega
  unfold findNsecClosestEncloser
  simp only [hroot, Bool.false_eq_true, if_false]
  constructor
  · rintro ⟨closest, hfind, rfl⟩
    obtain ⟨hpre, hrec, hsteps, hnearest⟩ := findNsecClosestEncloserFrom_eq_some hfind
    rw [Name.path_baseName] at hpre hsteps hnearest
    refine ⟨(hproof.exactly _).mp hrec, hpre.trans (List.dropLast_prefix _), ?_, by omega, ?_⟩
    · intro heq
      have hle := hpre.length_le
      rw [heq] at hle
      omega
    · intro e' hsent hpre' hne
      exact hnearest e' ((Path.prefix_eq_or_dropLast hpre').resolve_left hne)
        ((hproof.exactly e').mpr hsent)
  · intro h
    have hup := (Path.prefix_eq_or_dropLast h.above).resolve_left h.proper
    have hwithin := h.within
    have hrec := (hproof.exactly e).mpr h.sent
    have hbase : e <+: q.baseName.path := by rwa [Name.path_baseName]
    have hsteps : q.baseName.path.length < e.length + maxClosestEncloserSteps := by
      rw [Name.path_baseName]
      omega
    obtain ⟨found, hfind⟩ := findNsecClosestEncloserFrom_isSome hbase hsteps hrec
    obtain ⟨hpre, hrec', -, hnearest⟩ := findNsecClosestEncloserFrom_eq_some hfind
    rw [Name.path_baseName] at hpre hnearest
    refine ⟨found, hfind, ?_⟩
    -- The one found and the nearest one stand above each other.
    have hle : e <+: found.path := hnearest e hup hrec
    have hge : found.path <+: e := by
      refine h.nearest found.path ((hproof.exactly _).mp hrec')
        (hpre.trans (List.dropLast_prefix _)) ?_
      intro heq
      have hlong := hpre.length_le
      rw [heq] at hlong
      omega
    exact (hle.eq_of_length_le hge.length_le).symm

/-- On a conforming proof, an absence is shown exactly when the wildcard read for the nearest ancestor is
denied. -/
theorem NsecProof.absenceShown_iff (hproof : Z.NsecProof q.path records)
    (hq : q.path ∉ Z.owners) (hroot : q.path ≠ []) :
    Z.AbsenceShown P q t records ↔ ∃ e, Z.NearestSent q.path e ∧
      Z.WildcardDenied q.path (wildcardName P (q.trimTo e.length)).path t := by
  have hwildcard : ∀ closest : Name, findNsecClosestEncloser q records = some closest →
      ((someNsecCovers records (wildcardName P closest) = true ∨
        ((∃ rec ∈ records, rec.name.path = (wildcardName P closest).path) ∧
          Z.BitmapLacks (wildcardName P closest).path t)) ↔
        Z.WildcardDenied q.path (wildcardName P (q.trimTo closest.path.length)).path t) := by
    intro closest hfind
    rw [hproof.someNsecCovers_iff, hproof.exactly, Name.length_path,
      ← Name.eq_trimTo_of_suffix (findNsecClosestEncloser_suffix hfind)]
    exact Iff.rfl
  constructor
  · rintro ⟨-, closest, hfind, hwild⟩
    exact ⟨closest.path, (hproof.findNsecClosestEncloser_iff hroot closest.path).mp ⟨closest, hfind, rfl⟩,
      (hwildcard closest hfind).mp hwild⟩
  · rintro ⟨e, hnearest, hwild⟩
    obtain ⟨closest, hfind, rfl⟩ := (hproof.findNsecClosestEncloser_iff hroot e).mpr hnearest
    exact ⟨hproof.covers hq (List.ne_nil_of_mem Z.apex_mem_owners), closest, hfind,
      (hwildcard closest hfind).mpr hwild⟩

/-- **Which conforming NSEC proofs are accepted.**  For every zone, every name and type that the zone
denies, and exactly the records a server sends for them, with all signatures verified: the verdict is
`secure` if and only if the proof is one of the accepted ones. -/
theorem validateNsec_complete_iff {env : Env} {keys : List DNSKEY} {authority : List Record}
    {s : VState} (hdenied : Z.Denied q.path t)
    (hproof : Z.NsecProof q.path (denialRecords .NSEC authority))
    (hverified :
      (verifyDenialRecords env authority keys (denialRecords .NSEC authority) s).1 = true) :
    (validateNsec env keys q t authority s).1 = .secure ↔ Z.NsecAccepted env.platform q t := by
  rw [validateNsec_secure_iff hproof.genuine hverified]
  by_cases hq : q.path ∈ Z.owners
  · have habsence : ¬ Z.AbsenceShown env.platform q t (denialRecords .NSEC authority) :=
      fun h => h.not_mem_owners hproof.genuine hq
    have hshown : ∃ rec ∈ denialRecords .NSEC authority, rec.name.path = q.path :=
      (hproof.exactly _).mpr (.own hq)
    simp only [habsence, or_false, NodataShown, hshown, hdenied.bitmapLacks hq, true_and,
      NsecAccepted, hq, not_true_eq_false, false_and]
  · have hnodata : ¬ Z.NodataShown q t (denialRecords .NSEC authority) :=
      fun h => hq (h.mem_owners hproof.genuine)
    have hroot : q.path ≠ [] := by
      intro hnil
      have hapex := hdenied.below_apex
      rw [hnil] at hapex hq
      exact hq (List.prefix_nil.mp hapex ▸ Z.apex_mem_owners)
    simp only [hnodata, false_or, hproof.absenceShown_iff hq hroot, NsecAccepted, hq, false_and,
      not_false_eq_true, true_and]

/-! ### A zone with nothing below its apex -/

/-- The zone `a.` with nothing below its apex. -/
def singleZone : Zone where
  apex := [[97]]
  names := [[[97]]]
  types p := if p = [[97]] then [.NS, .SOA] else []
  below_apex := by decide
  mem_names p := by by_cases ha : p = [[97]] <;> simp [ha]
  apex_soa := by decide

theorem singleZone_exists {p : Path} (h : singleZone.Exists p) : p = [[97]] := by
  have hall : ∀ p ∈ singleZone.existing, p = [[97]] := by decide
  exact hall p (mem_existing.mpr h)

theorem singleZone_missing : ¬ singleZone.Exists nameBA.path := by
  decide

/-- The record of the apex, alone in the chain. -/
def singleNsec : Record := ⟨nameA, .IN, 300, .nsec ⟨nameA, [.NS, .SOA, .RRSIG, .NSEC]⟩⟩

def apexAuthority : List Record := [singleNsec, signatureAt nameA .NSEC]

theorem apexAuthority_shown : denialRecords .NSEC apexAuthority = [singleNsec] := by
  simp [denialRecords, apexAuthority, maxNegativeRecords, singleNsec, signatureAt,
    Record.recordType, RData.recordType, RecordType.NSEC, RecordType.RRSIG]

theorem singleZone_covers {p : Path} (h : CyclicChain.InGap [[97]] [[97]] p) :
    singleZone.NsecCovers [[97]] p :=
  ⟨[[97]], by decide, h⟩

theorem singleZone_nsecDenied : singleZone.Denied nameBA.path .A where
  below_apex := by decide
  not_delegated := by decide
  not_occluded := by decide
  no_data hexist := absurd hexist singleZone_missing
  no_wildcard := by
    intro _ c hc
    rw [singleZone_exists hc.exist]
    rintro (hanswers | ⟨-, htype | htype⟩)
    · exact absurd hanswers (by decide)
    · cases htype
    · cases htype

theorem apexAuthority_proof :
    singleZone.NsecProof nameBA.path (denialRecords .NSEC apexAuthority) := by
  have howner : ∀ p ∈ singleZone.owners, p = [[97]] := by decide
  rw [apexAuthority_shown]
  constructor
  · intro rec hrec
    rw [List.mem_singleton.mp hrec]
    have htypes : singleZone.types nameA.path = [.NS, .SOA] := by decide
    refine ⟨_, rfl, by decide, fun t => ?_⟩
    simp [singleNsec, htypes, or_comm, or_left_comm]
  · intro o
    have hname : singleNsec.name.path = [[97]] := by decide
    simp only [List.mem_singleton, exists_eq_left, hname]
    constructor
    · rintro rfl
      exact .cover (by decide) (singleZone_covers (by decide))
    · rintro (hq | ⟨-, n, hnext, -⟩ | ⟨-, -, hstar⟩ | ⟨-, -, -, n, hnext, -⟩)
      · exact absurd hq (by decide)
      · exact (howner _ hnext.left_mem).symm
      · exact (howner _ hstar).symm
      · exact (howner _ hnext.left_mem).symm

/-- The record of the apex denies `b.a.`, and the denial is accepted. -/
theorem validateNsec_complete_iff_single :
    (validateNsec (Env.plain fun _ _ => none) [plainKey] nameBA .A apexAuthority
        VState.init).1 = .secure ∧ singleZone.NsecAccepted .plain nameBA .A := by
  have hsecure : (validateNsec (Env.plain fun _ _ => none) [plainKey] nameBA .A apexAuthority
      VState.init).1 = .secure := by decide
  have hiff : (validateNsec (Env.plain fun _ _ => none) [plainKey] nameBA .A apexAuthority
      VState.init).1 = .secure ↔ singleZone.NsecAccepted .plain nameBA .A :=
    validateNsec_complete_iff singleZone_nsecDenied apexAuthority_proof (by decide)
  exact ⟨hsecure, hiff.mp hsecure⟩

/-! ### A wildcard without the type -/

/-- The zone `a.` with an IPv6 address at `*.a.`. -/
def starZone : Zone where
  apex := [[97]]
  names := [[[97]], [[97], star]]
  types p := if p = [[97]] then [.NS, .SOA] else if p = [[97], star] then [.AAAA] else []
  below_apex := by decide
  mem_names p := by
    by_cases ha : p = [[97]]
    · simp [ha]
    · by_cases hstar : p = [[97], star] <;> simp [ha, hstar]
  apex_soa := by decide

theorem nameStarA_valid : ValidLabels [[42], [97]] := by decide

/-- The name `*.a.`. -/
def nameStarA : Name := ⟨[[42], [97]], nameStarA_valid⟩

/-- The record of the wildcard, last in the chain: it also covers `b.a.`. -/
def starNsec : Record := ⟨nameStarA, .IN, 300, .nsec ⟨nameA, [.AAAA, .RRSIG, .NSEC]⟩⟩

def starAuthority : List Record := [starNsec, signatureAt nameStarA .NSEC]

theorem starAuthority_shown : denialRecords .NSEC starAuthority = [starNsec] := by
  simp [denialRecords, starAuthority, maxNegativeRecords, starNsec, signatureAt,
    Record.recordType, RData.recordType, RecordType.NSEC, RecordType.RRSIG]

theorem starZone_not_exists : ¬ starZone.Exists nameBA.path := by
  decide

theorem starZone_closest {c : Path} (h : starZone.ClosestEncloser nameBA.path c) :
    c = [[97]] := by
  have hinits : ∀ c ∈ nameBA.path.inits, c ≠ nameBA.path → starZone.apex <+: c → c = [[97]] := by
    decide
  exact hinits c ((List.mem_inits c _).mpr h.isPrefix) h.ne h.exist.1

theorem starNsec_covers : starZone.NsecCovers [[97], star] nameBA.path :=
  ⟨[[97]], by decide, by decide⟩

theorem starZone_denied : starZone.Denied nameBA.path .A where
  below_apex := by decide
  not_delegated := by decide
  not_occluded := by decide
  no_data hexist := absurd hexist starZone_not_exists
  no_wildcard := by
    intro _ c hc
    rw [starZone_closest hc]
    rintro (hanswers | ⟨-, htype | htype⟩)
    · exact absurd hanswers (by decide)
    · cases htype
    · cases htype

theorem starAuthority_proof :
    starZone.NsecProof nameBA.path (denialRecords .NSEC starAuthority) := by
  rw [starAuthority_shown]
  constructor
  · intro rec hrec
    rw [List.mem_singleton.mp hrec]
    refine ⟨_, rfl, by decide, fun t => ?_⟩
    simp [starNsec, starZone, Name.path, nameStarA, lowerLabel, lowerByte, star, Name.starLabel,
      or_comm]
  · intro o
    have hname : starNsec.name.path = [[97], star] := by decide
    simp only [List.mem_singleton, exists_eq_left, hname]
    constructor
    · rintro rfl
      exact .cover (by decide) starNsec_covers
    · rintro (hq | ⟨-, hcovers⟩ | ⟨-, hc, -⟩ | ⟨-, hc, hstar, -⟩)
      · exact absurd hq (by decide)
      · exact starNsec_covers.unique hcovers
      · rw [starZone_closest hc]
        rfl
      · rw [starZone_closest hc] at hstar
        exact absurd (by decide) hstar

/-- The zone has no address for `b.a.` and proves it with the one record it should send, and the
proof is refused. -/
theorem wildcard_nodata_refused :
    ¬ ∀ (Z : Zone) (env : Env) (keys : List DNSKEY) (q : Name) (t : RecordType)
        (authority : List Record) (s : VState), Z.Denied q.path t →
        Z.NsecProof q.path (denialRecords .NSEC authority) →
        (denialRecords .NSEC authority).length ≤ 8 →
        (verifyDenialRecords env authority keys (denialRecords .NSEC authority) s).1 = true →
        (validateNsec env keys q t authority s).1 = .secure := by
  intro hclaim
  have hsecure := hclaim starZone (Env.plain fun _ _ => none) [plainKey] nameBA .A starAuthority
    VState.init starZone_denied starAuthority_proof (by decide) (by decide)
  have hbogus : (validateNsec (Env.plain fun _ _ => none) [plainKey] nameBA .A starAuthority
      VState.init).1 = .bogus := by decide
  rw [hbogus] at hsecure
  cases hsecure

end Zone
end UnifiedDns
