import UnifiedDns.Zone.Zone

/-!
# When an NSEC denial is sound

`validate_nsec` against the zone: which selections of genuine NSEC records make it judge `secure`, and
exactly when that verdict is true of the zone.

* `nsecVerdict_secure_iff_of_genuine` — with genuine records there are two ways to `secure`: the
  record of the name itself (`NodataShown`), or a gap around the name together with what the code takes
  for the wildcard at the nearest ancestor shown (`AbsenceShown`).
* `validateNsec_sound_iff` — the verdict is sound unless the record shown is the parent side of a
  delegation, or the gap hides a name under a cut or one that a wildcard nearer than the ancestor
  shown answers for.
-/

namespace UnifiedDns
namespace Zone

open Dnssec

/-- The record of the name is shown, and its bitmap denies the type. -/
def NodataShown (Z : Zone) (q : Name) (t : RecordType) (records : List Record) : Prop :=
  (∃ rec ∈ records, rec.name.path = q.path) ∧ Z.BitmapLacks q.path t ∧
    ¬ (t = .DS ∧ RecordType.SOA ∈ Z.types q.path)

/-- A gap around the name is shown, and what the code takes for the wildcard at the nearest ancestor shown
is either in a gap too or shown without the type. -/
def AbsenceShown (Z : Zone) (P : Platform) (q : Name) (t : RecordType) (records : List Record) : Prop :=
  someNsecCovers records q = true ∧
    ∃ closest, findNsecClosestEncloser q records = some closest ∧
      (someNsecCovers records (wildcardName P closest) = true ∨
        ((∃ rec ∈ records, rec.name.path = (wildcardName P closest).path) ∧
          Z.BitmapLacks (wildcardName P closest).path t))

/-- The selections that mislead the code: the parent's NSEC record at a delegation denies a type of
the child, or an absence is shown for a name below a cut or for a name that the wildcard at its true
closest encloser answers. -/
def NsecMisleads (Z : Zone) (P : Platform) (q : Name) (t : RecordType) (records : List Record) : Prop :=
  (Z.Delegation q.path ∧ t ≠ .DS ∧ Z.NodataShown q t records) ∨
    (Z.AbsenceShown P q t records ∧ (Z.Occluded q.path ∨ Z.WildcardAnswers q.path t))

variable {Z : Zone} {P : Platform} {q : Name} {t : RecordType} {records : List Record}

theorem NodataShown.mem_owners (hgenuine : ∀ rec ∈ records, Z.NsecRecordOf rec)
    (h : Z.NodataShown q t records) : q.path ∈ Z.owners := by
  obtain ⟨⟨rec, hrec, hname⟩, -⟩ := h
  rw [← hname]
  exact (hgenuine rec hrec).mem_owners

theorem AbsenceShown.not_mem_owners (hgenuine : ∀ rec ∈ records, Z.NsecRecordOf rec)
    (h : Z.AbsenceShown P q t records) : q.path ∉ Z.owners := by
  intro howner
  have hcovers := not_someNsecCovers_of_mem_owners hgenuine howner
  rw [h.1] at hcovers
  cases hcovers

theorem NsecRecordOf.soa_mem_iff {rec : Record} {nsec : NSEC} (h : Z.NsecRecordOf rec)
    (hnsec : rec.nsec? = some nsec) :
    RecordType.SOA ∈ nsec.typeBitMaps ↔ RecordType.SOA ∈ Z.types rec.name.path := by
  obtain ⟨nsec', hnsec', -, hbitmap⟩ := h
  rw [hnsec] at hnsec'
  cases hnsec'
  rw [hbitmap]
  simp [RecordType.SOA, RecordType.NSEC, RecordType.RRSIG]

/-- The NODATA check of the code fires `secure` exactly when the name's own record denies. -/
theorem checkNsecNodata_secure_iff (hgenuine : ∀ rec ∈ records, Z.NsecRecordOf rec) :
    checkNsecNodata q t records = some .secure ↔ Z.NodataShown q t records := by
  constructor
  · intro h
    obtain ⟨rec, hrec, hname, nsec, hnsec, ⟨hbogus, -⟩ | ⟨-, hsoa, hdenies⟩⟩ :=
      checkNsecNodata_eq_some h
    · cases hbogus
    · have hlacks := ((hgenuine rec hrec).bitmapDenies_iff hnsec t).mp hdenies
      rw [(hgenuine rec hrec).soa_mem_iff hnsec] at hsoa
      rw [hname] at hlacks hsoa
      exact ⟨⟨rec, hrec, hname⟩, hlacks, hsoa⟩
  · rintro ⟨⟨rec, hrec, hname⟩, hlacks, hsoa⟩
    cases hcheck : checkNsecNodata q t records with
    | none =>
        obtain ⟨nsec, hnsec, -⟩ := hgenuine rec hrec
        have hsilent := (checkNsecNodata_eq_none hcheck rec hrec hname nsec hnsec).2
        have hdenies := ((hgenuine rec hrec).bitmapDenies_iff hnsec t).mpr (by rwa [hname])
        rw [hdenies] at hsilent
        cases hsilent
    | some status =>
        obtain ⟨rec', hrec', hname', nsec', hnsec', ⟨-, ht, hsoa'⟩ | ⟨hsecure, -⟩⟩ :=
          checkNsecNodata_eq_some hcheck
        · rw [(hgenuine rec' hrec').soa_mem_iff hnsec', hname'] at hsoa'
          exact absurd ⟨ht, hsoa'⟩ hsoa
        · rw [hsecure]

/-- A name off the chain leaves the NODATA check silent. -/
theorem checkNsecNodata_none_of_not_mem_owners (hgenuine : ∀ rec ∈ records, Z.NsecRecordOf rec)
    (hq : q.path ∉ Z.owners) : checkNsecNodata q t records = none := by
  cases hcheck : checkNsecNodata q t records with
  | none => rfl
  | some status =>
      obtain ⟨rec, hrec, hname, -⟩ := checkNsecNodata_eq_some hcheck
      rw [← hname] at hq
      exact absurd (hgenuine rec hrec).mem_owners hq

/-- A wildcard shown without the type makes the wildcard NODATA check fire for a covered name. -/
theorem checkNsecWildcardNodata_secure {closest : Name}
    (hgenuine : ∀ rec ∈ records, Z.NsecRecordOf rec) (hcovers : someNsecCovers records q = true)
    (hshown : ∃ rec ∈ records, rec.name.path = (wildcardName P closest).path)
    (hlacks : Z.BitmapLacks (wildcardName P closest).path t) :
    checkNsecWildcardNodata P q t closest records = some .secure := by
  unfold checkNsecWildcardNodata
  cases hfind : records.find? fun r => r.name == wildcardName P closest with
  | none =>
      obtain ⟨rec, hrec, hname⟩ := hshown
      have hnot := List.find?_eq_none.mp hfind rec hrec
      exact absurd (Name.beq_iff_path.mpr hname) hnot
  | some rec =>
      have hname := List.find?_some hfind
      rw [Name.beq_iff_path] at hname
      have hrec := hgenuine rec (List.mem_of_find?_eq_some hfind)
      have hnsec := hrec
      obtain ⟨nsec, hnsec, -⟩ := hnsec
      have hdenies := (hrec.bitmapDenies_iff hnsec t).mpr (by rwa [hname])
      simp [hnsec, hdenies, hcovers]

/-- With genuine records, the verdict is `secure` exactly when the name's own record denies the type
or an absence is shown. -/
theorem nsecVerdict_secure_iff_of_genuine (hgenuine : ∀ rec ∈ records, Z.NsecRecordOf rec) :
    nsecVerdict P q t records = .secure ↔
      Z.NodataShown q t records ∨ Z.AbsenceShown P q t records := by
  rw [nsecVerdict_secure_iff, checkNsecNodata_secure_iff hgenuine]
  refine or_congr_right ⟨?_, ?_⟩
  · rintro ⟨-, closest, hclosest, hwild | hnx⟩
    · obtain ⟨-, hcovers, rec, hrec, hname, nsec, hnsec, hdenies⟩ :=
        checkNsecWildcardNodata_eq_some hwild
      have hlacks := ((hgenuine rec hrec).bitmapDenies_iff hnsec t).mp hdenies
      rw [hname] at hlacks
      exact ⟨hcovers, closest, hclosest, Or.inr ⟨⟨rec, hrec, hname⟩, hlacks⟩⟩
    · obtain ⟨-, hcovers, hwildCovers⟩ := checkNsecNxdomain_eq_some.mp hnx
      exact ⟨hcovers, closest, hclosest, Or.inl hwildCovers⟩
  · intro h
    have hnodata := checkNsecNodata_none_of_not_mem_owners (t := t) hgenuine
      (h.not_mem_owners hgenuine)
    obtain ⟨hcovers, closest, hclosest, hwild⟩ := h
    refine ⟨hnodata, closest, hclosest, ?_⟩
    rcases hwild with hwildCovers | ⟨hshown, hlacks⟩
    · exact Or.inr (checkNsecNxdomain_eq_some.mpr ⟨rfl, hcovers, hwildCovers⟩)
    · exact Or.inl (checkNsecWildcardNodata_secure hgenuine hcovers hshown hlacks)

/-- `validate_nsec` on verified genuine records, in terms of what is shown. -/
theorem validateNsec_secure_iff {env : Env} {keys : List DNSKEY} {authority : List Record}
    {s : VState} (hgenuine : ∀ rec ∈ denialRecords .NSEC authority, Z.NsecRecordOf rec)
    (hverified :
      (verifyDenialRecords env authority keys (denialRecords .NSEC authority) s).1 = true) :
    (validateNsec env keys q t authority s).1 = .secure ↔
      Z.NodataShown q t (denialRecords .NSEC authority) ∨
        Z.AbsenceShown env.platform q t (denialRecords .NSEC authority) := by
  rw [← nsecVerdict_secure_iff_of_genuine hgenuine]
  by_cases hempty : denialRecords .NSEC authority = []
  · simp [validateNsec, hempty, nsecVerdict, checkNsecNodata, checkNsecNxdomain, someNsecCovers,
      checkNsecWildcardNodata]
    split <;> simp
  · rw [validateNsec_of_verified hempty hverified]

/-- What genuine records show is true of the zone, unless they mislead. -/
theorem hasNoAnswer_of_nsecShown (hgenuine : ∀ rec ∈ records, Z.NsecRecordOf rec)
    (hshown : Z.NodataShown q t records ∨ Z.AbsenceShown P q t records)
    (hclean : ¬ Z.NsecMisleads P q t records) : Z.HasNoAnswer q.path t := by
  by_contra hanswer
  rcases hshown with hnodata | habsence
  · have howner := hnodata.mem_owners hgenuine
    have hexist := exists_of_mem_owners howner
    rcases not_hasNoAnswer_iff.mp hanswer with hocc | ⟨hdel, ht⟩ | ⟨-, hanswers⟩ | hwild
    · exact hexist.not_occluded hocc
    · exact hclean (Or.inl ⟨hdel, ht, hnodata⟩)
    · exact hnodata.2.1.1 hanswers
    · exact hwild.1 hexist
  · have howner := habsence.not_mem_owners hgenuine
    -- A covered name is off the chain, so whatever it owns it owns under a cut.
    have hhidden : q.path ∈ Z.names → Z.Occluded q.path := by
      intro hname
      by_contra hocc
      exact howner (mem_owners.mpr ⟨hname, hocc⟩)
    rcases not_hasNoAnswer_iff.mp hanswer with hocc | ⟨hdel, -⟩ | ⟨hexist, hanswers⟩ | hwild
    · exact hclean (Or.inr ⟨habsence, Or.inl hocc⟩)
    · exact hclean (Or.inr ⟨habsence, Or.inl (hhidden (mem_names_of_mem_types hdel.1))⟩)
    · exact hexist.not_occluded (hhidden hanswers.mem_names)
    · exact hclean (Or.inr ⟨habsence, Or.inr hwild⟩)

/-- **Soundness of NSEC denial, exactly.**  For every zone, every selection of its NSEC records (the
code looks at the first eight) whose signatures verify, every name and type: a `secure` verdict is
true of the zone if and only if the selection is none of the misleading ones. -/
theorem validateNsec_sound_iff (Z : Zone) (env : Env) (keys : List DNSKEY) (q : Name)
    (t : RecordType) (authority : List Record) (s : VState)
    (hgenuine : ∀ rec ∈ denialRecords .NSEC authority, Z.NsecRecordOf rec)
    (hverified :
      (verifyDenialRecords env authority keys (denialRecords .NSEC authority) s).1 = true) :
    ((validateNsec env keys q t authority s).1 = .secure → Z.HasNoAnswer q.path t) ↔
      ¬ Z.NsecMisleads env.platform q t (denialRecords .NSEC authority) := by
  rw [validateNsec_secure_iff hgenuine hverified]
  constructor
  · rintro hsound (⟨hdel, ht, hnodata⟩ | ⟨habsence, hhidden⟩)
    · exact ht ((hsound (Or.inl hnodata)).not_delegation hdel)
    · have hno := hsound (Or.inr habsence)
      exact hhidden.elim hno.not_occluded hno.no_wildcard
  · intro hclean hshown
    exact hasNoAnswer_of_nsecShown hgenuine hshown hclean

/-! ### A delegation and the NSEC record of its parent side -/

/-- The name `a.`. -/
def nameA : Name := ⟨[[97]], by decide⟩

/-- The name `b.a.`. -/
def nameBA : Name := ⟨[[98], [97]], by decide⟩

/-- The zone `a.` with a delegation at `b.a.`. -/
def delegatingZone : Zone where
  apex := [[97]]
  names := [[[97]], [[97], [98]]]
  types p := if p = [[97]] then [.NS, .SOA] else if p = [[97], [98]] then [.NS] else []
  below_apex := by decide
  mem_names p := by
    by_cases ha : p = [[97]]
    · simp [ha]
    · by_cases hb : p = [[97], [98]] <;> simp [ha, hb]
  apex_soa := by decide

/-- A signature of `a.` over the records of one type at `owner`. -/
def signatureAt (owner : Name) (rtype : RecordType) : Record :=
  ⟨owner, .IN, 300, .rrsig ⟨rtype, 8, 2, 300, 100, 0, 1, nameA, [1]⟩⟩

/-- The NSEC record of the delegation, last in the chain. -/
def delegationNsec : Record := ⟨nameBA, .IN, 300, .nsec ⟨nameA, [.NS, .RRSIG, .NSEC]⟩⟩

def delegationAuthority : List Record := [delegationNsec, signatureAt nameBA .NSEC]

def plainKey : DNSKEY := ⟨256, 8, []⟩

theorem delegationNsec_genuine :
    ∀ rec ∈ denialRecords .NSEC delegationAuthority, delegatingZone.NsecRecordOf rec := by
  intro rec hrec
  have hrec : rec = delegationNsec := by
    simpa [denialRecords, delegationAuthority, maxNegativeRecords, delegationNsec, signatureAt,
      Record.recordType, RData.recordType, RecordType.NSEC, RecordType.RRSIG] using hrec
  subst hrec
  refine ⟨_, rfl, by decide, fun t => ?_⟩
  simp [delegationNsec, delegatingZone, Name.path, nameBA, lowerLabel, lowerByte, or_comm]

/-- The parent's NSEC record at a delegation makes an address query for the child's apex come out
`secure`. -/
theorem delegation_nodata_misjudged :
    ¬ ∀ (Z : Zone) (env : Env) (keys : List DNSKEY) (q : Name) (t : RecordType)
        (authority : List Record) (s : VState),
        (∀ rec ∈ denialRecords .NSEC authority, Z.NsecRecordOf rec) →
        denialRecords .NSEC authority ≠ [] → (denialRecords .NSEC authority).length ≤ 8 →
        Z.apex <+: q.path →
        (verifyDenialRecords env authority keys (denialRecords .NSEC authority) s).1 = true →
        (validateNsec env keys q t authority s).1 = .secure → Z.HasNoAnswer q.path t := by
  intro hsound
  have hno := hsound delegatingZone (Env.plain fun _ _ => none) [plainKey] nameBA .A
    delegationAuthority VState.init delegationNsec_genuine (by decide) (by decide) (by decide)
    (by decide) (by decide)
  have hds : RecordType.A = RecordType.DS := hno.not_delegation (by decide)
  exact absurd hds (by decide)

/-- The same record and a DS query, where the verdict is sound. -/
theorem validateNsec_sound_iff_delegation :
    ((validateNsec (Env.plain fun _ _ => none) [plainKey] nameBA .DS delegationAuthority
        VState.init).1 = .secure → delegatingZone.HasNoAnswer nameBA.path .DS) ↔
      ¬ delegatingZone.NsecMisleads .plain nameBA .DS (denialRecords .NSEC delegationAuthority) :=
  validateNsec_sound_iff delegatingZone (Env.plain fun _ _ => none) [plainKey] nameBA .DS
    delegationAuthority VState.init delegationNsec_genuine (by decide)

end Zone
end UnifiedDns
