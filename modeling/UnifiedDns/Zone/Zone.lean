import UnifiedDns.Dnssec.Negative

/-!
# Zones

What a zone really holds, independent of the records shown to the resolver: the yardstick for every
result about denial of existence.

* `Zone` — the apex, the owner names with their type sets, an SOA at the apex.  Glue under a
  delegation may be among the names; it is then occluded.
* `Zone.Delegation`, `Zone.Occluded` — an NS set without an SOA, and the names strictly below such a
  point or below a DNAME owner.
* `Zone.Exists`, `Zone.ClosestEncloser` — existence counts empty non-terminals.
* `Zone.HasNoAnswer` — the zone itself has nothing to say for a name and type.
* `Zone.NsecRecordOf` — a record of the zone's NSEC chain.
-/

namespace UnifiedDns

open Dnssec

/-- The octet label of a wildcard, as a path element. -/
def star : Label := Name.starLabel

structure Zone where
  apex : Path
  names : List Path
  types : Path → List RecordType
  below_apex : ∀ p ∈ names, apex <+: p
  mem_names : ∀ p, p ∈ names ↔ types p ≠ []
  apex_soa : RecordType.SOA ∈ types apex

namespace Zone

variable (Z : Zone)

/-- A zone cut: NS and no SOA. -/
def Delegation (p : Path) : Prop :=
  RecordType.NS ∈ Z.types p ∧ RecordType.SOA ∉ Z.types p

/-- A name whose subtree the zone does not answer from itself. -/
def Cut (p : Path) : Prop := Z.Delegation p ∨ dnameRecordType ∈ Z.types p

/-- Strictly below a delegation or a DNAME owner. -/
def Occluded (p : Path) : Prop := ∃ c ∈ Z.names, Z.Cut c ∧ c <+: p ∧ c ≠ p

instance (p : Path) : Decidable (Z.Delegation p) := by
  unfold Delegation
  infer_instance

instance (p : Path) : Decidable (Z.Cut p) := by
  unfold Cut
  infer_instance

instance (p : Path) : Decidable (Z.Occluded p) := by
  unfold Occluded
  infer_instance

/-- The owners of the denial chain: the names with authoritative data or a delegation. -/
def owners : List Path := Z.names.filter fun p => ¬ Z.Occluded p

/-- The name owns something or has something below it. -/
def Exists (p : Path) : Prop := Z.apex <+: p ∧ ∃ o ∈ Z.owners, p <+: o

instance (p : Path) : Decidable (Z.Exists p) := by
  unfold Exists
  infer_instance

/-- The existing names in a list. -/
def existing : List Path :=
  Z.owners.flatMap fun o => o.inits.filter fun p => decide (Z.apex <+: p)

/-- The longest existing proper ancestor. -/
structure ClosestEncloser (q c : Path) : Prop where
  exist : Z.Exists c
  isPrefix : c <+: q
  ne : c ≠ q
  longest : ∀ c', Z.Exists c' → c' <+: q → c' ≠ q → c' <+: c

/-- The zone owns the type at `p`, or a CNAME that stands in for it. -/
def Answers (p : Path) (t : RecordType) : Prop :=
  t ∈ Z.types p ∨ RecordType.CNAME ∈ Z.types p

instance (p : Path) (t : RecordType) : Decidable (Z.Answers p t) := by
  unfold Answers
  infer_instance

/-- The name does not exist and the wildcard at its closest encloser answers for it. -/
def WildcardAnswers (q : Path) (t : RecordType) : Prop :=
  ¬ Z.Exists q ∧ ∃ c, Z.ClosestEncloser q c ∧ Z.Answers (c ++ [star]) t

/-- The zone really has no answer for the name and type. -/
structure HasNoAnswer (q : Path) (t : RecordType) : Prop where
  not_occluded : ¬ Z.Occluded q
  not_delegation : Z.Delegation q → t = .DS
  no_data : Z.Exists q → ¬ Z.Answers q t
  no_wildcard : ¬ Z.WildcardAnswers q t

/-- `rec` is the NSEC record of its owner in the zone's chain: it points to the next owner in
canonical order and its bitmap shows the owner's types, NSEC and RRSIG. -/
def NsecRecordOf (rec : Record) : Prop :=
  ∃ nsec, rec.nsec? = some nsec ∧
    CyclicChain.CyclicNext {p | p ∈ Z.owners} rec.name.path nsec.nextDomainName.path ∧
    ∀ t, t ∈ nsec.typeBitMaps ↔ t ∈ Z.types rec.name.path ∨ t = .NSEC ∨ t = .RRSIG

/-- A zone's bitmaps deny a type that the name neither owns nor needs for the chain itself. -/
def BitmapLacks (p : Path) (t : RecordType) : Prop :=
  ¬ Z.Answers p t ∧ t ≠ .NSEC ∧ t ≠ .RRSIG

variable {Z}

theorem mem_owners {p : Path} : p ∈ Z.owners ↔ p ∈ Z.names ∧ ¬ Z.Occluded p := by
  simp [owners]

theorem mem_existing {p : Path} : p ∈ Z.existing ↔ Z.Exists p := by
  simp only [existing, List.mem_flatMap, List.mem_filter, List.mem_inits, decide_eq_true_eq, Exists]
  constructor
  · rintro ⟨o, ho, hpre, hapex⟩
    exact ⟨hapex, o, ho, hpre⟩
  · rintro ⟨hapex, o, ho, hpre⟩
    exact ⟨o, ho, hpre, hapex⟩

theorem ClosestEncloser.unique {q c c' : Path} (h : Z.ClosestEncloser q c)
    (h' : Z.ClosestEncloser q c') : c = c' := by
  have hle := h'.longest c h.exist h.isPrefix h.ne
  have hge := h.longest c' h'.exist h'.isPrefix h'.ne
  exact hle.eq_of_length_le hge.length_le

/-- A missing name under the apex has a closest encloser. -/
theorem exists_closestEncloser {q : Path} (hapex : Z.Exists Z.apex) (hq : Z.apex <+: q)
    (hnone : ¬ Z.Exists q) : ∃ c, Z.ClosestEncloser q c := by
  induction q using List.reverseRecOn with
  | nil =>
      rw [List.prefix_nil.mp hq] at hapex
      exact absurd hapex hnone
  | append_singleton init label ih =>
      have hup : ∀ p : Path, p <+: init ++ [label] → p ≠ init ++ [label] → p <+: init := by
        intro p hp hne
        have h := (Path.prefix_eq_or_dropLast hp).resolve_left hne
        rwa [List.dropLast_concat] at h
      have hshort : init ≠ init ++ [label] := by simp
      have hapexInit : Z.apex <+: init := by
        refine hup _ hq ?_
        rintro heq
        exact hnone (heq ▸ hapex)
      by_cases hinit : Z.Exists init
      · exact ⟨init, hinit, List.prefix_append _ _, hshort, fun c' _ hp hne => hup c' hp hne⟩
      · obtain ⟨c, hc⟩ := ih hapexInit hinit
        refine ⟨c, hc.exist, hc.isPrefix.trans (List.prefix_append _ _), ?_, ?_⟩
        · intro heq
          have hlen := hc.isPrefix.length_le
          rw [heq, List.length_append, List.length_singleton] at hlen
          omega
        · intro c' hc' hp hne
          refine hc.longest c' hc' (hup c' hp hne) ?_
          rintro rfl
          exact hinit hc'

/-- A name that answers for some type is one of the zone's names. -/
theorem mem_names_of_mem_types {p : Path} {t : RecordType} (h : t ∈ Z.types p) : p ∈ Z.names :=
  (Z.mem_names p).mpr (List.ne_nil_of_mem h)

theorem Answers.mem_names {p : Path} {t : RecordType} (h : Z.Answers p t) : p ∈ Z.names := by
  rcases h with h | h
  · exact mem_names_of_mem_types h
  · exact mem_names_of_mem_types h

theorem exists_of_mem_owners {p : Path} (h : p ∈ Z.owners) : Z.Exists p :=
  ⟨Z.below_apex p (mem_owners.mp h).1, p, h, List.prefix_rfl⟩

/-- An ancestor of an occluded name is at or above the cut or below it, so occlusion passes down. -/
theorem Occluded.descend {p q : Path} (h : Z.Occluded p) (hpq : p <+: q) : Z.Occluded q := by
  obtain ⟨c, hc, hcut, hpre, hne⟩ := h
  refine ⟨c, hc, hcut, hpre.trans hpq, ?_⟩
  rintro rfl
  exact hne (hpre.eq_of_length_le hpq.length_le)

/-- Existing names are not occluded. -/
theorem Exists.not_occluded {p : Path} (h : Z.Exists p) : ¬ Z.Occluded p := by
  obtain ⟨-, o, ho, hpre⟩ := h
  exact fun hocc => (mem_owners.mp ho).2 (hocc.descend hpre)

/-- The apex owns a record. -/
theorem apex_mem_owners (Z : Zone) : Z.apex ∈ Z.owners := by
  refine mem_owners.mpr ⟨mem_names_of_mem_types Z.apex_soa, ?_⟩
  rintro ⟨c, hc, -, hpre, hne⟩
  exact hne (hpre.eq_of_length_le (Z.below_apex c hc).length_le)

theorem NsecRecordOf.mem_owners {rec : Record} (h : Z.NsecRecordOf rec) :
    rec.name.path ∈ Z.owners := by
  obtain ⟨nsec, -, hnext, -⟩ := h
  exact hnext.left_mem

/-- The bitmap of a chain record denies exactly what the zone lacks there. -/
theorem NsecRecordOf.bitmapDenies_iff {rec : Record} {nsec : NSEC} (h : Z.NsecRecordOf rec)
    (hnsec : rec.nsec? = some nsec) (t : RecordType) :
    bitmapDenies nsec.typeBitMaps t = true ↔ Z.BitmapLacks rec.name.path t := by
  obtain ⟨nsec', hnsec', -, hbitmap⟩ := h
  rw [hnsec] at hnsec'
  cases hnsec'
  rw [Dnssec.bitmapDenies_iff, hbitmap, hbitmap]
  simp only [BitmapLacks, Answers, RecordType.CNAME, RecordType.NSEC, RecordType.RRSIG]
  constructor
  · rintro ⟨htype, hcname⟩
    push Not at htype hcname
    exact ⟨fun h => h.elim htype.1 hcname.1, htype.2⟩
  · rintro ⟨hlacks, hnsecType, hrrsigType⟩
    push Not at hlacks
    refine ⟨fun h => ?_, fun h => ?_⟩
    · rcases h with h | h | h
      · exact hlacks.1 h
      · exact hnsecType h
      · exact hrrsigType h
    · rcases h with h | h | h
      · exact hlacks.2 h
      · exact absurd h (by decide)
      · exact absurd h (by decide)

/-- Records of the chain never cover one of its owners. -/
theorem not_someNsecCovers_of_mem_owners {records : List Record} {target : Name}
    (hgenuine : ∀ rec ∈ records, Z.NsecRecordOf rec) (htarget : target.path ∈ Z.owners) :
    someNsecCovers records target = false := by
  rw [Bool.eq_false_iff]
  intro hcovers
  obtain ⟨rec, hrec, nsec, hnsec, hgap⟩ := someNsecCovers_iff.mp hcovers
  obtain ⟨nsec', hnsec', hnext, -⟩ := hgenuine rec hrec
  rw [hnsec] at hnsec'
  cases hnsec'
  exact CyclicChain.not_inGap_of_mem hnext htarget hgap

/-- What fails when a zone does have something to say for a name and type. -/
theorem not_hasNoAnswer_iff {q : Path} {t : RecordType} :
    ¬ Z.HasNoAnswer q t ↔
      Z.Occluded q ∨ (Z.Delegation q ∧ t ≠ .DS) ∨ (Z.Exists q ∧ Z.Answers q t) ∨
        Z.WildcardAnswers q t := by
  constructor
  · intro h
    by_contra hnone
    push Not at hnone
    obtain ⟨hocc, hdel, hdata, hwild⟩ := hnone
    exact h ⟨hocc, hdel, hdata, hwild⟩
  · rintro (h | ⟨hdel, ht⟩ | ⟨hexist, hanswers⟩ | h) hno
    · exact hno.not_occluded h
    · exact ht (hno.not_delegation hdel)
    · exact hno.no_data hexist hanswers
    · exact hno.no_wildcard h

end Zone
end UnifiedDns
