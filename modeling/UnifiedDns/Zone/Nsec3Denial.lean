import UnifiedDns.Zone.NsecDenial

/-!
# When an NSEC3 denial is sound

`validate_nsec3` against the zone, for chains without Opt-Out and without hash collisions among the
names that matter for a query.

* `hashPath`, `Nsec3RecordAt`, `Nsec3RecordOf` — the chain over the hashes of the existing names, empty
  non-terminals included.
* `CollisionFree` — no two names considered for a query share a hash.
* `matchesHash_iff_recordAt`, `nsec3Covers_of_exists` — matching finds the record of the name; covering
  an existing name is matching it.
* `nsec3Verdict_secure_iff_of_genuine` — the three ways to `secure`.
* `validateNsec3_sound_iff` — the verdict is sound unless the record shown is the parent side of a
  delegation, a wildcard is shown for a name the zone answers, or an absence is shown for a name
  under a cut or under an answering wildcard.
-/

namespace UnifiedDns
namespace Zone

open Dnssec

/-- The name owns data that the zone signs: everything but a delegation without DS. -/
def OwnsSigned (Z : Zone) (p : Path) : Prop :=
  Z.types p ≠ [] ∧ ¬ (Z.Delegation p ∧ RecordType.DS ∉ Z.types p)

/-- The bitmap of the NSEC3 record of `p` denies the type. -/
def BitmapLacks3 (Z : Zone) (p : Path) (t : RecordType) : Prop :=
  ¬ Z.Answers p t ∧ ¬ (t = .RRSIG ∧ Z.OwnsSigned p)

/-- How the chain of a zone was made. -/
structure Nsec3Params where
  platform : Platform
  salt : List Byte
  iterations : Nat

namespace Nsec3Params

/-- The hash of a path under these parameters. -/
def hash (N : Nsec3Params) (p : Path) : List Byte := hashPath N.platform N.salt N.iterations p

end Nsec3Params

variable {Z : Zone} {N : Nsec3Params} {q : Name} {t : RecordType} {records : List Record}

/-- `rec` is the record of the existing name `p` in the zone's NSEC3 chain, without Opt-Out. -/
def Nsec3RecordAt (Z : Zone) (N : Nsec3Params) (p : Path) (rec : Record) : Prop :=
  Z.Exists p ∧ nsec3OwnerHash N.platform rec = some (N.hash p) ∧
    ∃ n, rec.nsec3? = some n ∧
      CyclicChain.CyclicNext {h | ∃ p, Z.Exists p ∧ h = N.hash p} (N.hash p)
        n.nextHashedOwnerName ∧
      n.hashAlgorithm = nsec3Sha1 ∧ n.salt = N.salt ∧ n.iterations = N.iterations ∧
      optOut n = false ∧
      ∀ t, t ∈ n.typeBitMaps ↔ t ∈ Z.types p ∨ (t = .RRSIG ∧ Z.OwnsSigned p)

/-- `rec` is some record of the zone's NSEC3 chain. -/
def Nsec3RecordOf (Z : Zone) (N : Nsec3Params) (rec : Record) : Prop :=
  ∃ p, Z.Nsec3RecordAt N p rec

/-- The names whose hashes a query brings into play: those of the zone, the query name with its
ancestors, and what the code takes for the wildcards below these. -/
def Considered (Z : Zone) (N : Nsec3Params) (q : Name) (p : Path) : Prop :=
  Z.Exists p ∨ p <+: q.path ∨
    ∃ count ≤ q.path.length, p = (wildcardName N.platform (q.trimTo count)).path

/-- No two names considered share a hash. -/
def CollisionFree (Z : Zone) (N : Nsec3Params) (q : Name) : Prop :=
  ∀ p p', Z.Considered N q p → Z.Considered N q p' → N.hash p = N.hash p' → p = p'

/-- The names considered in a list. -/
def consideredNames (Z : Zone) (N : Nsec3Params) (q : Name) : List Path :=
  Z.existing ++ q.path.inits ++
    (List.range (q.path.length + 1)).map fun count => (wildcardName N.platform (q.trimTo count)).path

theorem mem_consideredNames {p : Path} : p ∈ Z.consideredNames N q ↔ Z.Considered N q p := by
  simp only [consideredNames, List.append_assoc, List.mem_append, mem_existing, List.mem_inits,
    List.mem_map, List.mem_range, Nat.lt_succ_iff, Considered, eq_comm]

instance (q : Name) : Decidable (Z.CollisionFree N q) :=
  decidable_of_iff (∀ p ∈ Z.consideredNames N q, ∀ p' ∈ Z.consideredNames N q,
    N.hash p = N.hash p' → p = p') (by
      simp only [mem_consideredNames, CollisionFree]
      exact ⟨fun h p p' hp hp' => h p hp p' hp', fun h p hp p' hp' => h p p' hp hp'⟩)

/-- The hashes of the existing names in a list. -/
theorem hashes_eq_existing :
    {h | ∃ p, Z.Exists p ∧ h = N.hash p} = {h | h ∈ Z.existing.map N.hash} := by
  ext h
  simp only [Set.mem_ofPred_eq, List.mem_map, mem_existing, eq_comm]

theorem considered_of_ancestor {p : Path} (h : p <+: q.path) : Z.Considered N q p := Or.inr (Or.inl h)

/-- The wildcard the code looks up for an ancestor of the query name is considered. -/
theorem considered_wildcardName {closest : Name} (h : closest.labels <:+ q.labels) :
    Z.Considered N q (wildcardName N.platform closest).path := by
  refine Or.inr (Or.inr ⟨closest.path.length, ?_, ?_⟩)
  · rw [Name.length_path, Name.length_path]
    exact h.length_le
  · rw [Name.length_path, ← Name.eq_trimTo_of_suffix h]

theorem Nsec3RecordAt.bitmapDenies_iff {p : Path} {rec : Record} {n : NSEC3}
    (h : Z.Nsec3RecordAt N p rec) (hn : rec.nsec3? = some n) (t : RecordType) :
    bitmapDenies n.typeBitMaps t = true ↔ Z.BitmapLacks3 p t := by
  obtain ⟨-, -, n', hn', -, -, -, -, -, hbitmap⟩ := h
  rw [hn] at hn'
  cases hn'
  rw [Dnssec.bitmapDenies_iff, hbitmap, hbitmap]
  simp only [BitmapLacks3, Answers, RecordType.CNAME, RecordType.RRSIG]
  constructor
  · rintro ⟨htype, hcname⟩
    push Not at htype hcname
    exact ⟨fun h => h.elim htype.1 hcname.1, fun h => htype.2 h.1 h.2⟩
  · rintro ⟨hlacks, hrrsig⟩
    push Not at hlacks
    refine ⟨fun h => h.elim hlacks.1 hrrsig, fun h => h.elim hlacks.2 ?_⟩
    rintro ⟨hcode, -⟩
    exact absurd hcode (by decide)

theorem Nsec3RecordAt.soa_mem_iff {p : Path} {rec : Record} {n : NSEC3}
    (h : Z.Nsec3RecordAt N p rec) (hn : rec.nsec3? = some n) :
    RecordType.SOA ∈ n.typeBitMaps ↔ RecordType.SOA ∈ Z.types p := by
  obtain ⟨-, -, n', hn', -, -, -, -, -, hbitmap⟩ := h
  rw [hn] at hn'
  cases hn'
  rw [hbitmap]
  simp [RecordType.SOA, RecordType.RRSIG]

/-- A genuine record matches the hash of a name considered only if it is the record of that name. -/
theorem matchesHash_iff_recordAt {rec : Record} {n : Name}
    (hfree : Z.CollisionFree N q) (hgenuine : Z.Nsec3RecordOf N rec)
    (hn : Z.Considered N q n.path) :
    matchesHash N.platform (nsec3Hash N.platform n N.salt N.iterations) rec = true ↔
      Z.Nsec3RecordAt N n.path rec := by
  rw [matchesHash_iff, nsec3Hash_eq_hashPath]
  constructor
  · intro howner
    obtain ⟨p, hp⟩ := hgenuine
    have hhash : N.hash p = N.hash n.path := by
      have := hp.2.1.symm.trans howner
      exact Option.some.inj this
    have hpn := hfree p n.path (Or.inl hp.1) hn hhash
    rwa [hpn] at hp
  · exact fun h => h.2.1

/-- A genuine record covers an existing name only by being its record. -/
theorem nsec3Covers_of_exists {rec : Record} {n : Name} (hfree : Z.CollisionFree N q)
    (hgenuine : Z.Nsec3RecordOf N rec) (hn : Z.Considered N q n.path) (hexist : Z.Exists n.path)
    (hcovers : nsec3Covers N.platform rec
      (nsec3Hash N.platform n N.salt N.iterations) = true) :
    Z.Nsec3RecordAt N n.path rec := by
  obtain ⟨owner, n3, howner, hn3, -, htarget⟩ := nsec3Covers_iff.mp hcovers
  rcases htarget with heq | hgap
  · exact (matchesHash_iff_recordAt hfree hgenuine hn).mp (matchesHash_iff.mpr (by rw [howner, heq]))
  · obtain ⟨p, hp⟩ := hgenuine
    obtain ⟨-, howner', n3', hn3', hnext, -⟩ := hp
    rw [hn3] at hn3'
    cases hn3'
    rw [howner] at howner'
    cases howner'
    rw [nsec3Hash_eq_hashPath] at hgap
    exact absurd hgap (CyclicChain.not_inGap_of_mem hnext ⟨n.path, hexist, rfl⟩)

/-- Records without Opt-Out stay without it. -/
theorem isOptOut_of_genuine {rec : Record} (hgenuine : Z.Nsec3RecordOf N rec) :
    isOptOut rec = false := by
  obtain ⟨p, -, -, n, hn, -, -, -, -, hopt, -⟩ := hgenuine
  simp [isOptOut, hn, hopt]

/-! ### What is shown -/

/-- The record of the name is shown, and its bitmap denies the type. -/
def NodataShown3 (Z : Zone) (N : Nsec3Params) (q : Name) (t : RecordType) (records : List Record) :
    Prop :=
  (∃ rec ∈ records, Z.Nsec3RecordAt N q.path rec) ∧ Z.BitmapLacks3 q.path t ∧
    ¬ (t = .DS ∧ RecordType.SOA ∈ Z.types q.path)

/-- The nearest ancestor shown is a proper one, and the record of what the code takes for the wildcard
below it is shown without the type. -/
def WildcardShown3 (Z : Zone) (N : Nsec3Params) (q : Name) (t : RecordType)
    (records : List Record) : Prop :=
  ∃ closest, nsec3ClosestEncloser N.platform q t records N.salt N.iterations = some closest ∧
    closest.path ≠ q.path ∧
      (∃ rec ∈ records, Z.Nsec3RecordAt N (wildcardName N.platform closest).path rec) ∧
      Z.BitmapLacks3 (wildcardName N.platform closest).path t

/-- Below the nearest ancestor shown, the next closer name and what the code takes for the wildcard are
covered. -/
def AbsenceShown3 (N : Nsec3Params) (q : Name) (t : RecordType) (records : List Record) : Prop :=
  ∃ closest next, nsec3ClosestEncloser N.platform q t records N.salt N.iterations = some closest ∧
    closest.path ≠ q.path ∧ nextCloser q closest = some next ∧
      (∃ rec ∈ records,
        nsec3Covers N.platform rec (nsec3Hash N.platform next N.salt N.iterations) = true) ∧
      ∃ rec ∈ records, nsec3Covers N.platform rec
        (nsec3Hash N.platform (wildcardName N.platform closest) N.salt N.iterations) = true

/-- The selections that mislead the code: the parent side of a delegation denies a type of the child;
a wildcard without the type is shown although the zone has an answer; an absence is shown for a name
under a cut or for one that the wildcard at its true closest encloser answers. -/
def Nsec3Misleads (Z : Zone) (N : Nsec3Params) (q : Name) (t : RecordType)
    (records : List Record) : Prop :=
  (Z.Delegation q.path ∧ t ≠ .DS ∧ Z.NodataShown3 N q t records) ∨
    (Z.WildcardShown3 N q t records ∧
      (Z.Occluded q.path ∨ (Z.Delegation q.path ∧ t ≠ .DS) ∨
        (Z.Exists q.path ∧ Z.Answers q.path t) ∨ Z.WildcardAnswers q.path t)) ∨
    (AbsenceShown3 N q t records ∧ (Z.Occluded q.path ∨ Z.WildcardAnswers q.path t))

/-- With genuine records, a name considered is matched exactly when its record is shown. -/
theorem exists_match_iff {n : Name} (hfree : Z.CollisionFree N q)
    (hgenuine : ∀ rec ∈ records, Z.Nsec3RecordOf N rec) (hn : Z.Considered N q n.path) :
    (∃ rec ∈ records,
        matchesHash N.platform (nsec3Hash N.platform n N.salt N.iterations) rec = true) ↔
      ∃ rec ∈ records, Z.Nsec3RecordAt N n.path rec := by
  constructor
  · rintro ⟨rec, hrec, hmatch⟩
    exact ⟨rec, hrec, (matchesHash_iff_recordAt hfree (hgenuine rec hrec) hn).mp hmatch⟩
  · rintro ⟨rec, hrec, hat⟩
    exact ⟨rec, hrec, (matchesHash_iff_recordAt hfree (hgenuine rec hrec) hn).mpr hat⟩

/-- The NODATA check of the code fires `secure` exactly when the name's own record denies. -/
theorem checkNsec3Nodata_secure_iff (hfree : Z.CollisionFree N q)
    (hgenuine : ∀ rec ∈ records, Z.Nsec3RecordOf N rec) :
    checkNsec3Nodata N.platform q t records N.salt N.iterations = some .secure ↔
      Z.NodataShown3 N q t records := by
  have hself : Z.Considered N q q.path := considered_of_ancestor List.prefix_rfl
  unfold checkNsec3Nodata
  constructor
  · intro h
    obtain ⟨rec, hrec, hmatch, n, hn, ⟨hbogus, -⟩ | ⟨-, hsoa, hdenies⟩⟩ :=
      checkNsec3NodataFrom_eq_some h
    · cases hbogus
    · have hat := (matchesHash_iff_recordAt hfree (hgenuine rec hrec) hself).mp hmatch
      rw [hat.soa_mem_iff hn] at hsoa
      exact ⟨⟨rec, hrec, hat⟩, (hat.bitmapDenies_iff hn t).mp hdenies, hsoa⟩
  · rintro ⟨⟨rec, hrec, hat⟩, hlacks, hsoa⟩
    cases hcheck : checkNsec3NodataFrom N.platform
        (nsec3Hash N.platform q N.salt N.iterations) t records with
    | none =>
        have hmatch := (matchesHash_iff_recordAt hfree (hgenuine rec hrec) hself).mpr hat
        have hrecord := hat
        obtain ⟨-, -, n, hn, -⟩ := hrecord
        have hsilent := (checkNsec3NodataFrom_eq_none hcheck rec hrec hmatch n hn).2
        rw [(hat.bitmapDenies_iff hn t).mpr hlacks] at hsilent
        cases hsilent
    | some status =>
        obtain ⟨rec', hrec', hmatch', n', hn', ⟨-, ht, hsoa'⟩ | ⟨hsecure, -⟩⟩ :=
          checkNsec3NodataFrom_eq_some hcheck
        · have hat' := (matchesHash_iff_recordAt hfree (hgenuine rec' hrec') hself).mp hmatch'
          rw [hat'.soa_mem_iff hn'] at hsoa'
          exact absurd ⟨ht, hsoa'⟩ hsoa
        · rw [hsecure]

/-- The wildcard NODATA check fires when the record of the wildcard is shown without the type. -/
theorem checkNsec3WildcardNodata_secure_iff {closest : Name} (hfree : Z.CollisionFree N q)
    (hgenuine : ∀ rec ∈ records, Z.Nsec3RecordOf N rec) (hsuffix : closest.labels <:+ q.labels) :
    checkNsec3WildcardNodata N.platform closest t records N.salt N.iterations = some .secure ↔
      (∃ rec ∈ records, Z.Nsec3RecordAt N (wildcardName N.platform closest).path rec) ∧
        Z.BitmapLacks3 (wildcardName N.platform closest).path t := by
  have hwild := considered_wildcardName (Z := Z) (N := N) hsuffix
  rw [checkNsec3WildcardNodata_eq_secure_iff]
  constructor
  · rintro ⟨rec, n, hfind, hn, hdenies⟩
    have hrec := List.mem_of_find?_eq_some hfind
    have hat := (matchesHash_iff_recordAt hfree (hgenuine rec hrec) hwild).mp
      (List.find?_some hfind)
    exact ⟨⟨rec, hrec, hat⟩, (hat.bitmapDenies_iff hn t).mp hdenies⟩
  · rintro ⟨hshown, hlacks⟩
    cases hfind : records.find? (matchesHash N.platform
        (nsec3Hash N.platform (wildcardName N.platform closest) N.salt N.iterations)) with
    | none =>
        obtain ⟨rec, hrec, hmatch⟩ := (exists_match_iff hfree hgenuine hwild).mpr hshown
        exact absurd hmatch (List.find?_eq_none.mp hfind rec hrec)
    | some rec =>
        have hat := (matchesHash_iff_recordAt hfree
          (hgenuine rec (List.mem_of_find?_eq_some hfind)) hwild).mp (List.find?_some hfind)
        have hrecord := hat
        obtain ⟨-, -, n, hn, -⟩ := hrecord
        exact ⟨rec, n, rfl, hn, (hat.bitmapDenies_iff hn t).mpr hlacks⟩

/-- With genuine records, the verdict is `secure` exactly when the name's own record denies the type,
the wildcard at the nearest ancestor shown does, or an absence is shown. -/
theorem nsec3Verdict_secure_iff_of_genuine (hfree : Z.CollisionFree N q)
    (hgenuine : ∀ rec ∈ records, Z.Nsec3RecordOf N rec) :
    nsec3Verdict N.platform q t records N.salt N.iterations = .secure ↔
      Z.NodataShown3 N q t records ∨ Z.WildcardShown3 N q t records ∨
        AbsenceShown3 N q t records := by
  -- The genuine chain has no Opt-Out record.
  have hopt : ∀ rec ∈ records, isOptOut rec = true → t ≠ .DS := by
    intro rec hrec hflag
    rw [isOptOut_of_genuine (hgenuine rec hrec)] at hflag
    cases hflag
  rw [nsec3Verdict_secure_iff, checkNsec3Nodata_secure_iff hfree hgenuine]
  refine or_congr_right ⟨?_, ?_⟩
  · rintro ⟨closest, hclosest, hne, hwild | hnx⟩
    · have hsuffix := nsec3ClosestEncloser_suffix hclosest
      exact Or.inl ⟨closest, hclosest, hne,
        (checkNsec3WildcardNodata_secure_iff hfree hgenuine hsuffix).mp hwild⟩
    · obtain ⟨next, hnext, hcovers⟩ := (checkNsec3Nxdomain_eq_secure_iff hopt).mp hnx
      exact Or.inr ⟨closest, next, hclosest, hne, hnext, hcovers⟩
  · rintro (⟨closest, hclosest, hne, hwild⟩ | ⟨closest, next, hclosest, hne, hcovers⟩)
    · have hsuffix := nsec3ClosestEncloser_suffix hclosest
      exact ⟨closest, hclosest, hne,
        Or.inl ((checkNsec3WildcardNodata_secure_iff hfree hgenuine hsuffix).mpr hwild)⟩
    · exact ⟨closest, hclosest, hne,
        Or.inr ((checkNsec3Nxdomain_eq_secure_iff hopt).mpr ⟨next, hcovers⟩)⟩

/-- When an absence is shown the next closer name is truly missing, and the query name with it. -/
theorem AbsenceShown3.not_exists (hfree : Z.CollisionFree N q)
    (hgenuine : ∀ rec ∈ records, Z.Nsec3RecordOf N rec) (h : AbsenceShown3 N q t records) :
    ¬ Z.Exists q.path := by
  obtain ⟨closest, next, hclosest, hne, hnext, ⟨rec, hrec, hcovers⟩, -⟩ := h
  obtain ⟨hpre, hfound, hbetween⟩ := nsec3ClosestEncloser_spec hclosest hne
  obtain ⟨hnextq, hdrop, hnextne⟩ := nextCloser_spec hnext hpre hne
  have hclosestNext : closest.path <+: next.path := by
    rw [← hdrop]
    exact List.dropLast_prefix _
  rintro ⟨hapex, o, howner, hqo⟩
  have hconsidered : Z.Considered N q next.path := considered_of_ancestor hnextq
  have hbelow : Z.apex <+: next.path := by
    rcases hfound with ⟨rec', hrec', hmatch⟩ | hparent
    · have hat := (matchesHash_iff_recordAt hfree (hgenuine rec' hrec')
        (considered_of_ancestor hpre)).mp hmatch
      exact hat.1.1.trans hclosestNext
    · -- The parent was assumed, so the next closer name is the query name.
      have hself : next.path = q.path := by
        rcases Path.prefix_eq_or_dropLast hnextq with heq | hup
        · exact heq
        · rw [← hparent] at hup
          exact absurd (hup.eq_of_length_le hclosestNext.length_le) hnextne
      rwa [hself]
  have hexist : Z.Exists next.path := ⟨hbelow, o, howner, hnextq.trans hqo⟩
  have hat := nsec3Covers_of_exists hfree (hgenuine rec hrec) hconsidered hexist hcovers
  have hmatch := (matchesHash_iff_recordAt hfree (hgenuine rec hrec) hconsidered).mpr hat
  rw [hbetween next hnextq hclosestNext hnextne rec hrec] at hmatch
  cases hmatch

/-- Genuine records agree on their parameters, so the code can use them. -/
theorem usableNsec3_of_genuine {authority : List Record} (hiterations : N.iterations ≤ 150)
    (hgenuine : ∀ rec ∈ denialRecords .NSEC3 authority, Z.Nsec3RecordOf N rec)
    (hne : denialRecords .NSEC3 authority ≠ []) :
    ∃ first, UsableNsec3 authority first ∧ first.salt = N.salt ∧
      first.iterations = N.iterations := by
  refine usableNsec3_of_parameters hiterations (fun rec hrec => ?_) hne
  obtain ⟨p, -, -, n, hn, -, halg, hsalt, hiter, -⟩ := hgenuine rec hrec
  exact ⟨n, hn, halg, hsalt, hiter⟩

/-- `validate_nsec3` on verified genuine records, in terms of what is shown. -/
theorem validateNsec3_secure_iff {env : Env} {keys : List DNSKEY} {authority : List Record}
    {s : VState} (hplatform : N.platform = env.platform) (hiterations : N.iterations ≤ 150)
    (hfree : Z.CollisionFree N q)
    (hgenuine : ∀ rec ∈ denialRecords .NSEC3 authority, Z.Nsec3RecordOf N rec)
    (hverified :
      (verifyDenialRecords env authority keys (denialRecords .NSEC3 authority) s).1 = true) :
    (validateNsec3 env keys q t authority s).1 = .secure ↔
      Z.NodataShown3 N q t (denialRecords .NSEC3 authority) ∨
        Z.WildcardShown3 N q t (denialRecords .NSEC3 authority) ∨
          AbsenceShown3 N q t (denialRecords .NSEC3 authority) := by
  by_cases hempty : denialRecords .NSEC3 authority = []
  · simp [validateNsec3, hempty, NodataShown3, WildcardShown3, AbsenceShown3]
  · obtain ⟨first, husable, hsalt, hiter⟩ := usableNsec3_of_genuine hiterations hgenuine hempty
    rw [validateNsec3_of_verified husable hverified, hsalt, hiter, ← hplatform,
      nsec3Verdict_secure_iff_of_genuine hfree hgenuine]

/-- What genuine records show is true of the zone, unless they mislead. -/
theorem hasNoAnswer_of_nsec3Shown (hfree : Z.CollisionFree N q)
    (hgenuine : ∀ rec ∈ records, Z.Nsec3RecordOf N rec)
    (hshown : Z.NodataShown3 N q t records ∨ Z.WildcardShown3 N q t records ∨
      AbsenceShown3 N q t records)
    (hclean : ¬ Z.Nsec3Misleads N q t records) : Z.HasNoAnswer q.path t := by
  by_contra hanswer
  rcases hshown with hnodata | hwildcard | habsence
  · have hshown := hnodata
    obtain ⟨⟨rec, -, hat⟩, hlacks, -⟩ := hshown
    rcases not_hasNoAnswer_iff.mp hanswer with hocc | ⟨hdel, ht⟩ | ⟨-, hanswers⟩ | hwild
    · exact hat.1.not_occluded hocc
    · exact hclean (Or.inl ⟨hdel, ht, hnodata⟩)
    · exact hlacks.1 hanswers
    · exact hwild.1 hat.1
  · exact hclean (Or.inr (Or.inl ⟨hwildcard, not_hasNoAnswer_iff.mp hanswer⟩))
  · have hmissing := habsence.not_exists hfree hgenuine
    -- A missing name is off the chain, so whatever it owns it owns under a cut.
    have hhidden : q.path ∈ Z.names → Z.Occluded q.path := by
      intro hname
      by_contra hocc
      exact hmissing (exists_of_mem_owners (mem_owners.mpr ⟨hname, hocc⟩))
    rcases not_hasNoAnswer_iff.mp hanswer with hocc | ⟨hdel, -⟩ | ⟨hexist, -⟩ | hwild
    · exact hclean (Or.inr (Or.inr ⟨habsence, Or.inl hocc⟩))
    · exact hclean
        (Or.inr (Or.inr ⟨habsence, Or.inl (hhidden (mem_names_of_mem_types hdel.1))⟩))
    · exact hmissing hexist
    · exact hclean (Or.inr (Or.inr ⟨habsence, Or.inr hwild⟩))

/-- **Soundness of NSEC3 denial, exactly.**  For every zone, every chain without Opt-Out over its
names, every selection of its records (the code looks at the first eight) whose signatures verify,
every name and type: a `secure` verdict is true of the zone if and only if the selection is none of
the misleading ones. -/
theorem validateNsec3_sound_iff (Z : Zone) (env : Env) (salt : List Byte) (iterations : Nat)
    (keys : List DNSKEY) (q : Name) (t : RecordType) (authority : List Record) (s : VState)
    (hiterations : iterations ≤ 150)
    (hfree : Z.CollisionFree ⟨env.platform, salt, iterations⟩ q)
    (hgenuine : ∀ rec ∈ denialRecords .NSEC3 authority,
      Z.Nsec3RecordOf ⟨env.platform, salt, iterations⟩ rec)
    (hverified :
      (verifyDenialRecords env authority keys (denialRecords .NSEC3 authority) s).1 = true) :
    ((validateNsec3 env keys q t authority s).1 = .secure → Z.HasNoAnswer q.path t) ↔
      ¬ Z.Nsec3Misleads ⟨env.platform, salt, iterations⟩ q t (denialRecords .NSEC3 authority) := by
  rw [validateNsec3_secure_iff rfl hiterations hfree hgenuine hverified]
  constructor
  · -- Each misleading selection is accepted, and each leaves the zone something to answer.
    rintro hsound (⟨hdel, ht, hnodata⟩ | ⟨hwildcard, hanswer⟩ | ⟨habsence, hhidden⟩)
    · exact ht ((hsound (Or.inl hnodata)).not_delegation hdel)
    · exact not_hasNoAnswer_iff.mpr hanswer (hsound (Or.inr (Or.inl hwildcard)))
    · have hno := hsound (Or.inr (Or.inr habsence))
      exact hhidden.elim hno.not_occluded hno.no_wildcard
  · intro hclean hshown
    exact hasNoAnswer_of_nsec3Shown hfree hgenuine hshown hclean

/-! ### A wildcard shown for a name that exists -/

/-- SHA-1 on the wire forms of the root, `a.`, `b.a.`, `*.`, `*.a.` and `*.b.a.`. -/
def sampleSha1 (wire : List Byte) : List Byte :=
  if wire = [0] then
    [91, 169, 60, 157, 176, 207, 249, 63, 82, 181, 33, 215, 66, 14, 67, 246, 237, 162, 120, 79]
  else if wire = [1, 97, 0] then
    [212, 197, 66, 193, 124, 171, 12, 58, 192, 26, 199, 182, 105, 164, 172, 71, 4, 179, 121, 209]
  else if wire = [1, 98, 1, 97, 0] then
    [142, 118, 255, 148, 78, 94, 225, 192, 250, 28, 131, 40, 138, 68, 149, 183, 95, 244, 138, 131]
  else if wire = [1, 42, 0] then
    [52, 107, 187, 17, 49, 57, 209, 27, 152, 224, 64, 5, 105, 181, 240, 100, 25, 166, 117, 42]
  else if wire = [1, 42, 1, 97, 0] then
    [236, 74, 37, 62, 26, 36, 91, 100, 40, 181, 15, 94, 117, 118, 142, 233, 201, 3, 136, 252]
  else
    [54, 96, 82, 110, 146, 204, 176, 196, 66, 6, 203, 96, 243, 13, 11, 134, 111, 79, 245, 81]

def sha1Env : Env where
  platform := { Platform.plain with sha1 := sampleSha1 }
  clock _ := 50
  resolve _ _ _ := none

/-- Chains without salt and extra iterations. -/
def plainParams : Nsec3Params := ⟨sha1Env.platform, [], 0⟩

/-- The zone `a.` with a wildcard at `*.a.` and an address at `b.a.`. -/
def wildcardZone : Zone where
  apex := [[97]]
  names := [[[97]], [[97], star], [[97], [98]]]
  types p :=
    if p = [[97]] then [.NS, .SOA]
    else if p = [[97], star] then [.AAAA]
    else if p = [[97], [98]] then [.A]
    else []
  below_apex := by decide
  mem_names p := by
    by_cases ha : p = [[97]]
    · simp [ha]
    · by_cases hstar : p = [[97], star]
      · simp [hstar]
      · by_cases hb : p = [[97], [98]]
        · simp [hb, star, Name.starLabel]
        · simp [ha, hstar, hb]
  apex_soa := by decide

/-- The owner name of an NSEC3 record of `a.`, from the text of the hash. -/
def hashedOwner (label : Label) (h : ValidLabels [label, [97]]) : Name := ⟨[label, [97]], h⟩

/-- The owner of the NSEC3 record of `a.`. -/
def hashedA : Name :=
  hashedOwner [81, 74, 50, 75, 53, 71, 66, 83, 76, 67, 54, 51, 76, 71, 48, 81, 79, 85, 82, 54, 74,
    57, 53, 67, 56, 83, 50, 66, 54, 85, 69, 72] (by decide)

/-- The owner of the NSEC3 record of `*.a.`. -/
def hashedStarA : Name :=
  hashedOwner [84, 72, 53, 50, 65, 70, 71, 81, 52, 72, 68, 77, 56, 65, 53, 76, 49, 84, 70, 55, 65,
    84, 75, 69, 84, 55, 52, 71, 55, 50, 55, 83] (by decide)

/-- The NSEC3 record of the apex; the wildcard comes next in hash order. -/
def apexNsec3 : Record :=
  ⟨hashedA, .IN, 300, .nsec3 ⟨1, 0, 0, [], sampleSha1 [1, 42, 1, 97, 0], [.NS, .SOA, .RRSIG]⟩⟩

/-- The NSEC3 record of the wildcard, last in hash order. -/
def wildcardNsec3 : Record :=
  ⟨hashedStarA, .IN, 300, .nsec3 ⟨1, 0, 0, [], sampleSha1 [1, 98, 1, 97, 0], [.AAAA, .RRSIG]⟩⟩

def wildcardAuthority : List Record :=
  [apexNsec3, wildcardNsec3, signatureAt hashedA .NSEC3, signatureAt hashedStarA .NSEC3]

theorem wildcardZone_collisionFree : wildcardZone.CollisionFree plainParams nameBA := by
  decide

theorem apexNsec3_genuine : wildcardZone.Nsec3RecordOf plainParams apexNsec3 := by
  refine ⟨[[97]], by decide, by decide, _, rfl, ?_, rfl, rfl, rfl, by decide, ?_⟩
  · rw [hashes_eq_existing]
    decide
  · intro t
    have htypes : wildcardZone.types [[97]] = [.NS, .SOA] := by decide
    have hsigned : wildcardZone.OwnsSigned [[97]] := by
      refine ⟨by decide, fun h => ?_⟩
      exact absurd h.1 (by decide)
    simp [htypes, hsigned, or_assoc]

theorem wildcardNsec3_genuine : wildcardZone.Nsec3RecordOf plainParams wildcardNsec3 := by
  refine ⟨[[97], star], by decide, by decide, _, rfl, ?_, rfl, rfl, rfl, by decide, ?_⟩
  · rw [hashes_eq_existing]
    decide
  · intro t
    have htypes : wildcardZone.types [[97], star] = [.AAAA] := by decide
    have hsigned : wildcardZone.OwnsSigned [[97], star] := by
      refine ⟨by decide, fun h => ?_⟩
      exact absurd h.1 (by decide)
    simp [htypes, hsigned]

theorem wildcardAuthority_genuine :
    ∀ rec ∈ denialRecords .NSEC3 wildcardAuthority, wildcardZone.Nsec3RecordOf plainParams rec := by
  intro rec hrec
  have hrec : rec = apexNsec3 ∨ rec = wildcardNsec3 := by
    simpa [denialRecords, wildcardAuthority, maxNegativeRecords, apexNsec3, wildcardNsec3,
      signatureAt, Record.recordType, RData.recordType, RecordType.NSEC3, RecordType.RRSIG]
      using hrec
  rcases hrec with rfl | rfl
  · exact apexNsec3_genuine
  · exact wildcardNsec3_genuine

/-- The apex and its wildcard are shown, and an address that exists comes out as missing. -/
theorem wildcard_nodata_misjudged :
    ¬ ∀ (Z : Zone) (env : Env) (salt : List Byte) (iterations : Nat) (keys : List DNSKEY)
        (q : Name) (t : RecordType) (authority : List Record) (s : VState),
        iterations ≤ 150 → Z.CollisionFree ⟨env.platform, salt, iterations⟩ q →
        (∀ rec ∈ denialRecords .NSEC3 authority,
          Z.Nsec3RecordOf ⟨env.platform, salt, iterations⟩ rec) →
        denialRecords .NSEC3 authority ≠ [] → (denialRecords .NSEC3 authority).length ≤ 8 →
        Z.apex <+: q.path →
        (verifyDenialRecords env authority keys (denialRecords .NSEC3 authority) s).1 = true →
        (validateNsec3 env keys q t authority s).1 = .secure → Z.HasNoAnswer q.path t := by
  intro hsound
  have hno := hsound wildcardZone sha1Env [] 0 [plainKey] nameBA .A wildcardAuthority VState.init
    (by decide) wildcardZone_collisionFree wildcardAuthority_genuine (by decide) (by decide)
    (by decide) (by decide) (by decide)
  exact hno.no_data (by decide) (by decide)

/-- The same records and a DS query: what is shown still says nothing about `b.a.`, but the verdict
happens to be true. -/
theorem validateNsec3_sound_iff_wildcardZone :
    ((validateNsec3 sha1Env [plainKey] nameBA .DS wildcardAuthority VState.init).1 = .secure →
        wildcardZone.HasNoAnswer nameBA.path .DS) ↔
      ¬ wildcardZone.Nsec3Misleads plainParams nameBA .DS
        (denialRecords .NSEC3 wildcardAuthority) :=
  validateNsec3_sound_iff wildcardZone sha1Env [] 0 [plainKey] nameBA .DS wildcardAuthority
    VState.init (by decide) wildcardZone_collisionFree wildcardAuthority_genuine (by decide)

end Zone
end UnifiedDns
