import UnifiedDns.Lib.CyclicChain
import UnifiedDns.Dnssec.Rrsig

/-!
# NSEC denial of existence

The pure part of `validate_nsec`: what the code concludes from a list of NSEC records whose
signatures have been checked.

* `findNsecClosestEncloser` — the closest encloser the code settles on: the nearest proper ancestor
  of the query name, at most sixteen labels up, that owns one of the records.
* `checkNsecNodata`, `checkNsecWildcardNodata`, `checkNsecNxdomain` — the three proofs, each saying
  nothing when it does not apply.
* `nsecVerdict` — their order of precedence, and `nsecVerdict_secure_iff`, which lists the ways to
  the verdict `secure`.
* `nsecCovers_iff` — the covering test is membership in the gap of a cyclic chain.
-/

namespace UnifiedDns
namespace Dnssec

inductive DnssecStatus
  | secure
  | insecureUnsigned
  | insecureUnknown
  | bogus
deriving DecidableEq, Repr

def maxNegativeRecords : Nat := 8
def maxNsec3Iterations : Nat := 150
def maxClosestEncloserSteps : Nat := 16
def maxCnameChain : Nat := 16

/-- `str::trim_end_matches('.')`. -/
def trimEndDots (s : Text) : Text := (s.reverse.dropWhile fun b => b == dot).reverse

/-- `wildcard_name`: `*.` in front of the printed name, read as a name again.  A text that does not
parse gives the root, and the name that is read need not be the one that was printed. -/
def wildcardName (P : Platform) (closest : Name) : Name :=
  if closest.isRoot then (P.parseName (asciiText "*.")).getD .root
  else (P.parseName (asciiText "*." ++ trimEndDots (P.nameAscii closest) ++ asciiText ".")).getD .root

/-- `nsec_covers`. -/
def nsecCovers (owner next target : Name) : Bool :=
  let o := owner.toLowercase
  let n := next.toLowercase
  let t := target.toLowercase
  if o.canonicalLt n then decide (o.canonicalLt t) && decide (t.canonicalLt n)
  else decide (o.canonicalLt t) || decide (t.canonicalLt n)

/-- Some NSEC record of the list covers the target. -/
def someNsecCovers (records : List Record) (target : Name) : Bool :=
  records.any fun rec =>
    match rec.nsec? with
    | some nsec => nsecCovers rec.name nsec.nextDomainName target
    | none => false

/-- The bit for `rtype` is set. -/
def bitSet (typeBitMaps : List RecordType) (rtype : RecordType) : Bool :=
  typeBitMaps.any fun t => decide (t = rtype)

/-- A bitmap denies a type when it shows neither the type nor a CNAME. -/
def bitmapDenies (typeBitMaps : List RecordType) (qtype : RecordType) : Bool :=
  !bitSet typeBitMaps qtype && !bitSet typeBitMaps .CNAME

/-- The loop of `find_nsec_closest_encloser`, with the steps that are left. -/
def findNsecClosestEncloserFrom (records : List Record) : Nat → Name → Option Name
  | 0, _ => none
  | steps + 1, cur =>
      if records.any fun r => r.name == cur then some cur
      else if cur.isRoot then none
      else findNsecClosestEncloserFrom records steps cur.baseName

/-- `find_nsec_closest_encloser`. -/
def findNsecClosestEncloser (qname : Name) (records : List Record) : Option Name :=
  findNsecClosestEncloserFrom records maxClosestEncloserSteps
    (if qname.isRoot then qname else qname.baseName)

/-- `check_nsec_nodata`. -/
def checkNsecNodata (qname : Name) (qtype : RecordType) : List Record → Option DnssecStatus
  | [] => none
  | rec :: rest =>
      match if rec.name == qname then rec.nsec? else none with
      | some nsec =>
          if qtype = .DS ∧ bitSet nsec.typeBitMaps .SOA = true then some .bogus
          else if bitmapDenies nsec.typeBitMaps qtype then some .secure
          else checkNsecNodata qname qtype rest
      | none => checkNsecNodata qname qtype rest

/-- `check_nsec_wildcard_nodata`. -/
def checkNsecWildcardNodata (P : Platform) (qname : Name) (qtype : RecordType) (closest : Name)
    (records : List Record) : Option DnssecStatus :=
  match records.find? fun r => r.name == wildcardName P closest with
  | none => none
  | some wildcardNsec =>
      match wildcardNsec.nsec? with
      | none => none
      | some nsec =>
          if !bitmapDenies nsec.typeBitMaps qtype then none
          else if someNsecCovers records qname then some .secure
          else none

/-- `check_nsec_nxdomain`. -/
def checkNsecNxdomain (P : Platform) (qname closest : Name) (records : List Record) :
    Option DnssecStatus :=
  if !someNsecCovers records qname then none
  else if !someNsecCovers records (wildcardName P closest) then none
  else some .secure

/-- What `validate_nsec` returns once every signature has verified. -/
def nsecVerdict (P : Platform) (qname : Name) (qtype : RecordType) (records : List Record) :
    DnssecStatus :=
  match checkNsecNodata qname qtype records with
  | some status => status
  | none =>
      match findNsecClosestEncloser qname records with
      | none => .bogus
      | some closest =>
          match checkNsecWildcardNodata P qname qtype closest records with
          | some status => status
          | none => (checkNsecNxdomain P qname closest records).getD .bogus

theorem nsecCovers_iff {owner next target : Name} :
    nsecCovers owner next target = true ↔
      CyclicChain.InGap owner.path next.path target.path := by
  unfold nsecCovers CyclicChain.InGap Name.canonicalLt
  simp only [Name.path_toLowercase]
  split <;> simp

theorem someNsecCovers_iff {records : List Record} {target : Name} :
    someNsecCovers records target = true ↔
      ∃ rec ∈ records, ∃ nsec, rec.nsec? = some nsec ∧
        CyclicChain.InGap rec.name.path nsec.nextDomainName.path target.path := by
  simp only [someNsecCovers, List.any_eq_true]
  constructor
  · rintro ⟨rec, hrec, hcovers⟩
    cases hnsec : rec.nsec? with
    | none => simp [hnsec] at hcovers
    | some nsec =>
        rw [hnsec] at hcovers
        exact ⟨rec, hrec, nsec, hnsec, nsecCovers_iff.mp hcovers⟩
  · rintro ⟨rec, hrec, nsec, hnsec, hgap⟩
    refine ⟨rec, hrec, ?_⟩
    simp [hnsec, nsecCovers_iff.mpr hgap]

@[simp] theorem bitSet_iff {typeBitMaps : List RecordType} {rtype : RecordType} :
    bitSet typeBitMaps rtype = true ↔ rtype ∈ typeBitMaps := by
  simp [bitSet]

theorem bitmapDenies_iff {typeBitMaps : List RecordType} {qtype : RecordType} :
    bitmapDenies typeBitMaps qtype = true ↔
      qtype ∉ typeBitMaps ∧ RecordType.CNAME ∉ typeBitMaps := by
  simp [bitmapDenies, ← Bool.not_eq_true]

/-- The search finds the nearest owner of a record among the name and its ancestors, as far as it
goes. -/
theorem findNsecClosestEncloserFrom_eq_some {records : List Record} {steps : Nat}
    {cur found : Name} (h : findNsecClosestEncloserFrom records steps cur = some found) :
    found.path <+: cur.path ∧ (∃ rec ∈ records, rec.name.path = found.path) ∧
      cur.path.length < found.path.length + steps ∧
      ∀ p : Path, p <+: cur.path → (∃ rec ∈ records, rec.name.path = p) → p <+: found.path := by
  induction steps generalizing cur with
  | zero => cases h
  | succ steps ih =>
      simp only [findNsecClosestEncloserFrom] at h
      split at h
      · rename_i hany
        cases h
        simp only [List.any_eq_true, Name.beq_iff_path] at hany
        exact ⟨List.prefix_rfl, hany, by omega, fun p hp _ => hp⟩
      · rename_i hany
        split at h
        · cases h
        · simp only [List.any_eq_true, Name.beq_iff_path, not_exists, not_and] at hany
          obtain ⟨hpre, hmatch, hlen, hnearest⟩ := ih h
          rw [Name.path_baseName] at hpre hlen hnearest
          rw [List.length_dropLast] at hlen
          refine ⟨hpre.trans (List.dropLast_prefix _), hmatch, by omega, ?_⟩
          rintro p hp ⟨rec, hrec, hname⟩
          rcases Path.prefix_eq_or_dropLast hp with rfl | hup
          · exact absurd hname (hany rec hrec)
          · exact hnearest p hup ⟨rec, hrec, hname⟩

/-- What the search finds consists of the last labels of the name it started at. -/
theorem findNsecClosestEncloserFrom_suffix {records : List Record} {steps : Nat} {cur found : Name}
    (h : findNsecClosestEncloserFrom records steps cur = some found) : found.labels <:+ cur.labels := by
  induction steps generalizing cur with
  | zero => cases h
  | succ steps ih =>
      simp only [findNsecClosestEncloserFrom] at h
      split at h
      · cases h
        exact List.suffix_refl _
      · split at h
        · cases h
        · exact (ih h).trans (List.tail_suffix _)

theorem findNsecClosestEncloser_suffix {records : List Record} {q closest : Name}
    (h : findNsecClosestEncloser q records = some closest) : closest.labels <:+ q.labels := by
  have hfound := findNsecClosestEncloserFrom_suffix h
  split at hfound
  · exact hfound
  · exact hfound.trans (List.tail_suffix _)

/-- Within its steps the search finds an ancestor that owns a record. -/
theorem findNsecClosestEncloserFrom_isSome {records : List Record} {steps : Nat} {cur : Name}
    {p : Path} (hp : p <+: cur.path) (hsteps : cur.path.length < p.length + steps)
    (hrec : ∃ rec ∈ records, rec.name.path = p) :
    ∃ found, findNsecClosestEncloserFrom records steps cur = some found := by
  induction steps generalizing cur with
  | zero =>
      have hlen := hp.length_le
      omega
  | succ steps ih =>
      simp only [findNsecClosestEncloserFrom]
      split
      · exact ⟨cur, rfl⟩
      · rename_i hany
        simp only [List.any_eq_true, Name.beq_iff_path, not_exists, not_and] at hany
        have hup : p <+: cur.path.dropLast := by
          refine (Path.prefix_eq_or_dropLast hp).resolve_left ?_
          rintro rfl
          obtain ⟨rec, hmem, hname⟩ := hrec
          exact hany rec hmem hname
        split
        · rename_i hroot
          -- Above the root there is no other ancestor.
          rw [Name.isRoot_iff_path.mp hroot] at hany hp
          obtain ⟨rec, hmem, hname⟩ := hrec
          exact absurd (hname.trans (List.prefix_nil.mp hp)) (hany rec hmem)
        · refine ih ?_ ?_
          · rwa [Name.path_baseName]
          · rw [Name.path_baseName, List.length_dropLast]
            have hpos : 0 < cur.path.length := by
              by_contra hzero
              have hnil : cur.path = [] := List.eq_nil_of_length_eq_zero (by omega)
              rename_i hroot
              exact hroot (Name.isRoot_iff_path.mpr hnil)
            omega

/-- A verdict of the NODATA check comes from a record owned by the query name. -/
theorem checkNsecNodata_eq_some {qname : Name} {qtype : RecordType} {records : List Record}
    {status : DnssecStatus} (h : checkNsecNodata qname qtype records = some status) :
    ∃ rec ∈ records, rec.name.path = qname.path ∧ ∃ nsec, rec.nsec? = some nsec ∧
      ((status = .bogus ∧ qtype = .DS ∧ RecordType.SOA ∈ nsec.typeBitMaps) ∨
        (status = .secure ∧ ¬ (qtype = .DS ∧ RecordType.SOA ∈ nsec.typeBitMaps) ∧
          bitmapDenies nsec.typeBitMaps qtype = true)) := by
  induction records with
  | nil => cases h
  | cons rec rest ih =>
      simp only [checkNsecNodata] at h
      split at h
      · rename_i nsec hnsec
        split at hnsec
        · rename_i hname
          have hpath := Name.beq_iff_path.mp hname
          simp only [bitSet_iff] at h
          split at h
          · rename_i hsoa
            cases h
            exact ⟨rec, List.mem_cons_self, hpath, nsec, hnsec, Or.inl ⟨rfl, hsoa⟩⟩
          · rename_i hsoa
            split at h
            · rename_i hdenies
              cases h
              exact ⟨rec, List.mem_cons_self, hpath, nsec, hnsec,
                Or.inr ⟨rfl, hsoa, hdenies⟩⟩
            · obtain ⟨rec', hrec', hrest⟩ := ih h
              exact ⟨rec', List.mem_cons_of_mem _ hrec', hrest⟩
        · cases hnsec
      · obtain ⟨rec', hrec', hrest⟩ := ih h
        exact ⟨rec', List.mem_cons_of_mem _ hrec', hrest⟩

/-- The NODATA check is silent only if no record of the query name denies the type. -/
theorem checkNsecNodata_eq_none {qname : Name} {qtype : RecordType} {records : List Record}
    (h : checkNsecNodata qname qtype records = none) :
    ∀ rec ∈ records, rec.name.path = qname.path → ∀ nsec, rec.nsec? = some nsec →
      ¬ (qtype = .DS ∧ RecordType.SOA ∈ nsec.typeBitMaps) ∧
        bitmapDenies nsec.typeBitMaps qtype = false := by
  induction records with
  | nil => simp
  | cons rec rest ih =>
      simp only [checkNsecNodata] at h
      intro rec' hrec' hpath nsec hnsec
      rcases List.mem_cons.mp hrec' with rfl | htail
      · rw [if_pos (Name.beq_iff_path.mpr hpath), hnsec] at h
        simp only [bitSet_iff] at h
        split at h
        · cases h
        · rename_i hsoa
          split at h
          · cases h
          · rename_i hdenies
            exact ⟨hsoa, by simpa using hdenies⟩
      · refine ih ?_ rec' htail hpath nsec hnsec
        split at h
        · split at h
          · cases h
          · split at h
            · cases h
            · exact h
        · exact h

theorem checkNsecWildcardNodata_eq_some {P : Platform} {qname closest : Name} {qtype : RecordType}
    {records : List Record} {status : DnssecStatus}
    (h : checkNsecWildcardNodata P qname qtype closest records = some status) :
    status = .secure ∧ someNsecCovers records qname = true ∧
      ∃ rec ∈ records, rec.name.path = (wildcardName P closest).path ∧
        ∃ nsec, rec.nsec? = some nsec ∧ bitmapDenies nsec.typeBitMaps qtype = true := by
  unfold checkNsecWildcardNodata at h
  split at h
  · cases h
  · rename_i rec hfind
    split at h
    · cases h
    · rename_i nsec hnsec
      split at h
      · cases h
      · rename_i hdenies
        split at h
        · rename_i hcovers
          cases h
          refine ⟨rfl, hcovers, rec, List.mem_of_find?_eq_some hfind, ?_, nsec, hnsec, ?_⟩
          · have hname := List.find?_some hfind
            exact Name.beq_iff_path.mp hname
          · simpa using hdenies
        · cases h

theorem checkNsecNxdomain_eq_some {P : Platform} {qname closest : Name} {records : List Record}
    {status : DnssecStatus} :
    checkNsecNxdomain P qname closest records = some status ↔
      status = .secure ∧ someNsecCovers records qname = true ∧
        someNsecCovers records (wildcardName P closest) = true := by
  unfold checkNsecNxdomain
  cases someNsecCovers records qname <;>
    cases someNsecCovers records (wildcardName P closest) <;> simp [eq_comm]

/-- The ways to the verdict `secure`: a NODATA proof at the name itself, or, when no record of the
name speaks, a wildcard NODATA or an NXDOMAIN proof at the closest encloser found. -/
theorem nsecVerdict_secure_iff {P : Platform} {qname : Name} {qtype : RecordType}
    {records : List Record} :
    nsecVerdict P qname qtype records = .secure ↔
      checkNsecNodata qname qtype records = some .secure ∨
        (checkNsecNodata qname qtype records = none ∧
          ∃ closest, findNsecClosestEncloser qname records = some closest ∧
            (checkNsecWildcardNodata P qname qtype closest records = some .secure ∨
              checkNsecNxdomain P qname closest records = some .secure)) := by
  unfold nsecVerdict
  cases hnodata : checkNsecNodata qname qtype records with
  | some status => simp
  | none =>
      cases hclosest : findNsecClosestEncloser qname records with
      | none => simp
      | some closest =>
          cases hwild : checkNsecWildcardNodata P qname qtype closest records with
          | some status => simp [(checkNsecWildcardNodata_eq_some hwild).1, hwild]
          | none =>
              cases hnx : checkNsecNxdomain P qname closest records with
              | some status => simp [(checkNsecNxdomain_eq_some.mp hnx).1, hwild, hnx]
              | none => simp [hwild, hnx]

/-- NSEC records never make a name insecure. -/
theorem nsecVerdict_secure_or_bogus (P : Platform) (qname : Name) (qtype : RecordType)
    (records : List Record) :
    nsecVerdict P qname qtype records = .secure ∨ nsecVerdict P qname qtype records = .bogus := by
  unfold nsecVerdict
  split
  · rename_i hnodata
    obtain ⟨-, -, -, -, -, ⟨hstatus, -⟩ | ⟨hstatus, -⟩⟩ := checkNsecNodata_eq_some hnodata <;>
      simp [hstatus]
  · split
    · simp
    · rename_i closest _
      split
      · rename_i hwild
        simp [(checkNsecWildcardNodata_eq_some hwild).1]
      · cases hnx : checkNsecNxdomain P qname closest records with
        | some status => simp [(checkNsecNxdomain_eq_some.mp hnx).1]
        | none => simp

end Dnssec
end UnifiedDns
