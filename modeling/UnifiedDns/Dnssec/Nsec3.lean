import UnifiedDns.Dnssec.Nsec

/-!
# NSEC3 denial of existence

The pure part of `validate_nsec3`: the hashed owner names, the matching and covering tests and the
three proofs.

* `base32hexDecode`, `nsec3OwnerHash`, `nsec3Hash`, `nsec3Covers` — the hash side.  The covering test
  of the source is closed at the left end, so a record covers its own hash (unless it is alone in
  the chain); `nsec3Covers_iff` says so.
* `findNsec3ClosestProvableEncloser` — starts at the query name itself.
* `checkNsec3Nodata`, `checkNsec3WildcardNodata`, `checkNsec3Nxdomain` and `nsec3Verdict`.
* `hashPath` — the same hash of a path; `nsec3ClosestEncloser_spec`, `nextCloser_spec` and the lemmas
  behind them say what each search and each check has found.
-/

namespace UnifiedDns
namespace Dnssec

/-- `u8::to_ascii_uppercase`. -/
def upperByte (b : Byte) : Byte :=
  if 97 ≤ b ∧ b ≤ 122 then b - 32 else b

/-- The position in the alphabet `0-9A-V`. -/
def base32hexValue (c : Byte) : Option Nat :=
  if 48 ≤ c ∧ c ≤ 57 then some (c.val - 48)
  else if 65 ≤ c ∧ c ≤ 86 then some (c.val - 55)
  else none

/-- The loop of `base32hex_decode`: the 64-bit accumulator and the number of bits not yet put out. -/
def base32hexDecodeFrom (bits bitCount : Nat) : Text → Option (List Byte)
  | [] => some []
  | c :: rest =>
      match base32hexValue (upperByte c) with
      | none => none
      | some val =>
          let bits := (bits * 32 + val) % 2 ^ 64
          let bitCount := bitCount + 5
          if 8 ≤ bitCount then
            (base32hexDecodeFrom bits (bitCount - 8) rest).map
              (Fin.ofNat 256 (bits / 2 ^ (bitCount - 8)) :: ·)
          else base32hexDecodeFrom bits bitCount rest

/-- `base32hex_decode`. -/
def base32hexDecode (s : Text) : Option (List Byte) := base32hexDecodeFrom 0 0 s

/-- `nsec3_owner_hash`. -/
def nsec3OwnerHash (P : Platform) (rec : Record) : Option (List Byte) :=
  let firstLabel := (trimEndDots (P.nameText rec.name)).takeWhile fun b => b != dot
  match base32hexDecode firstLabel with
  | none => none
  | some hash => if hash.length = 20 then some hash else none

/-- `nsec3_hash`. -/
def nsec3Hash (P : Platform) (name : Name) (salt : List Byte) (iterations : Nat) : List Byte :=
  (fun hash => P.sha1 (hash ++ salt))^[iterations] (P.sha1 (nameWire name.toLowercase ++ salt))

/-- The record's owner is the hash `h`. -/
def matchesHash (P : Platform) (h : List Byte) (rec : Record) : Bool :=
  decide (nsec3OwnerHash P rec = some h)

/-- `nsec3_covers`. -/
def nsec3Covers (P : Platform) (rec : Record) (targetHash : List Byte) : Bool :=
  match nsec3OwnerHash P rec with
  | none => false
  | some ownerHash =>
      match rec.nsec3? with
      | none => false
      | some n =>
          let nextHash := n.nextHashedOwnerName
          if ownerHash ≤ nextHash then
            decide (ownerHash ≤ targetHash) && decide (targetHash < nextHash)
          else decide (ownerHash ≤ targetHash) || decide (targetHash < nextHash)

/-- The loop of `find_nsec3_closest_provable_encloser`, with the steps that are left. -/
def findNsec3ClosestFrom (P : Platform) (records : List Record) (salt : List Byte)
    (iterations : Nat) : Nat → Name → Option Name
  | 0, _ => none
  | steps + 1, cur =>
      if records.any (matchesHash P (nsec3Hash P cur salt iterations)) then some cur
      else if cur.isRoot then none
      else findNsec3ClosestFrom P records salt iterations steps cur.baseName

/-- `find_nsec3_closest_provable_encloser`. -/
def findNsec3ClosestProvableEncloser (P : Platform) (qname : Name) (records : List Record)
    (salt : List Byte) (iterations : Nat) : Option Name :=
  findNsec3ClosestFrom P records salt iterations maxClosestEncloserSteps qname

/-- The loop of `check_nsec3_nodata` over the records whose owner is the hashed query name. -/
def checkNsec3NodataFrom (P : Platform) (hashedQname : List Byte) (qtype : RecordType) :
    List Record → Option DnssecStatus
  | [] => none
  | rec :: rest =>
      match if matchesHash P hashedQname rec then rec.nsec3? else none with
      | some n =>
          if qtype = .DS ∧ bitSet n.typeBitMaps .SOA = true then some .bogus
          else if bitmapDenies n.typeBitMaps qtype then some .secure
          else checkNsec3NodataFrom P hashedQname qtype rest
      | none => checkNsec3NodataFrom P hashedQname qtype rest

/-- `check_nsec3_nodata`. -/
def checkNsec3Nodata (P : Platform) (qname : Name) (qtype : RecordType) (records : List Record)
    (salt : List Byte) (iterations : Nat) : Option DnssecStatus :=
  checkNsec3NodataFrom P (nsec3Hash P qname salt iterations) qtype records

/-- `check_nsec3_wildcard_nodata`. -/
def checkNsec3WildcardNodata (P : Platform) (closest : Name) (qtype : RecordType)
    (records : List Record) (salt : List Byte) (iterations : Nat) : Option DnssecStatus :=
  let hashedWildcard := nsec3Hash P (wildcardName P closest) salt iterations
  match records.find? (matchesHash P hashedWildcard) with
  | none => none
  | some wildcardRec =>
      match wildcardRec.nsec3? with
      | none => none
      | some n => if !bitmapDenies n.typeBitMaps qtype then none else some .secure

/-- The loop of `check_nsec3_nxdomain` that walks up from the query name to the child of the closest
encloser; nothing when the root is passed. -/
def nextCloserFrom (closest : Name) : Nat → Name → Option Name
  | 0, _ => none
  | steps + 1, cur =>
      if cur.baseName == closest then some cur
      else if cur.baseName == cur then none
      else nextCloserFrom closest steps cur.baseName

/-- The next closer name of `qname` under `closest`. -/
def nextCloser (qname closest : Name) : Option Name :=
  nextCloserFrom closest (qname.labels.length + 1) qname

/-- `(n.flags() & 0x01) != 0`. -/
def optOut (n : NSEC3) : Bool := decide (n.flags &&& 1 ≠ 0)

/-- The Opt-Out flag of an NSEC3 record, false for any other. -/
def isOptOut (rec : Record) : Bool :=
  match rec.nsec3? with
  | some n => optOut n
  | none => false

/-- `check_nsec3_nxdomain`. -/
def checkNsec3Nxdomain (P : Platform) (qname closest : Name) (qtype : RecordType)
    (records : List Record) (salt : List Byte) (iterations : Nat) : Option DnssecStatus :=
  match nextCloser qname closest with
  | none => some .bogus
  | some next =>
      let hashedNext := nsec3Hash P next salt iterations
      match records.find? (nsec3Covers P · hashedNext) with
      | none => none
      | some coveringRec =>
          if isOptOut coveringRec = true ∧ qtype = .DS then some .insecureUnsigned
          else
            let hashedWildcard := nsec3Hash P (wildcardName P closest) salt iterations
            if !records.any (nsec3Covers P · hashedWildcard) then some .bogus
            else some .secure

/-- The closest encloser `validate_nsec3` works with: the provable one, and for a DS query without
one the parent of the query name. -/
def nsec3ClosestEncloser (P : Platform) (qname : Name) (qtype : RecordType)
    (records : List Record) (salt : List Byte) (iterations : Nat) : Option Name :=
  match findNsec3ClosestProvableEncloser P qname records salt iterations with
  | some closest => some closest
  | none => if qtype = .DS then some qname.baseName else none

/-- What `validate_nsec3` returns once the parameters have been compared and every signature has
verified. -/
def nsec3Verdict (P : Platform) (qname : Name) (qtype : RecordType) (records : List Record)
    (salt : List Byte) (iterations : Nat) : DnssecStatus :=
  match checkNsec3Nodata P qname qtype records salt iterations with
  | some status => status
  | none =>
      match nsec3ClosestEncloser P qname qtype records salt iterations with
      | none => .bogus
      | some closest =>
          if closest == qname then .bogus
          else
            match checkNsec3WildcardNodata P closest qtype records salt iterations with
            | some status => status
            | none =>
                (checkNsec3Nxdomain P qname closest qtype records salt iterations).getD .bogus

theorem matchesHash_iff {P : Platform} {h : List Byte} {rec : Record} :
    matchesHash P h rec = true ↔ nsec3OwnerHash P rec = some h := by
  simp [matchesHash]

/-- The covering test holds in the gap behind the owner hash, and at the owner hash itself unless
the record is alone in its chain. -/
theorem nsec3Covers_iff {P : Platform} {rec : Record} {target : List Byte} :
    nsec3Covers P rec target = true ↔
      ∃ owner n, nsec3OwnerHash P rec = some owner ∧ rec.nsec3? = some n ∧
        owner ≠ n.nextHashedOwnerName ∧
        (target = owner ∨ CyclicChain.InGap owner n.nextHashedOwnerName target) := by
  unfold nsec3Covers CyclicChain.InGap
  cases howner : nsec3OwnerHash P rec with
  | none => simp
  | some owner =>
      cases hn : rec.nsec3? with
      | none => simp
      | some n =>
          simp only [Option.some.injEq, exists_and_left, exists_eq_left']
          rcases lt_trichotomy owner n.nextHashedOwnerName with hlt | heq | hgt
          · rw [if_pos hlt.le, if_pos hlt]
            simp only [Bool.and_eq_true, decide_eq_true_eq]
            constructor
            · rintro ⟨hle, hnext⟩
              exact ⟨hlt.ne, (eq_or_lt_of_le hle).imp Eq.symm fun h => ⟨h, hnext⟩⟩
            · rintro ⟨-, rfl | ⟨habove, hnext⟩⟩
              · exact ⟨le_rfl, hlt⟩
              · exact ⟨habove.le, hnext⟩
          · simp only [heq, le_refl, if_true, Bool.and_eq_true, decide_eq_true_eq, ne_eq,
              not_true_eq_false, false_and, iff_false, not_and, not_lt, imp_self]
          · rw [if_neg (not_le.mpr hgt), if_neg (not_lt.mpr hgt.le)]
            simp only [Bool.or_eq_true, decide_eq_true_eq]
            constructor
            · rintro (hle | hnext)
              · exact ⟨hgt.ne', (eq_or_lt_of_le hle).imp Eq.symm Or.inl⟩
              · exact ⟨hgt.ne', Or.inr (Or.inr hnext)⟩
            · rintro ⟨-, rfl | habove | hnext⟩
              · exact Or.inl le_rfl
              · exact Or.inl habove.le
              · exact Or.inr hnext

/-! ### What the searches and checks find -/

/-- The wire form that is hashed for a name with this path. -/
def pathWire (p : Path) : List Byte := p.reverse.flatMap labelWire ++ [0]

/-- The NSEC3 hash of a path. -/
def hashPath (P : Platform) (salt : List Byte) (iterations : Nat) (p : Path) : List Byte :=
  (fun hash => P.sha1 (hash ++ salt))^[iterations] (P.sha1 (pathWire p ++ salt))

theorem nsec3Hash_eq_hashPath (P : Platform) (n : Name) (salt : List Byte) (iterations : Nat) :
    nsec3Hash P n salt iterations = hashPath P salt iterations n.path := by
  simp [nsec3Hash, hashPath, nameWire, pathWire, Name.path, Name.toLowercase]

variable {q : Name} {t : RecordType} {records : List Record}

/-- The search finds the nearest ancestor with a matching record: nothing between it and the start
matches. -/
theorem findNsec3ClosestFrom_some {P : Platform} {salt : List Byte} {iterations steps : Nat}
    {cur found : Name}
    (h : findNsec3ClosestFrom P records salt iterations steps cur = some found) :
    found.path <+: cur.path ∧
      (∃ rec ∈ records, matchesHash P (nsec3Hash P found salt iterations) rec = true) ∧
      ∀ m : Name, m.path <+: cur.path → found.path <+: m.path → m.path ≠ found.path →
        ∀ rec ∈ records, matchesHash P (nsec3Hash P m salt iterations) rec = false := by
  induction steps generalizing cur with
  | zero => cases h
  | succ steps ih =>
      simp only [findNsec3ClosestFrom] at h
      split at h
      · rename_i hany
        cases h
        refine ⟨List.prefix_rfl, List.any_eq_true.mp hany, ?_⟩
        intro m hm hfound hne
        exact absurd (hm.eq_of_length_le hfound.length_le) hne
      · rename_i hany
        split at h
        · cases h
        · obtain ⟨hpre, hmatch, hbetween⟩ := ih h
          refine ⟨hpre.trans (Name.path_baseName_isPrefix cur), hmatch, ?_⟩
          rw [Name.path_baseName] at hbetween
          intro m hm hfound hne rec hrec
          rcases Path.prefix_eq_or_dropLast hm with heq | hbase
          · have hnone := List.any_eq_false.mp (by simpa using hany) rec hrec
            rw [nsec3Hash_eq_hashPath, heq, ← nsec3Hash_eq_hashPath]
            simpa using hnone
          · exact hbetween m hbase hfound hne rec hrec

theorem findNsec3ClosestFrom_within {P : Platform} {salt : List Byte} {iterations steps : Nat}
    {cur found : Name}
    (h : findNsec3ClosestFrom P records salt iterations steps cur = some found) :
    cur.path.length < found.path.length + steps := by
  induction steps generalizing cur with
  | zero => cases h
  | succ steps ih =>
      simp only [findNsec3ClosestFrom] at h
      split at h
      · cases h
        omega
      · split at h
        · cases h
        · have hup := ih h
          rw [Name.path_baseName, List.length_dropLast] at hup
          omega

/-- What the search finds consists of the last labels of the name it started at. -/
theorem findNsec3ClosestFrom_suffix {P : Platform} {salt : List Byte} {iterations steps : Nat}
    {cur found : Name} (h : findNsec3ClosestFrom P records salt iterations steps cur = some found) :
    found.labels <:+ cur.labels := by
  induction steps generalizing cur with
  | zero => cases h
  | succ steps ih =>
      simp only [findNsec3ClosestFrom] at h
      split at h
      · cases h
        exact List.suffix_refl _
      · split at h
        · cases h
        · exact (ih h).trans (List.tail_suffix _)

/-- Within its steps the search finds an ancestor with a matching record. -/
theorem findNsec3ClosestFrom_isSome {P : Platform} {salt : List Byte} {iterations steps : Nat}
    {cur : Name} {p : Path} (hp : p <+: cur.path) (hsteps : cur.path.length < p.length + steps)
    (hmatch : ∃ rec ∈ records, matchesHash P (hashPath P salt iterations p) rec = true) :
    ∃ found, findNsec3ClosestFrom P records salt iterations steps cur = some found := by
  induction steps generalizing cur with
  | zero =>
      have hlen := hp.length_le
      omega
  | succ steps ih =>
      simp only [findNsec3ClosestFrom]
      split
      · exact ⟨cur, rfl⟩
      · rename_i hany
        rw [List.any_eq_true, nsec3Hash_eq_hashPath] at hany
        have hne : p ≠ cur.path := by
          rintro rfl
          exact hany hmatch
        have hup := (Path.prefix_eq_or_dropLast hp).resolve_left hne
        split
        · rename_i hroot
          rw [Name.isRoot_iff_path.mp hroot] at hp hne
          exact absurd (List.prefix_nil.mp hp) hne
        · refine ih ?_ ?_
          · rwa [Name.path_baseName]
          · have hpos := hp.length_le
            have hlt : p.length ≠ cur.path.length := fun heq => hne (hp.eq_of_length heq)
            rw [Name.path_baseName, List.length_dropLast]
            omega

/-- A search that finds nothing has at least looked at the start. -/
theorem findNsec3ClosestFrom_none {P : Platform} {salt : List Byte} {iterations steps : Nat}
    {cur : Name}
    (h : findNsec3ClosestFrom P records salt iterations (steps + 1) cur = none) :
    ∀ rec ∈ records, matchesHash P (nsec3Hash P cur salt iterations) rec = false := by
  simp only [findNsec3ClosestFrom] at h
  split at h
  · cases h
  · rename_i hany
    simpa using hany

/-- The closest encloser of `validate_nsec3` is an ancestor; it has a matching record or is the
parent of the query name; and whatever lies between it and the query name has no matching record. -/
theorem nsec3ClosestEncloser_spec {P : Platform} {salt : List Byte} {iterations : Nat}
    {closest : Name}
    (h : nsec3ClosestEncloser P q t records salt iterations = some closest)
    (hne : closest.path ≠ q.path) :
    closest.path <+: q.path ∧
      ((∃ rec ∈ records, matchesHash P (nsec3Hash P closest salt iterations) rec = true) ∨
        closest.path = q.path.dropLast) ∧
      ∀ m : Name, m.path <+: q.path → closest.path <+: m.path → m.path ≠ closest.path →
        ∀ rec ∈ records, matchesHash P (nsec3Hash P m salt iterations) rec = false := by
  unfold nsec3ClosestEncloser findNsec3ClosestProvableEncloser at h
  split at h
  · rename_i found hfind
    cases h
    obtain ⟨hpre, hmatch, hbetween⟩ := findNsec3ClosestFrom_some hfind
    exact ⟨hpre, Or.inl hmatch, hbetween⟩
  · rename_i hfind
    split at h
    · cases h
      refine ⟨Name.zoneOf_iff.mp (Name.baseName_zoneOf q), Or.inr (Name.path_baseName q), ?_⟩
      intro m hm hbase hmne rec hrec
      rw [Name.path_baseName] at hbase hmne
      rcases Path.prefix_eq_or_dropLast hm with heq | hdrop
      · rw [nsec3Hash_eq_hashPath, heq, ← nsec3Hash_eq_hashPath]
        exact findNsec3ClosestFrom_none hfind rec hrec
      · exact absurd (hdrop.eq_of_length_le hbase.length_le) hmne
    · cases h

theorem nsec3ClosestEncloser_suffix {P : Platform} {salt : List Byte} {iterations : Nat}
    {closest : Name} (h : nsec3ClosestEncloser P q t records salt iterations = some closest) :
    closest.labels <:+ q.labels := by
  unfold nsec3ClosestEncloser findNsec3ClosestProvableEncloser at h
  split at h
  · rename_i found hfind
    cases h
    exact findNsec3ClosestFrom_suffix hfind
  · split at h
    · cases h
      exact List.tail_suffix _
    · cases h

/-- For another type than DS, the closest encloser has a matching record. -/
theorem nsec3ClosestEncloser_matches {P : Platform} {salt : List Byte} {iterations : Nat}
    {closest : Name} (ht : t ≠ .DS)
    (h : nsec3ClosestEncloser P q t records salt iterations = some closest) :
    ∃ rec ∈ records, matchesHash P (nsec3Hash P closest salt iterations) rec = true := by
  unfold nsec3ClosestEncloser findNsec3ClosestProvableEncloser at h
  split at h
  · rename_i found hfind
    cases h
    exact (findNsec3ClosestFrom_some hfind).2.1
  · rw [if_neg ht] at h
    cases h

theorem nextCloserFrom_spec {closest cur next : Name} {steps : Nat}
    (h : nextCloserFrom closest steps cur = some next) (hcur : cur.path ≠ []) :
    next.path <+: cur.path ∧ next.path.dropLast = closest.path ∧ next.path ≠ [] := by
  induction steps generalizing cur with
  | zero => cases h
  | succ steps ih =>
      simp only [nextCloserFrom] at h
      split at h
      · rename_i hclosest
        cases h
        rw [Name.beq_iff_path, Name.path_baseName] at hclosest
        exact ⟨List.prefix_rfl, hclosest, hcur⟩
      · rename_i hclosest
        split at h
        · cases h
        · rename_i hroot
          by_cases hbase : cur.baseName.path = []
          · -- From the root the walk stops: its parent is itself and is not the closest encloser.
            exfalso
            cases steps with
            | zero => cases h
            | succ steps =>
                simp only [nextCloserFrom] at h
                have hup : cur.baseName.baseName.path = cur.baseName.path := by
                  rw [Name.path_baseName, hbase]
                  rfl
                split at h
                · rename_i hagain
                  rw [Name.beq_iff_path, hup] at hagain
                  exact hclosest (Name.beq_iff_path.mpr hagain)
                · split at h
                  · cases h
                  · rename_i hself
                    exact hself (Name.beq_iff_path.mpr hup)
          · obtain ⟨hpre, hdrop, hne⟩ := ih h hbase
            exact ⟨hpre.trans (Name.path_baseName_isPrefix cur), hdrop, hne⟩

/-- The walk to the next closer name always stops below a proper ancestor, one label under it. -/
theorem nextCloser_spec {q closest next : Name} (h : nextCloser q closest = some next)
    (hpre : closest.path <+: q.path) (hne : closest.path ≠ q.path) :
    next.path <+: q.path ∧ next.path.dropLast = closest.path ∧ next.path ≠ closest.path := by
  have hq : q.path ≠ [] := by
    intro hroot
    rw [hroot] at hpre hne
    exact hne (List.prefix_nil.mp hpre)
  obtain ⟨hnext, hdrop, hnonempty⟩ := nextCloserFrom_spec h hq
  refine ⟨hnext, hdrop, ?_⟩
  intro heq
  have hlen := congrArg List.length (heq.trans hdrop.symm)
  rw [List.length_dropLast] at hlen
  have hpos := List.length_pos_iff.mpr hnonempty
  omega

/-- A verdict of the NODATA loop comes from a matching record. -/
theorem checkNsec3NodataFrom_eq_some {P : Platform} {hash : List Byte} {status : DnssecStatus}
    (h : checkNsec3NodataFrom P hash t records = some status) :
    ∃ rec ∈ records, matchesHash P hash rec = true ∧ ∃ n, rec.nsec3? = some n ∧
      ((status = .bogus ∧ t = .DS ∧ RecordType.SOA ∈ n.typeBitMaps) ∨
        (status = .secure ∧ ¬ (t = .DS ∧ RecordType.SOA ∈ n.typeBitMaps) ∧
          bitmapDenies n.typeBitMaps t = true)) := by
  induction records with
  | nil => cases h
  | cons rec rest ih =>
      have hrest : checkNsec3NodataFrom P hash t rest = some status →
          ∃ rec' ∈ rec :: rest, matchesHash P hash rec' = true ∧ ∃ n, rec'.nsec3? = some n ∧
            ((status = .bogus ∧ t = .DS ∧ RecordType.SOA ∈ n.typeBitMaps) ∨
              (status = .secure ∧ ¬ (t = .DS ∧ RecordType.SOA ∈ n.typeBitMaps) ∧
                bitmapDenies n.typeBitMaps t = true)) := by
        intro htail
        obtain ⟨rec', hrec', hfound⟩ := ih htail
        exact ⟨rec', List.mem_cons_of_mem _ hrec', hfound⟩
      simp only [checkNsec3NodataFrom] at h
      split at h
      · rename_i n hn
        split at hn
        · rename_i hmatch
          simp only [bitSet_iff] at h
          split at h
          · rename_i hsoa
            cases h
            exact ⟨rec, List.mem_cons_self, hmatch, n, hn, Or.inl ⟨rfl, hsoa⟩⟩
          · rename_i hsoa
            split at h
            · rename_i hdenies
              cases h
              exact ⟨rec, List.mem_cons_self, hmatch, n, hn, Or.inr ⟨rfl, hsoa, hdenies⟩⟩
            · exact hrest h
        · cases hn
      · exact hrest h

/-- The NODATA loop is silent only if no matching record denies the type. -/
theorem checkNsec3NodataFrom_eq_none {P : Platform} {hash : List Byte}
    (h : checkNsec3NodataFrom P hash t records = none) :
    ∀ rec ∈ records, matchesHash P hash rec = true → ∀ n, rec.nsec3? = some n →
      ¬ (t = .DS ∧ RecordType.SOA ∈ n.typeBitMaps) ∧ bitmapDenies n.typeBitMaps t = false := by
  induction records with
  | nil => simp
  | cons rec rest ih =>
      simp only [checkNsec3NodataFrom] at h
      intro rec' hrec' hmatch n hn
      rcases List.mem_cons.mp hrec' with rfl | htail
      · rw [if_pos hmatch, hn] at h
        simp only [bitSet_iff] at h
        split at h
        · cases h
        · rename_i hsoa
          split at h
          · cases h
          · rename_i hdenies
            exact ⟨hsoa, by simpa using hdenies⟩
      · refine ih ?_ rec' htail hmatch n hn
        split at h
        · split at h
          · cases h
          · split at h
            · cases h
            · exact h
        · exact h

/-- The wildcard NODATA check never says anything but `secure`. -/
theorem checkNsec3WildcardNodata_eq_some {P : Platform} {closest : Name} {salt : List Byte}
    {iterations : Nat} {status : DnssecStatus}
    (h : checkNsec3WildcardNodata P closest t records salt iterations = some status) :
    status = .secure ∧ ∃ rec ∈ records,
      matchesHash P (nsec3Hash P (wildcardName P closest) salt iterations) rec = true ∧
        ∃ n, rec.nsec3? = some n ∧ bitmapDenies n.typeBitMaps t = true := by
  simp only [checkNsec3WildcardNodata] at h
  split at h
  · cases h
  · rename_i rec hfind
    split at h
    · cases h
    · rename_i n hn
      split at h
      · cases h
      · rename_i hdenies
        cases h
        have hmatch := List.find?_some hfind
        exact ⟨rfl, rec, List.mem_of_find?_eq_some hfind, hmatch, n, hn, by simpa using hdenies⟩

/-- The wildcard NODATA check fires when the first record of the wildcard denies the type. -/
theorem checkNsec3WildcardNodata_eq_secure_iff {P : Platform} {closest : Name} {salt : List Byte}
    {iterations : Nat} :
    checkNsec3WildcardNodata P closest t records salt iterations = some .secure ↔
      ∃ rec n, records.find? (matchesHash P
          (nsec3Hash P (wildcardName P closest) salt iterations)) = some rec ∧
        rec.nsec3? = some n ∧ bitmapDenies n.typeBitMaps t = true := by
  simp only [checkNsec3WildcardNodata]
  cases hfind : records.find?
      (matchesHash P (nsec3Hash P (wildcardName P closest) salt iterations)) with
  | none => simp
  | some rec =>
      cases hn : rec.nsec3? with
      | none => simp [hn]
      | some n => simp [hn]

/-- Where Opt-Out does not matter, the NXDOMAIN check fires `secure` exactly when both names are
covered. -/
theorem checkNsec3Nxdomain_eq_secure_iff {P : Platform} {closest : Name} {salt : List Byte}
    {iterations : Nat} (hopt : ∀ rec ∈ records, isOptOut rec = true → t ≠ .DS) :
    checkNsec3Nxdomain P q closest t records salt iterations = some .secure ↔
      ∃ next, nextCloser q closest = some next ∧
        (∃ rec ∈ records, nsec3Covers P rec (nsec3Hash P next salt iterations) = true) ∧
        ∃ rec ∈ records,
          nsec3Covers P rec (nsec3Hash P (wildcardName P closest) salt iterations) = true := by
  simp only [checkNsec3Nxdomain]
  cases hnext : nextCloser q closest with
  | none => simp
  | some next =>
      simp only [Option.some.injEq, exists_eq_left']
      cases hfind : records.find? fun rec =>
          nsec3Covers P rec (nsec3Hash P next salt iterations) with
      | none =>
          have hnone := List.find?_eq_none.mp hfind
          constructor
          · intro h
            cases h
          · rintro ⟨⟨rec, hrec, hcovers⟩, -⟩
            exact absurd hcovers (hnone rec hrec)
      | some rec =>
          have hrec := List.mem_of_find?_eq_some hfind
          have hcovers := List.find?_some hfind
          -- The early exit for a DS query is not taken.
          have hearly : ¬ (isOptOut rec = true ∧ t = .DS) := fun h => hopt rec hrec h.1 h.2
          simp only [if_neg hearly]
          split
          · rename_i hwild
            rw [Bool.not_eq_true', ← Bool.not_eq_true, List.any_eq_true] at hwild
            constructor
            · intro h
              cases h
            · rintro ⟨-, hany⟩
              exact absurd hany hwild
          · rename_i hwild
            rw [Bool.not_eq_true, Bool.not_eq_false', List.any_eq_true] at hwild
            exact ⟨fun _ => ⟨⟨rec, hrec, hcovers⟩, hwild⟩, fun _ => rfl⟩

/-- When the closest encloser is a proper ancestor, the NODATA check is silent. -/
theorem checkNsec3Nodata_of_closest {P : Platform} {closest : Name} {salt : List Byte}
    {iterations : Nat}
    (hclosest : nsec3ClosestEncloser P q t records salt iterations = some closest)
    (hne : closest.path ≠ q.path) : checkNsec3Nodata P q t records salt iterations = none := by
  obtain ⟨hpre, -, hbetween⟩ := nsec3ClosestEncloser_spec hclosest hne
  cases hcheck : checkNsec3Nodata P q t records salt iterations with
  | none => rfl
  | some status =>
      obtain ⟨rec, hrec, hmatch, -⟩ := checkNsec3NodataFrom_eq_some hcheck
      have hsilent := hbetween q List.prefix_rfl hpre hne.symm rec hrec
      rw [hmatch] at hsilent
      cases hsilent

/-- Below a closest encloser that is a proper ancestor, only the wildcard and NXDOMAIN checks are
left. -/
theorem nsec3Verdict_secure_iff_of_closest {P : Platform} {closest : Name} {salt : List Byte}
    {iterations : Nat}
    (hclosest : nsec3ClosestEncloser P q t records salt iterations = some closest)
    (hne : closest.path ≠ q.path) :
    nsec3Verdict P q t records salt iterations = .secure ↔
      checkNsec3WildcardNodata P closest t records salt iterations = some .secure ∨
        checkNsec3Nxdomain P q closest t records salt iterations = some .secure := by
  have hnodata := checkNsec3Nodata_of_closest hclosest hne
  have hbeq : (closest == q) = false := Name.beq_eq_false_iff.mpr hne
  simp only [nsec3Verdict, hnodata, hclosest, hbeq, Bool.false_eq_true, if_false]
  cases hwild : checkNsec3WildcardNodata P closest t records salt iterations with
  | some status => simp [(checkNsec3WildcardNodata_eq_some hwild).1]
  | none => cases checkNsec3Nxdomain P q closest t records salt iterations <;> simp

/-- The ways to the verdict `secure`: a NODATA proof at the name itself, or one of the two other
proofs below a closest encloser that is a proper ancestor. -/
theorem nsec3Verdict_secure_iff {P : Platform} {salt : List Byte} {iterations : Nat} :
    nsec3Verdict P q t records salt iterations = .secure ↔
      checkNsec3Nodata P q t records salt iterations = some .secure ∨
        ∃ closest, nsec3ClosestEncloser P q t records salt iterations = some closest ∧
          closest.path ≠ q.path ∧
          (checkNsec3WildcardNodata P closest t records salt iterations = some .secure ∨
            checkNsec3Nxdomain P q closest t records salt iterations = some .secure) := by
  constructor
  · intro h
    cases hnodata : checkNsec3Nodata P q t records salt iterations with
    | some status =>
        simp only [nsec3Verdict, hnodata] at h
        exact Or.inl (by rw [h])
    | none =>
        right
        cases hclosest : nsec3ClosestEncloser P q t records salt iterations with
        | none => simp [nsec3Verdict, hnodata, hclosest] at h
        | some closest =>
            by_cases hne : closest.path = q.path
            · simp [nsec3Verdict, hnodata, hclosest, Name.beq_iff_path.mpr hne] at h
            · exact ⟨closest, rfl, hne, (nsec3Verdict_secure_iff_of_closest hclosest hne).mp h⟩
  · rintro (hnodata | ⟨closest, hclosest, hne, h⟩)
    · simp [nsec3Verdict, hnodata]
    · exact (nsec3Verdict_secure_iff_of_closest hclosest hne).mpr h

/-- The walk up from below a proper ancestor reaches the child of that ancestor. -/
theorem nextCloserFrom_isSome {closest cur : Name} {steps : Nat}
    (hpre : closest.path <+: cur.path) (hne : closest.path ≠ cur.path)
    (hsteps : cur.path.length ≤ steps) :
    ∃ next, nextCloserFrom closest steps cur = some next := by
  induction steps generalizing cur with
  | zero =>
      have hnil := List.eq_nil_of_length_eq_zero (Nat.le_zero.mp hsteps)
      rw [hnil] at hpre hne
      exact absurd (List.prefix_nil.mp hpre) hne
  | succ steps ih =>
      simp only [nextCloserFrom]
      split
      · exact ⟨cur, rfl⟩
      · rename_i hclosest
        rw [Name.beq_iff_path, Name.path_baseName] at hclosest
        have hup : closest.path <+: cur.baseName.path := by
          rw [Name.path_baseName]
          exact (Path.prefix_eq_or_dropLast hpre).resolve_left hne
        have hlen : cur.baseName.path.length ≤ steps := by
          rw [Name.path_baseName, List.length_dropLast]
          omega
        split
        · rename_i hroot
          -- Only the root is its own parent, and no proper ancestor stands above the root.
          rw [Name.beq_iff_path, Name.path_baseName] at hroot
          have hzero := congrArg List.length hroot
          rw [List.length_dropLast] at hzero
          have hnil : cur.path = [] := List.eq_nil_of_length_eq_zero (by omega)
          rw [hnil] at hpre hne
          exact absurd (List.prefix_nil.mp hpre) hne
        · refine ih hup ?_ hlen
          rw [Name.path_baseName]
          exact fun heq => hclosest heq.symm

theorem nextCloser_isSome {closest : Name} (hpre : closest.path <+: q.path)
    (hne : closest.path ≠ q.path) : ∃ next, nextCloser q closest = some next := by
  refine nextCloserFrom_isSome hpre hne ?_
  rw [Name.length_path]
  omega

end Dnssec
end UnifiedDns
