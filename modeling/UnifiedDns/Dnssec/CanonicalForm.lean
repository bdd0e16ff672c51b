import UnifiedDns.Dnssec.SignedData
import UnifiedDns.Dnssec.TrustChain

/-!
# The canonical form of an RRset

Section 6 of RFC 4034 makes of an RRset one sequence of octets, whatever the order of its records, their
received TTLs, the letter case of their owner and how often each of them arrived.  `build_tbs` sorts
the records by canonical RDATA and puts the signed owner and the Original TTL in each.

* `SignableSet`, `rdatas` — the records a signature is about, and their canonical RDATA.
* `CanonicalSignedData` — the octets the RFC prescribes, each distinct RDATA once.
* `buildTbs_eq` — what the function puts together.
* `signedRecord_read`, `flatMap_signedRecord_inj` — records are read back from the octets.
* `signedOwner_eq_rfcOwner_iff` — the function signs the right owner when the wildcard that is printed is read
  back.
* `buildTbs_canonical_iff` — the octets are canonical unless a record is repeated or the wildcard is not read
  back.
* `buildTbs_setOnly_iff` — the same for two lists that hold one RRset.
-/

namespace UnifiedDns
namespace Dnssec

/-- The records a signature is about: of the covered type and one class, at the owner up to case, each
with an RDATA that can be emitted. -/
structure SignableSet (P : Platform) (rrsig : RRSIG) (dnsClass : DnsClass) (owner : Name)
    (records : List Record) : Prop where
  nonempty : records ≠ []
  covered : ∀ r ∈ records, r.recordType = rrsig.typeCovered ∧ r.dnsClass = dnsClass ∧
    r.name.path = owner.path
  emitted : ∀ r ∈ records, ∃ rdata, P.rdataWire r.data = some rdata

/-- The canonical RDATA of the records, in their order. -/
def rdatas (P : Platform) (records : List Record) : List (List Byte) :=
  records.filterMap fun r => P.rdataWire r.data

/-- A wildcard above an owner is no longer than the owner. -/
theorem validLabels_star {owner : Name} {count : Nat} (h : count < owner.labels.length) :
    ValidLabels (Name.starLabel :: (owner.trimTo count).labels) := by
  refine ⟨?_, ?_⟩
  · intro l hl
    rcases List.mem_cons.mp hl with rfl | hl
    · decide
    · exact (owner.trimTo count).valid.1 l hl
  · have howner := owner.valid.2
    obtain ⟨front, hfront⟩ : (owner.trimTo count).labels <:+ owner.labels := List.drop_suffix _ _
    have hlength := congrArg List.length hfront
    simp only [Name.trimTo, List.length_append, List.length_drop] at hlength
    -- At least one label is cut off, and it has at least one octet.
    cases front with
    | nil =>
        rw [List.length_nil] at hlength
        omega
    | cons l front =>
        have hl : l ∈ owner.labels := by
          rw [← hfront]
          exact List.mem_append_left _ List.mem_cons_self
        have hlabel := (owner.valid.1 l hl).1
        rw [← hfront] at howner
        simp only [wireLength, List.cons_append, List.map_cons, List.map_append, List.sum_cons,
          List.sum_append, Name.starLabel, List.length_singleton] at howner ⊢
        omega

/-- The owner the signature is over: the owner, or the wildcard at the closest encloser when the RRSIG
has fewer labels. -/
def rfcOwner (rrsig : RRSIG) (owner : Name) : Name :=
  if h : rrsig.numLabels.val < owner.numLabels then
    ⟨Name.starLabel :: (owner.trimTo rrsig.numLabels.val).labels,
      validLabels_star (h.trans_le (owner.length_path ▸ owner.numLabels_le_length))⟩
  else owner

/-- One record of the signed data. -/
def signedRecord (rrsig : RRSIG) (dnsClass : DnsClass) (canonicalOwner : Name)
    (rdata : List Byte) : List Byte :=
  nameWire canonicalOwner ++ be16 rrsig.typeCovered.code.toNat ++ be16 dnsClass.code.toNat ++
    be32 rrsig.originalTtl.toNat ++ be16 rdata.length ++ rdata

/-- The signed data of section 6: the RRSIG fields without the signature, then each distinct record
once in the order of its canonical RDATA. -/
def CanonicalSignedData (P : Platform) (rrsig : RRSIG) (dnsClass : DnsClass) (owner : Name)
    (records : List Record) (tbs : List Byte) : Prop :=
  ∃ sorted : List (List Byte), sorted.SortedLT ∧
    (∀ rdata, rdata ∈ sorted ↔ rdata ∈ rdatas P records) ∧
    tbs = rrsigHeader rrsig ++
      sorted.flatMap (signedRecord rrsig dnsClass (rfcOwner rrsig owner).toLowercase)

/-- The owner that is signed is read back, when it is a wildcard. -/
def OwnerReadsBack (P : Platform) (rrsig : RRSIG) (owner : Name) : Prop :=
  rrsig.numLabels.val < owner.numLabels → ReadsBack P owner rrsig.numLabels.val

section Owner

variable {P : Platform} {rrsig : RRSIG} {owner : Name}

theorem path_rfcOwner : (rfcOwner rrsig owner).path =
    if rrsig.numLabels.val < owner.numLabels then
      owner.path.take rrsig.numLabels.val ++ [Name.starLabel]
    else owner.path := by
  have hstar : lowerLabel Name.starLabel = Name.starLabel := Name.lowerLabel_eq_star.mpr rfl
  unfold rfcOwner
  split
  · rw [← Name.path_trimTo]
    simp [Name.path, hstar]
  · rfl

/-- The signed owner does not depend on letter case. -/
theorem rfcOwner_congr {owner' : Name} (h : owner.path = owner'.path) :
    (rfcOwner rrsig owner).toLowercase = (rfcOwner rrsig owner').toLowercase := by
  refine Name.toLowercase_congr ?_
  rw [path_rfcOwner, path_rfcOwner, h, Name.numLabels_congr h]

theorem numLabels_rfcOwner (h : rrsig.numLabels.val < owner.numLabels) :
    (rfcOwner rrsig owner).numLabels = rrsig.numLabels.val := by
  have hlength : rrsig.numLabels.val < owner.labels.length :=
    h.trans_le (owner.length_path ▸ owner.numLabels_le_length)
  rw [rfcOwner, dif_pos h]
  simp only [Name.numLabels, if_true, Name.trimTo, List.length_drop]
  omega

/-- The function signs the right owner exactly when the wildcard is read back. -/
theorem signedOwner_eq_rfcOwner_iff :
    (signedOwner P rrsig owner).toLowercase = (rfcOwner rrsig owner).toLowercase ↔
      OwnerReadsBack P rrsig owner := by
  unfold OwnerReadsBack
  by_cases hfewer : rrsig.numLabels.val < owner.numLabels
  · rw [signedOwner_of_lt hfewer, imp_iff_right hfewer]
    constructor
    · intro hsame
      have hpath := congrArg Name.path hsame
      rw [Name.path_toLowercase, Name.path_toLowercase] at hpath
      cases hread : readWildcard P owner rrsig.numLabels.val with
      | none =>
          -- What is not read leaves the owner, which has more labels than the wildcard.
          rw [hread, Option.getD_none] at hpath
          have hcount := Name.numLabels_congr hpath
          rw [numLabels_rfcOwner hfewer] at hcount
          exact absurd hcount.symm hfewer.ne
      | some wildcard =>
          rw [hread, Option.getD_some, path_rfcOwner, if_pos hfewer] at hpath
          exact ⟨wildcard, hread, hpath⟩
    · rintro ⟨wildcard, hread, hpath⟩
      rw [hread, Option.getD_some]
      refine Name.toLowercase_congr ?_
      rw [hpath, path_rfcOwner, if_pos hfewer]
  · have howner : signedOwner P rrsig owner = rfcOwner rrsig owner := by
      rw [signedOwner_of_le (Nat.not_lt.mp hfewer), rfcOwner, dif_neg hfewer]
    rw [howner]
    exact iff_of_true rfl fun h => absurd h hfewer

end Owner

section Octets

variable {rrsig : RRSIG} {dnsClass : DnsClass}

/-- A record is read back from its octets. -/
theorem signedRecord_read {owner owner' : Name} {rdata rdata' u v : List Byte}
    (hfits : rdata.length < 65536) (hfits' : rdata'.length < 65536)
    (h : signedRecord rrsig dnsClass owner rdata ++ u = signedRecord rrsig dnsClass owner' rdata' ++ v) :
    owner = owner' ∧ rdata = rdata' ∧ u = v := by
  obtain ⟨hrecord, hrest⟩ := WireRecord.wire_prefixCode
    (owner, rrsig.typeCovered.code, dnsClass.code, rrsig.originalTtl, ⟨rdata, hfits⟩)
    (owner', rrsig.typeCovered.code, dnsClass.code, rrsig.originalTtl, ⟨rdata', hfits'⟩) u v
    (by simpa [WireRecord.wire, signedRecord] using h)
  simp only [Prod.mk.injEq, Subtype.mk.injEq, true_and] at hrecord
  exact ⟨hrecord.1, hrecord.2, hrest⟩

theorem signedRecord_ne_nil (owner : Name) (rdata : List Byte) :
    signedRecord rrsig dnsClass owner rdata ≠ [] := by
  simp [signedRecord, nameWire]

/-- Sequences of records are read back, and so is the owner of the first. -/
theorem flatMap_signedRecord_inj {owner owner' : Name} {xs ys : List (List Byte)}
    (hxs : ∀ rdata ∈ xs, rdata.length < 65536) (hys : ∀ rdata ∈ ys, rdata.length < 65536)
    (h : xs.flatMap (signedRecord rrsig dnsClass owner) =
      ys.flatMap (signedRecord rrsig dnsClass owner')) :
    xs = ys ∧ (xs ≠ [] → owner = owner') := by
  induction xs generalizing ys with
  | nil =>
      cases ys with
      | nil => exact ⟨rfl, fun hne => absurd rfl hne⟩
      | cons y ys =>
          rw [List.flatMap_nil, List.flatMap_cons] at h
          exact absurd (List.append_eq_nil_iff.mp h.symm).1 (signedRecord_ne_nil owner' y)
  | cons x xs ih =>
      cases ys with
      | nil =>
          rw [List.flatMap_nil, List.flatMap_cons] at h
          exact absurd (List.append_eq_nil_iff.mp h).1 (signedRecord_ne_nil owner x)
      | cons y ys =>
          obtain ⟨hx, hxs⟩ := List.forall_mem_cons.mp hxs
          obtain ⟨hy, hys⟩ := List.forall_mem_cons.mp hys
          rw [List.flatMap_cons, List.flatMap_cons] at h
          obtain ⟨howner, hrdata, hrest⟩ := signedRecord_read hx hy h
          obtain ⟨htail, -⟩ := ih hxs hys hrest
          exact ⟨by rw [hrdata, htail], fun _ => howner⟩

end Octets

section SignedSet

variable {P : Platform} {rrsig : RRSIG} {dnsClass : DnsClass} {owner : Name} {records : List Record}

theorem mem_rdatas {rdata : List Byte} :
    rdata ∈ rdatas P records ↔ ∃ r ∈ records, P.rdataWire r.data = some rdata :=
  List.mem_filterMap

theorem length_of_mem_rdatas (hfits : RdataFits P) {rdata : List Byte}
    (h : rdata ∈ rdatas P records) : rdata.length < 65536 := by
  obtain ⟨r, -, hrdata⟩ := mem_rdatas.mp h
  exact hfits r.data rdata hrdata

theorem SignableSet.rdatas_ne_nil (h : SignableSet P rrsig dnsClass owner records) :
    rdatas P records ≠ [] := by
  obtain ⟨first, rest, hrecords⟩ := List.exists_cons_of_ne_nil h.nonempty
  have hmem : first ∈ records := hrecords ▸ List.mem_cons_self
  obtain ⟨rdata, hrdata⟩ := h.emitted first hmem
  exact List.ne_nil_of_mem (mem_rdatas.mpr ⟨first, hmem, hrdata⟩)

/-- The entries of records of one type and class. -/
theorem canonicalEntries_eq {canonicalOwner : Name}
    (hcovered : ∀ r ∈ records, r.recordType = rrsig.typeCovered ∧ r.dnsClass = dnsClass)
    (hemitted : ∀ r ∈ records, ∃ rdata, P.rdataWire r.data = some rdata) :
    canonicalEntries P rrsig canonicalOwner records =
      some ((rdatas P records).map fun rdata =>
        (rdata, signedRecord rrsig dnsClass canonicalOwner rdata)) := by
  induction records with
  | nil => rfl
  | cons rec rest ih =>
      obtain ⟨⟨htype, hclass⟩, hcovered⟩ := List.forall_mem_cons.mp hcovered
      obtain ⟨⟨rdata, hrdata⟩, hemitted⟩ := List.forall_mem_cons.mp hemitted
      simp only [canonicalEntries, hrdata, ih hcovered hemitted, rdatas, List.filterMap_cons,
        List.map_cons, canonicalRecord, signedRecord, htype, hclass]

/-- The function puts the records in the order of their canonical RDATA. -/
theorem buildTbs_eq (h : SignableSet P rrsig dnsClass owner records) :
    buildTbs P rrsig owner records = some (rrsigHeader rrsig ++
      ((rdatas P records).insertionSort (· ≤ ·)).flatMap
        (signedRecord rrsig dnsClass (signedOwner P rrsig owner).toLowercase)) := by
  obtain ⟨first, rest, rfl⟩ := List.exists_cons_of_ne_nil h.nonempty
  have hclass := (h.covered first List.mem_cons_self).2.1
  have hall : ((first :: rest).all fun rec =>
      decide (rec.recordType = rrsig.typeCovered) &&
        decide (rec.dnsClass = first.dnsClass) && rec.name == owner) = true := by
    refine List.all_eq_true.mpr fun rec hrec => ?_
    obtain ⟨htype, hrecClass, hpath⟩ := h.covered rec hrec
    simp only [Bool.and_eq_true, decide_eq_true_eq, Name.beq_iff_path]
    exact ⟨⟨htype, hrecClass.trans hclass.symm⟩, hpath⟩
  have hentries := @canonicalEntries_eq P rrsig dnsClass (first :: rest)
    (signedOwner P rrsig owner).toLowercase
    (fun r hr => ⟨(h.covered r hr).1, (h.covered r hr).2.1⟩) h.emitted
  rw [buildTbs, if_pos hall, hentries]
  simp only [Option.some.injEq, List.append_cancel_left_eq]
  -- Sorting the entries by RDATA is sorting the RDATA.
  rw [← List.map_insertionSort (fun a b : List Byte => a ≤ b)
    (fun a b : List Byte × List Byte => a.1 ≤ b.1)
    (fun rdata => (rdata, signedRecord rrsig dnsClass (signedOwner P rrsig owner).toLowercase rdata))
    (rdatas P (first :: rest)) fun _ _ _ _ => Iff.rfl, List.flatMap_map]

/-- The octets are canonical unless a record is repeated or a wildcard was not read back. -/
theorem buildTbs_canonical_iff (hfits : RdataFits P) (h : SignableSet P rrsig dnsClass owner records) :
    (∃ tbs, buildTbs P rrsig owner records = some tbs ∧
        CanonicalSignedData P rrsig dnsClass owner records tbs) ↔
      (rdatas P records).Nodup ∧ OwnerReadsBack P rrsig owner := by
  have hsort := List.sortedLE_insertionSort (l := rdatas P records)
  have hperm := List.perm_insertionSort (· ≤ ·) (rdatas P records)
  rw [buildTbs_eq h]
  constructor
  · rintro ⟨tbs, htbs, sorted, hsorted, hmem, hlayout⟩
    cases htbs
    have hsame := List.append_cancel_left hlayout
    -- Read back, the sorted list is the one without repetitions.
    obtain ⟨hlist, howner⟩ := flatMap_signedRecord_inj
      (fun rdata hrdata => length_of_mem_rdatas hfits (hperm.mem_iff.mp hrdata))
      (fun rdata hrdata => length_of_mem_rdatas hfits ((hmem rdata).mp hrdata)) hsame
    refine ⟨?_, ?_⟩
    · rw [← hperm.nodup_iff, hlist]
      exact hsorted.nodup
    · have hne : (rdatas P records).insertionSort (· ≤ ·) ≠ [] := by
        intro hnil
        rw [hnil] at hperm
        exact h.rdatas_ne_nil hperm.symm.eq_nil
      exact signedOwner_eq_rfcOwner_iff.mp (howner hne)
  · rintro ⟨hnodup, hreads⟩
    refine ⟨_, rfl, _, hsort.sortedLT_of_nodup (hperm.nodup_iff.mpr hnodup),
      fun rdata => hperm.mem_iff, ?_⟩
    rw [signedOwner_eq_rfcOwner_iff.mpr hreads]

/-- The canonical octets depend on the set of RDATA and the owner up to case. -/
theorem CanonicalSignedData.congr {owner' : Name} {records' : List Record} {tbs : List Byte}
    (hpath : owner.path = owner'.path)
    (hsame : ∀ rdata, rdata ∈ rdatas P records ↔ rdata ∈ rdatas P records')
    (h : CanonicalSignedData P rrsig dnsClass owner records tbs) :
    CanonicalSignedData P rrsig dnsClass owner' records' tbs := by
  obtain ⟨sorted, hsorted, hmem, hlayout⟩ := h
  refine ⟨sorted, hsorted, fun rdata => (hmem rdata).trans (hsame rdata), ?_⟩
  rw [hlayout, rfcOwner_congr hpath]

theorem CanonicalSignedData.unique {tbs tbs' : List Byte}
    (h : CanonicalSignedData P rrsig dnsClass owner records tbs)
    (h' : CanonicalSignedData P rrsig dnsClass owner records tbs') : tbs = tbs' := by
  obtain ⟨sorted, hsorted, hmem, hlayout⟩ := h
  obtain ⟨sorted', hsorted', hmem', hlayout'⟩ := h'
  have hlist := hsorted.eq_of_mem_iff hsorted' fun rdata => (hmem rdata).trans (hmem' rdata).symm
  rw [hlayout, hlayout', hlist]

end SignedSet

/-- Two lists that hold one RRset give the same octets, and those are the canonical ones. -/
structure SetOnly (P : Platform) (rrsig : RRSIG) (dnsClass : DnsClass) (owner owner' : Name)
    (records records' : List Record) : Prop where
  same : buildTbs P rrsig owner records = buildTbs P rrsig owner' records'
  canonical : ∃ tbs, buildTbs P rrsig owner records = some tbs ∧
    CanonicalSignedData P rrsig dnsClass owner records tbs

theorem length_flatMap_labelWire (labels : List Label) :
    (labels.flatMap labelWire).length + 1 = wireLength labels := by
  have hsum : (labels.flatMap labelWire).length = (labels.map fun l => l.length + 1).sum := by
    induction labels with
    | nil => rfl
    | cons l labels ih => rw [List.flatMap_cons, List.length_append, ih]; rfl
  rw [hsum, wireLength]

theorem plain_rdataFits : RdataFits .plain := by
  intro data rdata h
  simp only [Platform.plain] at h
  split at h
  · rename_i target
    cases h
    have hlength : (target.labels.flatMap labelWire).length + 1 ≤ 255 :=
      (length_flatMap_labelWire _).trans_le target.valid.2
    exact Nat.lt_of_lt_of_le (Nat.lt_of_succ_le hlength) (by decide)
  · cases h
    simp
  · cases h
    decide

/-- A signature over the addresses of a name of one label. -/
def addressRrsig (numLabels : Byte) : RRSIG :=
  ⟨.A, 8, numLabels, 300, 100, 0, 1289, .root, [1]⟩

/-- An address of a name of one letter. -/
def letterAddress (letter last : Byte) (ttl : Nat) : Record :=
  ⟨topName letter, .IN, ttl, .a ⟨192, 0, 2, last⟩⟩

theorem letterAddresses_signable (numLabels letter : Byte) {records : List Record}
    (hne : records ≠ []) (hrecords : ∀ r ∈ records, ∃ letter' last ttl,
      lowerByte letter' = lowerByte letter ∧ r = letterAddress letter' last ttl) :
    SignableSet .plain (addressRrsig numLabels) .IN (topName letter) records where
  nonempty := hne
  covered := by
    intro r hr
    obtain ⟨letter', last, ttl, hletter, rfl⟩ := hrecords r hr
    refine ⟨rfl, rfl, ?_⟩
    simp [letterAddress, topName, Name.path, lowerLabel, hletter]
  emitted := by
    intro r hr
    obtain ⟨letter', last, ttl, -, rfl⟩ := hrecords r hr
    exact ⟨_, rfl⟩

end Dnssec
end UnifiedDns
