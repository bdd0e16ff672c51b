import UnifiedDns.Dnssec.Rrsig

/-!
# What the signed data say

The octets of `build_tbs` read back: two signatures over the same octets cover the same type at the
same signed owner, and up to order the same records.  The owner that was asked for is not among the
octets, only the owner that the label count of the RRSIG makes of it.

* `nameWire_prefixCode` — a name on the wire reads back.
* `WireRecord` — one record of the signed data.
* `contents` — class and canonical RDATA of the records of an RRset.
* `buildTbs_layout` — the RRSIG fields, then the records in some order.
* `buildTbs_inj` — equal octets, equal fields and contents.
* `signedOwner_of_numLabels` — the signed owner is the owner itself, or what was read in the place of a
  wildcard above it.
-/

namespace UnifiedDns
namespace Dnssec

/-! ### Fixed-width fields -/

@[simp] theorem length_be16 (n : Nat) : (be16 n).length = 2 := rfl

@[simp] theorem length_be32 (n : Nat) : (be32 n).length = 4 := rfl

theorem be16_inj {m n : Nat} (hm : m < 65536) (hn : n < 65536) (h : be16 m = be16 n) : m = n := by
  simp only [be16, List.cons.injEq, Fin.ext_iff, Fin.ofNat, and_true] at h
  omega

theorem be32_inj {m n : Nat} (hm : m < 4294967296) (hn : n < 4294967296) (h : be32 m = be32 n) :
    m = n := by
  obtain ⟨hhigh, hlow⟩ := List.append_inj h rfl
  have hhigh' := be16_inj (by omega) (by omega) hhigh
  have hlow' := be16_inj (Nat.mod_lt _ (by decide)) (Nat.mod_lt _ (by decide)) hlow
  omega

theorem byte_prefixCode : PrefixCode fun b : Byte => [b] :=
  PrefixCode.of_length (fun _ _ h => List.singleton_injective h) fun _ => List.length_singleton

theorem u16_prefixCode : PrefixCode fun n : UInt16 => be16 n.toNat :=
  PrefixCode.of_length
    (fun m n h => UInt16.toNat_inj.mp (be16_inj m.toNat_lt n.toNat_lt h)) fun _ => length_be16 _

theorem u32_prefixCode : PrefixCode fun n : BitVec 32 => be32 n.toNat :=
  PrefixCode.of_length
    (fun m n h => BitVec.eq_of_toNat_eq (be32_inj m.isLt n.isLt h)) fun _ => length_be32 _

/-! ### Names -/

/-- A label the wire format has room for. -/
abbrev WireLabel := { l : Label // 1 ≤ l.length ∧ l.length ≤ 63 }

theorem labelWire_prefixCode : PrefixCode fun l : WireLabel => labelWire l.val := by
  have hsized : PrefixCode fun l : { l : Label // l.length < 256 } =>
      [Fin.ofNat 256 l.val.length] ++ l.val := by
    have hoctet : ∀ n, ([Fin.ofNat 256 n] : List Byte).length = 1 := fun _ => rfl
    refine PrefixCode.of_size hoctet fun m n hm hn h => ?_
    simp only [List.cons.injEq, Fin.ext_iff, Fin.ofNat, and_true] at h
    omega
  have hfits : ∀ l : WireLabel, l.val.length < 256 := fun l => by
    have hlen := l.property.2
    omega
  exact hsized.comp (fun a b h => Subtype.ext (congrArg (fun l => l.val) h) :
    Function.Injective fun l : WireLabel => (⟨l.val, hfits l⟩ : { l : Label // l.length < 256 }))

/-- The labels of a name with their limits. -/
def wireLabels (n : Name) : List WireLabel := n.labels.attachWith _ n.valid.1

theorem map_wireLabels (n : Name) : (wireLabels n).map Subtype.val = n.labels := by
  simp [wireLabels]

theorem wireLabels_injective : Function.Injective wireLabels := by
  intro a b h
  obtain ⟨la, ha⟩ := a
  obtain ⟨lb, hb⟩ := b
  have hlabels := congrArg (List.map Subtype.val) h
  rw [map_wireLabels, map_wireLabels] at hlabels
  cases hlabels
  rfl

theorem nameWire_eq (n : Name) :
    nameWire n = ((wireLabels n).flatMap fun l => labelWire l.val) ++ [0] := by
  rw [nameWire, ← map_wireLabels, List.flatMap_map]

theorem nameWire_prefixCode : PrefixCode nameWire := by
  have hstop : ∀ (l : WireLabel) (u v : List Byte), labelWire l.val ++ u ≠ 0 :: v := by
    intro l u v h
    -- The length octet of a label is not the root octet.
    have hhead := congrArg Fin.val (List.cons.inj h).1
    have hlen := l.property
    simp only [Fin.ofNat, Fin.val_zero] at hhead
    omega
  have hcode := (labelWire_prefixCode.flatMap_stop hstop).comp wireLabels_injective
  intro a b u v h
  rw [nameWire_eq, nameWire_eq] at h
  exact hcode a b u v h

/-! ### The signed owner -/

/-- What is read in the place of the wildcard above the last `count` labels of an owner. -/
def readWildcard (P : Platform) (owner : Name) (count : Nat) : Option Name :=
  P.parseName (asciiText "*." ++ P.nameText (owner.trimTo count))

/-- The wildcard above the last labels of an owner is printed as what is read as that wildcard. -/
def ReadsBack (P : Platform) (owner : Name) (count : Nat) : Prop :=
  ∃ wildcard, readWildcard P owner count = some wildcard ∧
    wildcard.path = owner.path.take count ++ [Name.starLabel]

theorem signedOwner_of_lt {P : Platform} {rrsig : RRSIG} {owner : Name}
    (h : rrsig.numLabels.val < owner.numLabels) :
    signedOwner P rrsig owner = (readWildcard P owner rrsig.numLabels.val).getD owner :=
  if_pos h

theorem signedOwner_of_le {P : Platform} {rrsig : RRSIG} {owner : Name}
    (h : owner.numLabels ≤ rrsig.numLabels.val) : signedOwner P rrsig owner = owner :=
  if_neg (Nat.not_lt.mpr h)

/-- The signed owner has the label count of the RRSIG either because the owner has, or because it is the
name that was read in the place of a wildcard. -/
theorem signedOwner_of_numLabels {P : Platform} {rrsig : RRSIG} {owner : Name}
    (h : (signedOwner P rrsig owner).numLabels = rrsig.numLabels.val) :
    (rrsig.numLabels.val = owner.numLabels ∧ signedOwner P rrsig owner = owner) ∨
      (rrsig.numLabels.val < owner.numLabels ∧
        readWildcard P owner rrsig.numLabels.val = some (signedOwner P rrsig owner)) := by
  by_cases hfewer : rrsig.numLabels.val < owner.numLabels
  · refine Or.inr ⟨hfewer, ?_⟩
    rw [signedOwner_of_lt hfewer] at h ⊢
    cases hread : readWildcard P owner rrsig.numLabels.val with
    | none =>
        -- Unread, the owner itself is signed, and it has more labels than that.
        rw [hread, Option.getD_none] at h
        omega
    | some wildcard => rfl
  · have hself := signedOwner_of_le (P := P) (Nat.not_lt.mp hfewer)
    rw [hself] at h
    exact Or.inl ⟨h.symm, hself⟩

/-! ### One record -/

/-- One record of the signed data: owner, type, class, TTL, RDATA. -/
abbrev WireRecord :=
  Name × UInt16 × UInt16 × BitVec 32 × { rdata : List Byte // rdata.length < 65536 }

namespace WireRecord

def owner (c : WireRecord) : Name := c.1

def rdata (c : WireRecord) : List Byte := c.2.2.2.2.val

/-- Class and RDATA. -/
def content (c : WireRecord) : DnsClass × Option (List Byte) := (⟨c.2.2.1⟩, some c.rdata)

/-- The octets of a record. -/
def wire (c : WireRecord) : List Byte :=
  nameWire c.1 ++ (be16 c.2.1.toNat ++ (be16 c.2.2.1.toNat ++ (be32 c.2.2.2.1.toNat ++
    (be16 c.2.2.2.2.val.length ++ c.2.2.2.2.val))))

theorem wire_prefixCode : PrefixCode wire :=
  nameWire_prefixCode.pair (u16_prefixCode.pair (u16_prefixCode.pair (u32_prefixCode.pair
    (PrefixCode.of_size length_be16 fun _ _ hm hn h => be16_inj hm hn h))))

theorem wire_ne_nil (c : WireRecord) : c.wire ≠ [] := by
  simp [wire, nameWire]

end WireRecord

/-- RDATA is at most 65535 octets long. -/
def RdataFits (P : Platform) : Prop :=
  ∀ data rdata, P.rdataWire data = some rdata → rdata.length < 65536

/-- Class and canonical RDATA of each record. -/
def contents (P : Platform) (records : List Record) : List (DnsClass × Option (List Byte)) :=
  records.map fun r => (r.dnsClass, P.rdataWire r.data)

/-- The entries are records of the canonical owner that say what the RRset says. -/
theorem canonicalEntries_wire {P : Platform} (hfits : RdataFits P) {rrsig : RRSIG}
    {canonicalOwner : Name} {records : List Record} {entries : List (List Byte × List Byte)}
    (h : canonicalEntries P rrsig canonicalOwner records = some entries) :
    ∃ codes : List WireRecord, entries = codes.map (fun c => (c.rdata, c.wire)) ∧
      (∀ c ∈ codes, c.owner = canonicalOwner) ∧
        codes.map WireRecord.content = contents P records := by
  induction records generalizing entries with
  | nil =>
      cases h
      exact ⟨[], rfl, by simp, rfl⟩
  | cons rec rest ih =>
      simp only [canonicalEntries] at h
      split at h
      · cases h
      · rename_i rdata hrdata
        split at h
        · cases h
        · rename_i others hothers
          cases h
          obtain ⟨codes, hentries, howner, hcontent⟩ := ih hothers
          refine ⟨(canonicalOwner, rec.recordType.code, rec.dnsClass.code, rrsig.originalTtl,
            ⟨rdata, hfits _ _ hrdata⟩) :: codes, ?_, ?_, ?_⟩
          · rw [hentries]
            simp [WireRecord.rdata, WireRecord.wire, canonicalRecord]
          · exact List.forall_mem_cons.mpr ⟨rfl, howner⟩
          · rw [List.map_cons, hcontent]
            simp [contents, WireRecord.content, WireRecord.rdata, hrdata]

/-! ### The whole -/

/-- The fields of the RRSIG that are signed. -/
def rrsigFields (rrsig : RRSIG) :
    UInt16 × Byte × Byte × BitVec 32 × BitVec 32 × BitVec 32 × UInt16 × Name :=
  (rrsig.typeCovered.code, rrsig.algorithm, rrsig.numLabels, rrsig.originalTtl,
    rrsig.sigExpiration, rrsig.sigInception, rrsig.keyTag, rrsig.signerName.toLowercase)

/-- The signed fields and what follows them can be read back. -/
theorem rrsigHeader_read {rrsig rrsig' : RRSIG} {u v : List Byte}
    (h : rrsigHeader rrsig ++ u = rrsigHeader rrsig' ++ v) :
    rrsigFields rrsig = rrsigFields rrsig' ∧ u = v := by
  have hcode := u16_prefixCode.pair (byte_prefixCode.pair (byte_prefixCode.pair
    (u32_prefixCode.pair (u32_prefixCode.pair (u32_prefixCode.pair
      (u16_prefixCode.pair nameWire_prefixCode))))))
  refine hcode (rrsigFields rrsig) (rrsigFields rrsig') u v ?_
  simpa [rrsigHeader, rrsigFields] using h

/-- The RRSIG fields, then the records of the RRset in some order under the signed owner. -/
theorem buildTbs_layout {P : Platform} (hfits : RdataFits P) {rrsig : RRSIG} {owner : Name}
    {records : List Record} {tbs : List Byte} (h : buildTbs P rrsig owner records = some tbs) :
    (∀ rec ∈ records, rec.recordType = rrsig.typeCovered ∧ rec.name.path = owner.path) ∧
      ∃ codes : List WireRecord, codes ≠ [] ∧
        tbs = rrsigHeader rrsig ++ codes.flatMap WireRecord.wire ∧
        (∀ c ∈ codes, c.owner = (signedOwner P rrsig owner).toLowercase) ∧
          (codes.map WireRecord.content).Perm (contents P records) := by
  unfold buildTbs at h
  split at h
  · cases h
  · rename_i first rest
    split at h
    · rename_i hall
      split at h
      · cases h
      · rename_i entries hentries
        cases h
        obtain ⟨codes, hcodes, howner, hcontent⟩ := canonicalEntries_wire hfits hentries
        refine ⟨fun rec hrec => ?_, codes.insertionSort fun a b => a.rdata ≤ b.rdata, ?_, ?_, ?_, ?_⟩
        · have hrec' := List.all_eq_true.mp hall rec hrec
          simp only [Bool.and_eq_true, decide_eq_true_eq, Name.beq_iff_path] at hrec'
          exact ⟨hrec'.1.1, hrec'.2⟩
        · intro hnil
          have hlen := congrArg List.length (hcontent : _ = contents P (first :: rest))
          have hlen' := congrArg List.length hnil
          simp only [List.length_map, contents, List.length_cons, List.length_insertionSort,
            List.length_nil] at hlen hlen'
          omega
        · -- Sorting the entries by RDATA sorts the records by RDATA.
          rw [hcodes, ← List.map_insertionSort (fun a b : WireRecord => a.rdata ≤ b.rdata)
            (fun a b => a.1 ≤ b.1) (fun c : WireRecord => (c.rdata, c.wire)) codes
            fun _ _ _ _ => Iff.rfl]
          simp [List.flatMap_map]
        · intro c hc
          exact howner c ((List.mem_insertionSort _).mp hc)
        · rw [← hcontent]
          exact (List.perm_insertionSort _ codes).map _
    · cases h

/-- Signed data exist only for records that can be emitted. -/
theorem buildTbs_emitted {P : Platform} (hfits : RdataFits P) {rrsig : RRSIG} {owner : Name}
    {records : List Record} {tbs : List Byte} (h : buildTbs P rrsig owner records = some tbs) :
    ∀ r ∈ records, ∃ rdata, P.rdataWire r.data = some rdata := by
  intro r hr
  obtain ⟨-, codes, -, -, -, hcontent⟩ := buildTbs_layout hfits h
  have hmem : (r.dnsClass, P.rdataWire r.data) ∈ contents P records := List.mem_map_of_mem hr
  obtain ⟨c, -, hc⟩ := List.mem_map.mp (hcontent.mem_iff.mpr hmem)
  exact ⟨c.rdata, (congrArg Prod.snd hc).symm⟩

/-- Two RRsets with the same signed data. -/
theorem buildTbs_inj {P : Platform} (hfits : RdataFits P) {rrsig rrsig' : RRSIG}
    {owner owner' : Name} {records records' : List Record} {tbs : List Byte}
    (h : buildTbs P rrsig owner records = some tbs)
    (h' : buildTbs P rrsig' owner' records' = some tbs) :
    rrsigFields rrsig = rrsigFields rrsig' ∧
      (signedOwner P rrsig owner).path = (signedOwner P rrsig' owner').path ∧
        (contents P records).Perm (contents P records') := by
  obtain ⟨-, codes, hne, htbs, howner, hcontent⟩ := buildTbs_layout hfits h
  obtain ⟨-, codes', -, htbs', howner', hcontent'⟩ := buildTbs_layout hfits h'
  obtain ⟨hfields, hrecords⟩ := rrsigHeader_read (htbs.symm.trans htbs')
  have hcodes := WireRecord.wire_prefixCode.flatMap_injective WireRecord.wire_ne_nil hrecords
  subst hcodes
  refine ⟨hfields, ?_, hcontent.symm.trans hcontent'⟩
  obtain ⟨c, rest, rfl⟩ := List.exists_cons_of_ne_nil hne
  have hsame := (howner c List.mem_cons_self).symm.trans (howner' c List.mem_cons_self)
  rw [← Name.path_toLowercase, hsame, Name.path_toLowercase]

end Dnssec
end UnifiedDns
