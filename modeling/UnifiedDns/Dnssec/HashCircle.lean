import Mathlib.Data.List.Forall2
import UnifiedDns.Dnssec.Nsec3

/-!
# The NSEC3 records of a zone on the hash circle

A zone shows its hashed names as a circle of NSEC3 records.  A hash is either that of one of its names,
which has a record of its own, or lies in the gap behind one record.

* `Nsec3Circle` — records that follow one another on the circle.
* `MatchesOrCovers` — a target is matched by one record and covered by none, or the other way round.
* `countP_nsec3Covers` — a circle of more than one record covers every target once, a single record none.
* `matchesOrCovers_iff` — the targets for which the two tests of the source are complementary.
-/

namespace UnifiedDns
namespace Dnssec

open CyclicChain

/-- The record leads from one hash to the next. -/
def LinksHashes (P : Platform) (rec : Record) (link : List Byte × List Byte) : Prop :=
  nsec3OwnerHash P rec = some link.1 ∧
    ∃ n, rec.nsec3? = some n ∧ n.nextHashedOwnerName = link.2

/-- The records go once round the circle: each leads to the owner hash of the one behind it, the last to
the first, and along the circle the owner hashes increase. -/
structure Nsec3Circle (P : Platform) (records : List Record) (owners : List (List Byte)) : Prop where
  nonempty : owners ≠ []
  circular : Circular owners
  linked : List.Forall₂ (LinksHashes P) records (links owners)

/-- The target is the owner hash of one record and covered by none, or of none and covered by one. -/
def MatchesOrCovers (P : Platform) (records : List Record) (target : List Byte) : Prop :=
  (records.countP (matchesHash P target) = 1 ∧ records.countP (nsec3Covers P · target) = 0) ∨
    (records.countP (matchesHash P target) = 0 ∧ records.countP (nsec3Covers P · target) = 1)

instance (P : Platform) (records : List Record) (target : List Byte) :
    Decidable (MatchesOrCovers P records target) := by
  unfold MatchesOrCovers
  infer_instance

section Circle

variable {P : Platform} {records : List Record} {owners : List (List Byte)} {target : List Byte}

/-- Counting over records and over their links is the same for tests that agree on them. -/
theorem countP_of_linked {linkList : List (List Byte × List Byte)} {p : Record → Bool}
    {q : List Byte × List Byte → Bool} (h : List.Forall₂ (LinksHashes P) records linkList)
    (hpq : ∀ rec link, LinksHashes P rec link → p rec = q link) :
    records.countP p = linkList.countP q := by
  induction h with
  | nil => rfl
  | cons hlink _ ih => rw [List.countP_cons, List.countP_cons, ih, hpq _ _ hlink]

theorem Nsec3Circle.length_eq (h : Nsec3Circle P records owners) :
    records.length = owners.length := by
  rw [h.linked.length_eq, ← List.length_map Prod.fst, links_fst]

/-- Every owner hash has one record. -/
theorem Nsec3Circle.countP_matchesHash (h : Nsec3Circle P records owners) (target : List Byte) :
    records.countP (matchesHash P target) = if target ∈ owners then 1 else 0 := by
  have hcount : records.countP (matchesHash P target) = owners.count target := by
    rw [countP_of_linked (q := fun link => link.1 == target) h.linked, List.count_eq_countP]
    · conv_rhs => rw [← links_fst owners, List.countP_map]
      rfl
    · rintro rec link ⟨howner, -⟩
      simp [matchesHash, howner, Bool.beq_eq_decide_eq]
  rw [hcount]
  split
  · exact List.count_eq_one_of_mem h.circular.nodup ‹_›
  · exact List.count_eq_zero.mpr ‹_›

/-- The covering test on a record of the circle includes the owner hash. -/
theorem nsec3Covers_of_links {rec : Record} {link : List Byte × List Byte}
    (h : LinksHashes P rec link) :
    nsec3Covers P rec target = decide (InClosedGap link.1 link.2 target) := by
  obtain ⟨howner, n, hn, hnext⟩ := h
  rw [Bool.eq_iff_iff, nsec3Covers_iff, decide_eq_true_eq]
  simp [InClosedGap, howner, hn, hnext]

/-- A circle of more than one record covers every target once, its own hashes included; a single record
covers nothing. -/
theorem Nsec3Circle.countP_nsec3Covers (h : Nsec3Circle P records owners) (target : List Byte) :
    records.countP (nsec3Covers P · target) = if records.length = 1 then 0 else 1 := by
  rw [countP_of_linked h.linked fun rec link hlink => nsec3Covers_of_links hlink, h.length_eq]
  exact countP_closedGap h.circular h.nonempty target

/-- Matching and covering are complementary for the hash of a single record and for the targets that are
no hash of a longer circle, and for no others. -/
theorem matchesOrCovers_iff (h : Nsec3Circle P records owners) :
    MatchesOrCovers P records target ↔ (target ∈ owners ↔ records.length = 1) := by
  unfold MatchesOrCovers
  rw [h.countP_matchesHash, h.countP_nsec3Covers]
  by_cases ht : target ∈ owners
  · by_cases hlen : records.length = 1
    · simp [ht, hlen]
    · simp [ht, hlen]
  · by_cases hlen : records.length = 1
    · simp [ht, hlen]
    · simp [ht, hlen]

end Circle

/-! ### A circle of two records -/

/-- The hash of twenty equal octets. -/
def evenHash (b : Byte) : List Byte := List.replicate 20 b

/-- An NSEC3 record whose owner name is 32 times the digit `c`. -/
def circleRecord (c : Byte) (next : List Byte) : Record :=
  ⟨⟨[List.replicate 32 c], by simp [ValidLabels, wireLength]⟩, .IN, 300,
    .nsec3 ⟨1, 0, 0, [], next, [.A]⟩⟩

/-- The records of the hashes `00…0` and `ff…f`, written with the digits `0` and `V`. -/
def twoRecords : List Record := [circleRecord 48 (evenHash 255), circleRecord 86 (evenHash 0)]

theorem twoRecords_circle :
    Nsec3Circle .plain twoRecords [evenHash 0, evenHash 255] where
  nonempty := List.cons_ne_nil _ _
  circular := ⟨0, by decide +kernel⟩
  linked := .cons ⟨by decide +kernel, _, rfl, rfl⟩ (.cons ⟨by decide +kernel, _, rfl, rfl⟩ .nil)

/-- A hash between the two is matched by none of them and covered by one. -/
theorem matchesOrCovers_iff_between : MatchesOrCovers .plain twoRecords (evenHash 1) :=
  (matchesOrCovers_iff twoRecords_circle).mpr (by decide)

/-- The owner hash of a record is covered by that very record. -/
theorem owner_hash_covered :
    ¬ ∀ (P : Platform) (records : List Record) (owners : List (List Byte)) (target : List Byte),
      Nsec3Circle P records owners → target.length = 20 → MatchesOrCovers P records target := by
  intro hclaim
  have hcovered : ¬ MatchesOrCovers .plain twoRecords (evenHash 0) := by decide +kernel
  exact hcovered (hclaim _ _ _ _ twoRecords_circle (by decide))

/-- A single record covers no hash, not even those that it is there to deny. -/
example : (circleRecord 48 (evenHash 0)).nsec3?.isSome ∧
    nsec3Covers .plain (circleRecord 48 (evenHash 0)) (evenHash 1) = false := by
  decide +kernel

end Dnssec
end UnifiedDns
