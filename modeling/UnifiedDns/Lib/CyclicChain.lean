import Mathlib.Order.Basic
import Mathlib.Order.Defs.LinearOrder
import Mathlib.Data.Set.Basic
import Mathlib.Data.Finset.Max
import Mathlib.Data.List.Nodup
import Mathlib.Data.List.Rotate

/-!
# Cyclic chains in a linear order

A set of points of a linear order is closed into a cycle: every point is linked to the least point
above it, and the greatest point is linked back to the least one.  A link `o → n` has a gap, the
targets strictly behind `o` and strictly before `n` along the cycle.  Such chains are how a sorted
table denies the existence of the keys it does not hold.

* `CyclicNext` — the link relation of a set of points.
* `InGap` — membership of a target in the gap of a link.  The gap of a one-point cycle is everything
  except that point.
* `InClosedGap` — the same with the point at the left end.
* `not_inGap_of_mem` — a point of the chain lies in no gap.
* `exists_inGap_of_notMem` — every other target lies in the gap of some link.
* `links`, `Circular` — a chain written down along the cycle; `cyclicNext_of_mem_links` says that its
  links are those of its points.
* `countP_inGap` — points and gaps partition the targets; `countP_closedGap` — with the point at the left
  end of each gap added to it, the gaps alone do, unless there is only one.
-/

namespace UnifiedDns
namespace CyclicChain

variable {α : Type*} [LinearOrder α]

/-- `n` follows `o` in the cycle through `S`: the least point above `o`, or the least point of all
when `o` is the greatest. -/
def CyclicNext (S : Set α) (o n : α) : Prop :=
  o ∈ S ∧ n ∈ S ∧
    ((o < n ∧ ∀ x ∈ S, ¬ (o < x ∧ x < n)) ∨ (n ≤ o ∧ ∀ x ∈ S, n ≤ x ∧ x ≤ o))

/-- `t` lies strictly between `o` and `n` along the cycle. -/
def InGap (o n t : α) : Prop :=
  if o < n then o < t ∧ t < n else o < t ∨ t < n

instance (o n t : α) : Decidable (InGap o n t) := by
  unfold InGap
  infer_instance

/-- The gap with the point at its left end; a point linked to itself has none of this kind. -/
def InClosedGap (o n t : α) : Prop := o ≠ n ∧ (t = o ∨ InGap o n t)

instance (o n t : α) : Decidable (InClosedGap o n t) := by
  unfold InClosedGap
  infer_instance

/-- Over a list of points the link relation can be evaluated. -/
instance (points : List α) (o n : α) : Decidable (CyclicNext {x | x ∈ points} o n) :=
  inferInstanceAs (Decidable (o ∈ points ∧ n ∈ points ∧
    ((o < n ∧ ∀ x ∈ points, ¬ (o < x ∧ x < n)) ∨ (n ≤ o ∧ ∀ x ∈ points, n ≤ x ∧ x ≤ o))))

theorem CyclicNext.left_mem {S : Set α} {o n : α} (h : CyclicNext S o n) : o ∈ S := h.1

/-- A point of the chain lies in no gap, so a gap never denies an existing point. -/
theorem not_inGap_of_mem {S : Set α} {o n t : α} (h : CyclicNext S o n) (ht : t ∈ S) :
    ¬ InGap o n t := by
  obtain ⟨-, -, ⟨hlt, hbetween⟩ | ⟨hle, hbounds⟩⟩ := h
  · rw [InGap, if_pos hlt]
    exact hbetween t ht
  · rw [InGap, if_neg (not_lt.mpr hle)]
    obtain ⟨hlow, hhigh⟩ := hbounds t ht
    rintro (habove | hbelow)
    · exact absurd habove (not_lt.mpr hhigh)
    · exact absurd hbelow (not_lt.mpr hlow)

/-- A point has one successor. -/
theorem CyclicNext.unique {S : Set α} {o n n' : α} (h : CyclicNext S o n)
    (h' : CyclicNext S o n') : n = n' := by
  obtain ⟨-, hn, hcases⟩ := h
  obtain ⟨-, hn', hcases'⟩ := h'
  rcases hcases with ⟨hlt, hbetween⟩ | ⟨hle, hbounds⟩
  · rcases hcases' with ⟨hlt', hbetween'⟩ | ⟨-, hbounds'⟩
    · apply le_antisymm
      · exact not_lt.mp fun h => hbetween n' hn' ⟨hlt', h⟩
      · exact not_lt.mp fun h => hbetween' n hn ⟨hlt, h⟩
    · exact absurd hlt (not_lt.mpr (hbounds' n hn).2)
  · rcases hcases' with ⟨hlt', -⟩ | ⟨-, hbounds'⟩
    · exact absurd hlt' (not_lt.mpr (hbounds n' hn').2)
    · exact le_antisymm (hbounds n' hn').1 (hbounds' n hn).1

/-- A target lies in the gap of one link only. -/
theorem InGap.unique {S : Set α} {o n o' n' t : α} (h : CyclicNext S o n)
    (h' : CyclicNext S o' n') (hgap : InGap o n t) (hgap' : InGap o' n' t) : o = o' := by
  obtain ⟨ho, hn, hcases⟩ := h
  obtain ⟨ho', hn', hcases'⟩ := h'
  rcases hcases with ⟨hlt, hbetween⟩ | ⟨hle, hbounds⟩
  · rw [InGap, if_pos hlt] at hgap
    rcases hcases' with ⟨hlt', hbetween'⟩ | ⟨hle', hbounds'⟩
    · rw [InGap, if_pos hlt'] at hgap'
      apply le_antisymm
      · exact not_lt.mp fun h => hbetween' o ho ⟨h, hgap.1.trans hgap'.2⟩
      · exact not_lt.mp fun h => hbetween o' ho' ⟨h, hgap'.1.trans hgap.2⟩
    · rw [InGap, if_neg (not_lt.mpr hle')] at hgap'
      rcases hgap' with habove | hbelow
      · exact absurd (habove.trans hgap.2) (not_lt.mpr (hbounds' n hn).2)
      · exact absurd (hgap.1.trans hbelow) (not_lt.mpr (hbounds' o ho).1)
  · rcases hcases' with ⟨hlt', -⟩ | ⟨-, hbounds'⟩
    · rw [InGap, if_neg (not_lt.mpr hle)] at hgap
      rw [InGap, if_pos hlt'] at hgap'
      rcases hgap with habove | hbelow
      · exact absurd (habove.trans hgap'.2) (not_lt.mpr (hbounds n' hn').2)
      · exact absurd (hgap'.1.trans hbelow) (not_lt.mpr (hbounds o' ho').1)
    · exact le_antisymm (hbounds' o ho).2 (hbounds o' ho').2

/-- A target that is no point of a finite chain lies in the gap of some link. -/
theorem exists_inGap_of_notMem {points : List α} {t : α} (hne : points ≠ [])
    (ht : t ∉ points) :
    ∃ o n, CyclicNext {x | x ∈ points} o n ∧ InGap o n t := by
  have hpoints : points.toFinset.Nonempty := by
    obtain ⟨x, hx⟩ := List.exists_mem_of_ne_nil points hne
    exact ⟨x, List.mem_toFinset.mpr hx⟩
  have hside : ∀ x ∈ points, x < t ∨ t < x := by
    intro x hx
    exact lt_or_gt_of_ne fun heq => ht (heq ▸ hx)
  by_cases hboth : (points.toFinset.filter (· < t)).Nonempty ∧
      (points.toFinset.filter (t < ·)).Nonempty
  · -- The greatest point below and the least point above are neighbours.
    obtain ⟨hbelow, habove⟩ := hboth
    have ho := Finset.max'_mem _ hbelow
    have hn := Finset.min'_mem _ habove
    simp only [Finset.mem_filter, List.mem_toFinset] at ho hn
    refine ⟨_, _, ⟨ho.1, hn.1, Or.inl ⟨ho.2.trans hn.2, ?_⟩⟩, ?_⟩
    · rintro x hx ⟨hlow, hhigh⟩
      rcases hside x hx with hxt | hxt
      · have hle := Finset.le_max' (points.toFinset.filter (· < t)) x (by simpa [hxt] using hx)
        exact absurd hlow (not_lt.mpr hle)
      · have hle := Finset.min'_le (points.toFinset.filter (t < ·)) x (by simpa [hxt] using hx)
        exact absurd hhigh (not_lt.mpr hle)
    · rw [InGap, if_pos (ho.2.trans hn.2)]
      exact ⟨ho.2, hn.2⟩
  · -- All points are on one side, so the target lies in the gap that closes the cycle.
    have ho := Finset.max'_mem _ hpoints
    have hn := Finset.min'_mem _ hpoints
    have hle := Finset.min'_le_max' _ hpoints
    rw [List.mem_toFinset] at ho hn
    refine ⟨_, _, ⟨ho, hn, Or.inr ⟨hle, fun x hx => ?_⟩⟩, ?_⟩
    · rw [Set.mem_ofPred_eq, ← List.mem_toFinset] at hx
      exact ⟨Finset.min'_le _ x hx, Finset.le_max' _ x hx⟩
    · rw [InGap, if_neg (not_lt.mpr hle)]
      rcases hside _ ho with hmax | hmax
      · exact Or.inl hmax
      · rcases hside _ hn with hmin | hmin
        · have hbelow : points.toFinset.min' hpoints ∈ points.toFinset.filter (· < t) :=
            Finset.mem_filter.mpr ⟨List.mem_toFinset.mpr hn, hmin⟩
          have habove : points.toFinset.max' hpoints ∈ points.toFinset.filter (t < ·) :=
            Finset.mem_filter.mpr ⟨List.mem_toFinset.mpr ho, hmax⟩
          exact absurd ⟨⟨_, hbelow⟩, ⟨_, habove⟩⟩ hboth
        · exact Or.inr hmin

/-! ### Chains along the cycle -/

/-- The links of a list of points: each point is linked to the one behind it, the last to the first. -/
def links {β : Type*} (points : List β) : List (β × β) := points.zip (points.rotate 1)

/-- Along the cycle the points increase, from the least one on. -/
def Circular (points : List α) : Prop := ∃ k, (points.rotate k).Pairwise (· < ·)

theorem links_fst {β : Type*} (points : List β) : (links points).map Prod.fst = points :=
  List.map_fst_zip (by rw [List.length_rotate])

theorem links_rotate {β : Type*} (points : List β) (k : Nat) :
    links (points.rotate k) = (links points).rotate k := by
  change List.zipWith Prod.mk _ _ = (List.zipWith Prod.mk _ _).rotate k
  rw [List.zipWith_rotate_distrib _ _ _ _ (by rw [List.length_rotate]), List.rotate_rotate,
    List.rotate_rotate, Nat.add_comm]

theorem Circular.nodup {points : List α} (h : Circular points) : points.Nodup := by
  obtain ⟨k, hsorted⟩ := h
  exact List.nodup_rotate.mp (hsorted.imp ne_of_lt)

/-- In an increasing list the links are those of its points. -/
theorem cyclicNext_of_sorted {points : List α} (hsorted : points.Pairwise (· < ·)) {o n : α}
    (h : (o, n) ∈ links points) : CyclicNext {x | x ∈ points} o n := by
  obtain ⟨i, hi, hlink⟩ := List.mem_iff_getElem.mp h
  simp only [links, List.getElem_zip, List.getElem_rotate, Prod.mk.injEq] at hlink
  obtain ⟨rfl, rfl⟩ := hlink
  have hlen : i < points.length := by simpa [links] using hi
  have hlt : ∀ {j l} (hj : j < points.length) (hl : l < points.length),
      j < l → points[j] < points[l] := fun hj hl => List.pairwise_iff_getElem.mp hsorted _ _ hj hl
  have hle : ∀ {j l} (hj : j < points.length) (hl : l < points.length),
      j ≤ l → points[j] ≤ points[l] := by
    intro j l hj hl hjl
    rcases Nat.eq_or_lt_of_le hjl with rfl | hjl
    · exact le_rfl
    · exact (hlt hj hl hjl).le
  refine ⟨List.getElem_mem _, List.getElem_mem _, ?_⟩
  by_cases hlast : i + 1 < points.length
  · -- Two neighbours in the list.
    simp only [Nat.mod_eq_of_lt hlast]
    refine Or.inl ⟨hlt _ _ (Nat.lt_succ_self i), ?_⟩
    rintro x hx ⟨habove, hbelow⟩
    obtain ⟨j, hj, rfl⟩ := List.mem_iff_getElem.mp hx
    rcases Nat.lt_or_ge i j with hij | hij
    · exact absurd hbelow (not_lt.mpr (hle _ _ hij))
    · exact absurd habove (not_lt.mpr (hle _ _ hij))
  · -- The greatest point and the least one.
    have hend : i + 1 = points.length := by omega
    simp only [hend, Nat.mod_self]
    refine Or.inr ⟨hle _ _ (Nat.zero_le i), fun x hx => ?_⟩
    obtain ⟨j, hj, rfl⟩ := List.mem_iff_getElem.mp hx
    exact ⟨hle _ _ (Nat.zero_le j), hle _ _ (by omega)⟩

theorem cyclicNext_of_mem_links {points : List α} (h : Circular points) {o n : α}
    (hlink : (o, n) ∈ links points) : CyclicNext {x | x ∈ points} o n := by
  obtain ⟨k, hsorted⟩ := h
  have hnext := cyclicNext_of_sorted hsorted
    (show (o, n) ∈ links (points.rotate k) by rwa [links_rotate, List.mem_rotate])
  simpa only [List.mem_rotate] using hnext

theorem exists_link {β : Type*} {points : List β} {o : β} (ho : o ∈ points) : ∃ n, (o, n) ∈ links points := by
  rw [← links_fst points, List.mem_map] at ho
  obtain ⟨⟨o', n⟩, hlink, rfl⟩ := ho
  exact ⟨n, hlink⟩

/-- A test that a chain passes at one link only, counted along the chain. -/
theorem countP_links_eq_one {points : List α} (h : Circular points) {p : α × α → Bool} {o : α}
    (ho : o ∈ points) (hp : ∀ o' n, (o', n) ∈ links points → (p (o', n) = true ↔ o' = o)) :
    (links points).countP p = 1 := by
  obtain ⟨n, hlink⟩ := exists_link ho
  have hnodup : (links points).Nodup := by
    apply List.Nodup.of_map Prod.fst
    rw [links_fst]
    exact h.nodup
  rw [← List.count_eq_one_of_mem hnodup hlink, List.count_eq_countP]
  refine List.countP_congr fun link hmem => ?_
  obtain ⟨o', n'⟩ := link
  rw [hp o' n' hmem, beq_iff_eq, Prod.mk.injEq]
  constructor
  · rintro rfl
    exact ⟨rfl, (cyclicNext_of_mem_links h hmem).unique (cyclicNext_of_mem_links h hlink)⟩
  · exact And.left

/-- A target is a point of the chain and lies in no gap, or it is no point and lies in one gap. -/
theorem countP_inGap {points : List α} (h : Circular points) (hne : points ≠ []) (t : α) :
    (links points).countP (fun link => decide (InGap link.1 link.2 t)) =
      if t ∈ points then 0 else 1 := by
  split
  · rename_i ht
    refine List.countP_eq_zero.mpr fun link hlink => ?_
    simpa using not_inGap_of_mem (cyclicNext_of_mem_links h hlink) ht
  · rename_i ht
    obtain ⟨o, n, hnext, hgap⟩ := exists_inGap_of_notMem hne ht
    refine countP_links_eq_one h hnext.left_mem fun o' n' hlink => ?_
    have hnext' := cyclicNext_of_mem_links h hlink
    rw [decide_eq_true_eq]
    constructor
    · intro hgap'
      exact hgap'.unique hnext' hnext hgap
    · rintro rfl
      rwa [hnext'.unique hnext]

/-- A point linked to itself is the only one. -/
theorem length_eq_one_of_link_self {points : List α} (h : Circular points) {o : α}
    (hlink : (o, o) ∈ links points) : points.length = 1 := by
  obtain ⟨ho, -, ⟨hlt, -⟩ | ⟨-, hbounds⟩⟩ := cyclicNext_of_mem_links h hlink
  · exact absurd hlt (lt_irrefl o)
  · have hall : ∀ x ∈ points, x = o := fun x hx => le_antisymm (hbounds x hx).2 (hbounds x hx).1
    have hnodup := h.nodup
    rw [List.eq_replicate_of_mem hall, List.nodup_replicate] at hnodup
    exact le_antisymm hnodup (List.length_pos_of_mem ho)

/-- With the point at its left end added to each gap, every target lies in one gap, unless there is only
one point. -/
theorem countP_closedGap {points : List α} (h : Circular points) (hne : points ≠ []) (t : α) :
    (links points).countP (fun link => decide (InClosedGap link.1 link.2 t)) =
      if points.length = 1 then 0 else 1 := by
  split
  · rename_i hlen
    obtain ⟨a, rfl⟩ := List.length_eq_one_iff.mp hlen
    simp [links, InClosedGap]
  · rename_i hlen
    have hproper : ∀ o n, (o, n) ∈ links points → o ≠ n := by
      rintro o n hlink rfl
      exact hlen (length_eq_one_of_link_self h hlink)
    by_cases ht : t ∈ points
    · refine countP_links_eq_one h ht fun o n hlink => ?_
      have hgap := not_inGap_of_mem (cyclicNext_of_mem_links h hlink) ht
      simp [InClosedGap, hproper o n hlink, hgap, eq_comm]
    · have hopen := countP_inGap h hne t
      rw [if_neg ht] at hopen
      rw [← hopen]
      refine List.countP_congr fun link hlink => ?_
      obtain ⟨o, n⟩ := link
      have ho : t ≠ o := fun heq => ht (heq ▸ (cyclicNext_of_mem_links h hlink).left_mem)
      simp [InClosedGap, hproper o n hlink, ho]

end CyclicChain
end UnifiedDns
