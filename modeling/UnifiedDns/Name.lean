import Mathlib.Algebra.Ring.Nat
import Mathlib.Data.List.Lex
import Mathlib.Data.List.Infix
import Mathlib.Order.Fin.Basic

/-!
# Domain names

The names the resolver works on, as `hickory_proto::rr::Name` presents them to the code: a list of
labels, the leftmost label first.  Every name the program handles is fully qualified, so the
root-relative flag of the library type is not carried.

* `Name` — labels with the two wire-format limits (1 to 63 octets a label, 255 octets a name) as a
  field, so that an over-long name cannot be built.
* `Name.path` — the case-folded labels, the top-level label first.  Two names are equal for the code
  exactly when their paths are equal, ancestors are prefixes, and the canonical order is the
  lexicographic order of paths.
* `Name.baseName`, `Name.zoneOf`, `Name.trimTo`, `Name.numLabels` — the library operations under the
  source's names.
-/

namespace UnifiedDns

/-- One octet. -/
abbrev Byte := Fin 256

-- What every numeral of an octet rests on, proved once for all of them.
instance byte_neZero : NeZero 256 := ⟨by decide⟩

/-- The octets of one label, without its length octet. -/
abbrev Label := List Byte

/-- A string as the code holds it: its UTF-8 octets. -/
abbrev Text := List Byte

/-- A root-first list of case-folded labels. -/
abbrev Path := List Label

/-- `u8::to_ascii_lowercase`. -/
def lowerByte (b : Byte) : Byte :=
  if 65 ≤ b ∧ b ≤ 90 then b + 32 else b

/-- What stands before a path is the path itself or stands before its parent. -/
theorem Path.prefix_eq_or_dropLast {p l : Path} (h : p <+: l) : p = l ∨ p <+: l.dropLast := by
  obtain ⟨rest, rfl⟩ := h
  rcases List.eq_nil_or_concat rest with rfl | ⟨init, last, rfl⟩
  · exact Or.inl (by simp)
  · refine Or.inr ⟨init, ?_⟩
    rw [List.concat_eq_append, ← List.append_assoc, List.dropLast_concat]

/-- Case folding of a label. -/
def lowerLabel (l : Label) : Label := l.map lowerByte

@[simp] theorem lowerByte_lowerByte (b : Byte) : lowerByte (lowerByte b) = lowerByte b := by
  revert b
  decide +kernel

@[simp] theorem lowerLabel_lowerLabel (l : Label) : lowerLabel (lowerLabel l) = lowerLabel l := by
  simp [lowerLabel, Function.comp_def]

@[simp] theorem length_lowerLabel (l : Label) : (lowerLabel l).length = l.length := by
  simp [lowerLabel]

/-- Octets of the uncompressed wire form: a length octet for each label and the root octet. -/
def wireLength (labels : List Label) : Nat :=
  (labels.map fun l => l.length + 1).sum + 1

/-- The limits of RFC 1035 on one label and on a whole name. -/
def ValidLabels (labels : List Label) : Prop :=
  (∀ l ∈ labels, 1 ≤ l.length ∧ l.length ≤ 63) ∧ wireLength labels ≤ 255

instance (labels : List Label) : Decidable (ValidLabels labels) := by
  unfold ValidLabels
  infer_instance

theorem ValidLabels.of_suffix {inner outer : List Label} (h : ValidLabels outer)
    (hsuffix : inner <:+ outer) : ValidLabels inner := by
  obtain ⟨front, rfl⟩ := hsuffix
  refine ⟨fun l hl => h.1 l (List.mem_append_right _ hl), ?_⟩
  have hlen := h.2
  simp only [wireLength, List.map_append, List.sum_append] at hlen ⊢
  omega

theorem ValidLabels.map_lower {labels : List Label} (h : ValidLabels labels) :
    ValidLabels (labels.map lowerLabel) := by
  constructor
  · intro l hl
    obtain ⟨l', hl', rfl⟩ := List.mem_map.mp hl
    simpa using h.1 l' hl'
  · simpa [wireLength, Function.comp_def] using h.2

/-- A fully qualified domain name. -/
structure Name where
  labels : List Label
  valid : ValidLabels labels

namespace Name

/-- The case-folded labels, the top-level label first. -/
def path (n : Name) : Path := (n.labels.map lowerLabel).reverse

/-- `Name: PartialEq`, which does not look at ASCII case. -/
instance : BEq Name := ⟨fun a b => decide (a.path = b.path)⟩

theorem beq_iff_path {a b : Name} : (a == b) = true ↔ a.path = b.path := by
  simp [BEq.beq]

theorem beq_eq_false_iff {a b : Name} : (a == b) = false ↔ a.path ≠ b.path := by
  simp [BEq.beq]

theorem bne_iff_path {a b : Name} : (a != b) = true ↔ a.path ≠ b.path := by
  simp [bne, BEq.beq]

@[simp] theorem beq_self (a : Name) : (a == a) = true := by
  simp [beq_iff_path]

/-- `Name::root`. -/
def root : Name := ⟨[], by decide⟩

/-- `Name::is_root`. -/
def isRoot (n : Name) : Bool := n.labels.isEmpty

/-- `Name::base_name`: the parent, and the root for the root. -/
def baseName (n : Name) : Name :=
  ⟨n.labels.tail, n.valid.of_suffix (List.tail_suffix _)⟩

/-- `Name::trim_to`: the last `count` labels. -/
def trimTo (n : Name) (count : Nat) : Name :=
  ⟨n.labels.drop (n.labels.length - count), n.valid.of_suffix (List.drop_suffix _ _)⟩

/-- The label of a wildcard. -/
def starLabel : Label := [42]

/-- `Name::num_labels`: the number of labels, a leading wildcard label not counted. -/
def numLabels (n : Name) : Nat :=
  match n.labels with
  | [] => 0
  | first :: rest => if first = starLabel then rest.length else rest.length + 1

/-- `Name::to_lowercase`. -/
def toLowercase (n : Name) : Name :=
  ⟨n.labels.map lowerLabel, n.valid.map_lower⟩

/-- `Name::zone_of`: `n` is at or below `z`. -/
def zoneOf (z n : Name) : Bool := z.path.isPrefixOf n.path

/-- The canonical order of RFC 4034, which `Name: Ord` implements. -/
def canonicalLt (a b : Name) : Prop := a.path < b.path

instance (a b : Name) : Decidable (canonicalLt a b) := by
  unfold canonicalLt
  infer_instance

@[simp] theorem path_root : root.path = [] := rfl

@[simp] theorem path_toLowercase (n : Name) : n.toLowercase.path = n.path := by
  simp [path, toLowercase, Function.comp_def]

/-- Names that are equal have one lower-case form. -/
theorem toLowercase_congr {a b : Name} (h : a.path = b.path) : a.toLowercase = b.toLowercase := by
  have hlabels : a.labels.map lowerLabel = b.labels.map lowerLabel := List.reverse_injective h
  simp only [Name.toLowercase, hlabels]

theorem length_path (n : Name) : n.path.length = n.labels.length := by
  simp [path]

theorem isRoot_iff_path {n : Name} : n.isRoot = true ↔ n.path = [] := by
  simp [isRoot, path]

@[simp] theorem path_baseName (n : Name) : n.baseName.path = n.path.dropLast := by
  simp [path, baseName, List.map_tail, List.dropLast_reverse]

theorem eq_root_of_isRoot {n : Name} (h : n.isRoot = true) : n = .root := by
  obtain ⟨labels, valid⟩ := n
  have hlabels : labels = [] := List.isEmpty_iff.mp h
  subst hlabels
  rfl

theorem path_trimTo (n : Name) (count : Nat) : (n.trimTo count).path = n.path.take count := by
  simp [path, trimTo, List.take_reverse, List.map_drop]

/-- What consists of the last labels of a name is that name trimmed. -/
theorem eq_trimTo_of_suffix {n m : Name} (h : m.labels <:+ n.labels) :
    m = n.trimTo m.labels.length := by
  obtain ⟨front, hfront⟩ := h
  obtain ⟨labels, valid⟩ := m
  have hcount : n.labels.length - labels.length = front.length := by
    rw [← hfront, List.length_append, Nat.add_sub_cancel]
  simp only [trimTo, hcount, mk.injEq]
  rw [← hfront, List.drop_left]

theorem lowerLabel_eq_star {l : Label} : lowerLabel l = starLabel ↔ l = starLabel := by
  have hbyte : ∀ b : Byte, lowerByte b = 42 ↔ b = 42 := by decide +kernel
  cases l with
  | nil => simp [lowerLabel, starLabel]
  | cons b rest => simp [lowerLabel, starLabel, hbyte]

/-- The label count does not depend on letter case. -/
theorem numLabels_congr {a b : Name} (h : a.path = b.path) : a.numLabels = b.numLabels := by
  have hcount : ∀ n : Name, n.numLabels = match n.labels.map lowerLabel with
      | [] => 0
      | first :: rest => if first = starLabel then rest.length else rest.length + 1 := by
    intro n
    cases hn : n.labels with
    | nil => simp [numLabels, hn]
    | cons first rest => simp [numLabels, hn, lowerLabel_eq_star]
  have hlabels : a.labels.map lowerLabel = b.labels.map lowerLabel := List.reverse_injective h
  rw [hcount, hcount, hlabels]

theorem numLabels_le_length (n : Name) : n.numLabels ≤ n.path.length := by
  rw [length_path, numLabels]
  split
  · exact Nat.zero_le _
  · rename_i hlabels
    rw [hlabels, List.length_cons]
    split <;> omega

theorem zoneOf_iff {z n : Name} : z.zoneOf n = true ↔ z.path <+: n.path := by
  simp [zoneOf]

@[simp] theorem zoneOf_self (n : Name) : n.zoneOf n = true := by
  simp [zoneOf_iff]

theorem zoneOf_trans {a b c : Name} (hab : a.zoneOf b = true) (hbc : b.zoneOf c = true) :
    a.zoneOf c = true := by
  rw [zoneOf_iff] at *
  exact hab.trans hbc

theorem path_baseName_isPrefix (n : Name) : n.baseName.path <+: n.path := by
  rw [path_baseName]
  exact List.dropLast_prefix _

/-- The parent of a name below the root is another name. -/
theorem path_baseName_ne {n : Name} (h : n.path ≠ []) : n.baseName.path ≠ n.path := by
  intro heq
  have hlen := congrArg List.length heq
  have hpos := List.length_pos_iff.mpr h
  rw [path_baseName, List.length_dropLast] at hlen
  omega

theorem baseName_zoneOf (n : Name) : n.baseName.zoneOf n = true := by
  rw [zoneOf_iff]
  exact path_baseName_isPrefix n

/-- The loop that climbs from a name to the root, as the source writes it in several places. -/
def climb : Nat → Name → List Name
  | 0, cur => [cur]
  | steps + 1, cur => cur :: if cur.isRoot then [] else climb steps cur.baseName

/-- The name, its parent and so on, the root last. -/
def ancestors (n : Name) : List Name := climb n.labels.length n

theorem mem_climb {m cur : Name} {steps : Nat} (h : m ∈ climb steps cur) :
    m.zoneOf cur = true := by
  induction steps generalizing cur with
  | zero =>
      rw [List.mem_singleton.mp h]
      exact zoneOf_self cur
  | succ steps ih =>
      rcases List.mem_cons.mp h with rfl | htail
      · exact zoneOf_self m
      · split at htail
        · cases htail
        · exact zoneOf_trans (ih htail) (baseName_zoneOf cur)

theorem mem_ancestors {m n : Name} (h : m ∈ n.ancestors) : m.zoneOf n = true := mem_climb h

end Name
end UnifiedDns
