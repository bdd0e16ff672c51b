import UnifiedDns.Lib.EscapedText
import UnifiedDns.Dnssec.Redirection
import UnifiedDns.Dnssec.TrustChain

/-!
# DNAME substitution on labels and on text

A DNAME replaces the labels of its owner at the end of a name by the labels of its target.
`dname_substitute` cuts and joins printed names: the printed owner is cut off the printed name, and the
printed target is put in its place.

* `TextForm` — what is taken of the presentation format: escapes, and a parser that reads back what is
  printed.
* `ReplacesSuffix` — the law on labels: the name that fits the wire format, or `YXDOMAIN`.
* `dnameSubstitute_eq` — the function on the joined text.
* `joinedText_below`, `joinedText_belowRoot` — the root prints as a dot that closes no label, so a root
  owner takes the dot of the last label with it, and a root target leaves one dot too many.
* `dnameSubstitute_replacesSuffix_iff` — when the function obeys the law.
-/

namespace UnifiedDns
namespace Dnssec

open EscapedText

/-- The octet `\`. -/
def backslash : Byte := 92

/-- Labels in presentation format, each followed by a dot. -/
def labelsText (P : Platform) (labels : List Label) : Text :=
  labels.flatMap fun l => P.labelText l ++ [dot]

/-- What is taken of the presentation format. -/
structure TextForm (P : Platform) : Prop where
  /-- A dot in a label is printed behind a backslash. -/
  label : ∀ l, Closed dot backslash (P.labelText l)
  /-- Escapes have no case. -/
  lowercase : ∀ n : Name, P.nameKey n = P.nameText n.toLowercase
  /-- What is printed is read back, unless it is too long for a name. -/
  parse : ∀ labels : List Label, labels ≠ [] → (∀ l ∈ labels, 1 ≤ l.length ∧ l.length ≤ 63) →
    P.parseName (labelsText P labels) =
      if h : ValidLabels labels then some ⟨labels, h⟩ else none
  /-- Each dot that is not escaped closes a label. -/
  parse_separators : ∀ text n, P.parseName (text ++ [dot]) = some n → n.labels ≠ [] →
    separators dot backslash (text ++ [dot]) = n.labels.length

/-- The labels of a name in front of those of an owner above it. -/
def substitutedPrefix (name dnameOwner : Name) : List Label :=
  name.labels.take (name.labels.length - dnameOwner.labels.length)

/-- The labels a substitution should give. -/
def substitutedLabels (name dnameOwner target : Name) : List Label :=
  substitutedPrefix name dnameOwner ++ target.labels

/-- Suffix replacement: the result is the name with these labels, up to case, if it fits the wire
format, and `YXDOMAIN` if not. -/
structure ReplacesSuffix (name dnameOwner target : Name) (result : Except ResponseCode Name) :
    Prop where
  fits : wireLength (substitutedLabels name dnameOwner target) ≤ 255 →
    ∃ m, result = .ok m ∧
      m.labels.map lowerLabel = (substitutedLabels name dnameOwner target).map lowerLabel
  tooLong : 255 < wireLength (substitutedLabels name dnameOwner target) → result = .error .yxDomain

/-- The text the function joins. -/
def joinedText (P : Platform) (name dnameOwner target : Name) : Text :=
  (P.nameKey name).take ((P.nameKey name).length - (P.nameKey dnameOwner).length) ++
    P.nameText target

/-- The length limits of the function: 255 octets of text and 63 between dots, escaped or not. -/
def FitsAsText (text : Text) : Prop :=
  text.length ≤ 255 ∧ ∀ piece ∈ splitDots (trimEndDots text), piece.length ≤ 63

instance (text : Text) : Decidable (FitsAsText text) := by
  unfold FitsAsText
  infer_instance

/-- When the function obeys the law: by whether the owner and the target are the root. -/
def TextReplaces (P : Platform) (name dnameOwner target : Name) : Prop :=
  match dnameOwner.isRoot, target.isRoot with
  -- The joined text is the printed result, and the limits are on what is printed.
  | false, false => wireLength (substitutedLabels name dnameOwner target) ≤ 255 →
      FitsAsText (joinedText P name dnameOwner target)
  | true, true => FitsAsText (joinedText P name dnameOwner target)
  -- The joined text ends with two dots.
  | false, true => False
  -- The last label of the name and the first of the target run together.
  | true, false => 255 < wireLength (substitutedLabels name dnameOwner target) ∧
      (FitsAsText (joinedText P name dnameOwner target) →
        P.parseName (joinedText P name dnameOwner target) = none)

section Labels

variable {name dnameOwner target : Name}

/-- A name below an owner ends with the labels of the owner, up to case. -/
theorem substitutedPrefix_append (hbelow : dnameOwner.path <+: name.path) :
    (substitutedPrefix name dnameOwner).map lowerLabel ++ dnameOwner.labels.map lowerLabel =
      name.labels.map lowerLabel := by
  have hsuffix : dnameOwner.labels.map lowerLabel <:+ name.labels.map lowerLabel :=
    List.reverse_prefix.mp hbelow
  obtain ⟨front, hfront⟩ := hsuffix
  have hlength := congrArg List.length hfront
  simp only [List.length_append, List.length_map] at hlength
  rw [substitutedPrefix, List.map_take, ← hfront]
  congr 1
  rw [List.take_append_of_le_length (by omega)]
  exact List.take_of_length_le (by omega)

theorem substitutedPrefix_ne_nil (hbelow : dnameOwner.path <+: name.path)
    (hne : dnameOwner.path ≠ name.path) : substitutedPrefix name dnameOwner ≠ [] := by
  intro hnil
  have happend := substitutedPrefix_append hbelow
  rw [hnil, List.map_nil, List.nil_append] at happend
  exact hne (congrArg List.reverse happend)

theorem length_of_mem_substitutedLabels {l : Label}
    (hl : l ∈ (substitutedPrefix name dnameOwner).map lowerLabel ++ target.labels) :
    1 ≤ l.length ∧ l.length ≤ 63 := by
  rcases List.mem_append.mp hl with hfront | htarget
  · obtain ⟨l', hl', rfl⟩ := List.mem_map.mp hfront
    rw [length_lowerLabel]
    exact name.valid.1 l' (List.mem_of_mem_take hl')
  · exact target.valid.1 l htarget

theorem wireLength_map_lower_append (front rest : List Label) :
    wireLength (front.map lowerLabel ++ rest) = wireLength (front ++ rest) := by
  simp [wireLength, Function.comp_def]

theorem wireLength_take_le (labels : List Label) (count : Nat) :
    wireLength (labels.take count) ≤ wireLength labels := by
  conv_rhs => rw [← List.take_append_drop count labels]
  simp only [wireLength, List.map_append, List.sum_append]
  omega

theorem substitutedPrefix_rootOwner (howner : dnameOwner.labels = []) :
    substitutedPrefix name dnameOwner = name.labels := by
  rw [substitutedPrefix, howner]
  exact List.take_length

/-- A name below the root has a last label. -/
theorem exists_last_label (howner : dnameOwner.labels = []) (hne : dnameOwner.path ≠ name.path) :
    ∃ init last, name.labels = init ++ [last] := by
  rcases List.eq_nil_or_concat name.labels with hnil | ⟨init, last, hconcat⟩
  · have hpath : dnameOwner.path = name.path := by simp only [Name.path, howner, hnil]
    exact absurd hpath hne
  · exact ⟨init, last, by rw [hconcat, List.concat_eq_append]⟩

end Labels

section Text

variable {P : Platform} {name dnameOwner target : Name}

/-- The function on the joined text: the limits first, then the parser. -/
theorem dnameSubstitute_eq (hbelow : dnameOwner.path <+: name.path)
    (hne : dnameOwner.path ≠ name.path) (hsuffix : P.nameKey dnameOwner <:+ P.nameKey name) :
    dnameSubstitute P name dnameOwner target =
      if FitsAsText (joinedText P name dnameOwner target) then
        match P.parseName (joinedText P name dnameOwner target) with
        | some redirected => .ok redirected
        | none => .error .yxDomain
      else .error .yxDomain := by
  have hzone : dnameOwner.zoneOf name = true := Name.zoneOf_iff.mpr hbelow
  have hnot : (dnameOwner == name) = false := Name.beq_eq_false_iff.mpr hne
  have hends : (P.nameKey dnameOwner).isSuffixOf (P.nameKey name) = true :=
    List.isSuffixOf_iff_suffix.mpr hsuffix
  have hpieces : ∀ text : Text,
      ((splitDots (trimEndDots text)).any fun label => decide (63 < label.length)) = true ↔
        ¬ ∀ piece ∈ splitDots (trimEndDots text), piece.length ≤ 63 := by
    intro text
    simp
  simp only [dnameSubstitute, hzone, hnot, hends, Bool.not_true, Bool.or_self, Bool.false_eq_true,
    if_false, hpieces]
  rw [← joinedText]
  by_cases hlength : 255 < (joinedText P name dnameOwner target).length
  · have hfits : ¬ FitsAsText (joinedText P name dnameOwner target) := fun h =>
      absurd h.1 (Nat.not_le.mpr hlength)
    rw [if_pos hlength, if_neg hfits]
  · rw [if_neg hlength]
    by_cases hlabels : ∀ piece ∈ splitDots (trimEndDots (joinedText P name dnameOwner target)),
        piece.length ≤ 63
    · have hfits : FitsAsText (joinedText P name dnameOwner target) :=
        ⟨Nat.not_lt.mp hlength, hlabels⟩
      rw [if_neg (not_not.mpr hlabels)]
      exact (if_pos hfits).symm
    · have hfits : ¬ FitsAsText (joinedText P name dnameOwner target) := fun h => hlabels h.2
      rw [if_pos hlabels, if_neg hfits]

/-- What comes out was read from a joined text within the limits. -/
theorem read_of_ok {m : Name} (hbelow : dnameOwner.path <+: name.path)
    (hne : dnameOwner.path ≠ name.path) (hsuffix : P.nameKey dnameOwner <:+ P.nameKey name)
    (h : dnameSubstitute P name dnameOwner target = .ok m) :
    FitsAsText (joinedText P name dnameOwner target) ∧
      P.parseName (joinedText P name dnameOwner target) = some m := by
  rw [dnameSubstitute_eq hbelow hne hsuffix] at h
  split at h
  · rename_i hfits
    split at h
    · rename_i redirected hparse
      cases h
      exact ⟨hfits, hparse⟩
    · cases h
  · cases h

theorem labelsText_append (front rest : List Label) :
    labelsText P (front ++ rest) = labelsText P front ++ labelsText P rest :=
  List.flatMap_append

theorem labelsText_dotted {labels : List Label} (hne : labels ≠ []) :
    ∃ text, labelsText P labels = text ++ [dot] := by
  rcases List.eq_nil_or_concat labels with hnil | ⟨init, last, rfl⟩
  · exact absurd hnil hne
  · exact ⟨labelsText P init ++ P.labelText last, by simp [labelsText]⟩

theorem nameText_root {n : Name} (hroot : n.labels = []) : P.nameText n = [dot] := by
  simp [Platform.nameText, Platform.presentation, hroot]

theorem nameText_of_ne {n : Name} (hne : n.labels ≠ []) :
    P.nameText n = labelsText P n.labels := by
  simp [Platform.nameText, Platform.presentation, hne, labelsText]

variable (hform : TextForm P)
include hform

theorem TextForm.nameKey_root {n : Name} (hroot : n.labels = []) : P.nameKey n = [dot] := by
  rw [hform.lowercase]
  exact nameText_root (by simp [Name.toLowercase, hroot])

theorem TextForm.nameKey_of_ne {n : Name} (hne : n.labels ≠ []) :
    P.nameKey n = labelsText P (n.labels.map lowerLabel) := by
  rw [hform.lowercase]
  exact nameText_of_ne (by simpa [Name.toLowercase] using hne)

theorem TextForm.separators_labelsText (labels : List Label) (rest : Text) :
    separators dot backslash (labelsText P labels ++ rest) =
      labels.length + separators dot backslash rest :=
  Closed.items hform.label labels rest

/-- The printed owner stands at the end of the printed name, and what is before it are the labels in
front of the owner. -/
theorem joinedText_below (hbelow : dnameOwner.path <+: name.path) (howner : dnameOwner.labels ≠ []) :
    P.nameKey dnameOwner <:+ P.nameKey name ∧
      joinedText P name dnameOwner target =
        labelsText P ((substitutedPrefix name dnameOwner).map lowerLabel) ++ P.nameText target := by
  have happend := substitutedPrefix_append hbelow
  have hname : name.labels ≠ [] := by
    intro hnil
    rw [hnil, List.map_nil, List.append_eq_nil_iff] at happend
    exact howner (List.map_eq_nil_iff.mp happend.2)
  have hkey : P.nameKey name =
      labelsText P ((substitutedPrefix name dnameOwner).map lowerLabel) ++ P.nameKey dnameOwner := by
    rw [hform.nameKey_of_ne hname, hform.nameKey_of_ne howner, ← happend, labelsText_append]
  refine ⟨⟨_, hkey.symm⟩, ?_⟩
  rw [joinedText, hkey, List.length_append, Nat.add_sub_cancel, List.take_left']
  rfl

/-- Below the root the last label of the name is cut off without its dot. -/
theorem joinedText_belowRoot (howner : dnameOwner.labels = []) {init : List Label} {last : Label}
    (hname : name.labels = init ++ [last]) :
    P.nameKey dnameOwner <:+ P.nameKey name ∧
      joinedText P name dnameOwner target =
        labelsText P (init.map lowerLabel) ++ P.labelText (lowerLabel last) ++ P.nameText target := by
  have hkey : P.nameKey name =
      (labelsText P (init.map lowerLabel) ++ P.labelText (lowerLabel last)) ++ [dot] := by
    rw [hform.nameKey_of_ne (by simp [hname]), hname, List.map_append, labelsText_append]
    simp [labelsText]
  have hdot := hform.nameKey_root howner
  refine ⟨⟨_, by rw [hdot, hkey]⟩, ?_⟩
  rw [joinedText, hdot, hkey, List.length_append, Nat.add_sub_cancel, List.take_left']
  rfl

end Text

section Law

variable {P : Platform} {name dnameOwner target : Name}
variable (hform : TextForm P) (hbelow : dnameOwner.path <+: name.path)
variable (hne : dnameOwner.path ≠ name.path)
include hform hbelow hne

/-- Below another owner and with another target than the root, the joined text is the printed result. -/
theorem replacesSuffix_iff_of_ne (howner : dnameOwner.labels ≠ []) (htarget : target.labels ≠ []) :
    ReplacesSuffix name dnameOwner target (dnameSubstitute P name dnameOwner target) ↔
      (wireLength (substitutedLabels name dnameOwner target) ≤ 255 →
        FitsAsText (joinedText P name dnameOwner target)) := by
  obtain ⟨hsuffix, hjoined⟩ := @joinedText_below P name dnameOwner target hform hbelow howner
  rw [nameText_of_ne htarget, ← labelsText_append] at hjoined
  have hlabels := @length_of_mem_substitutedLabels name dnameOwner target
  have hwire := wireLength_map_lower_append (substitutedPrefix name dnameOwner) target.labels
  have hparse := hform.parse _ (List.append_ne_nil_of_right_ne_nil _ htarget) (fun l => hlabels)
  rw [← hjoined] at hparse
  by_cases hfitsWire : wireLength (substitutedLabels name dnameOwner target) ≤ 255
  · have hvalid : ValidLabels ((substitutedPrefix name dnameOwner).map lowerLabel ++ target.labels) :=
      ⟨fun l => hlabels, hwire.trans_le hfitsWire⟩
    rw [dif_pos hvalid] at hparse
    constructor
    · intro hlaw _
      obtain ⟨m, hm, -⟩ := hlaw.fits hfitsWire
      exact (read_of_ok hbelow hne hsuffix hm).1
    · intro hfits
      rw [dnameSubstitute_eq hbelow hne hsuffix, if_pos (hfits hfitsWire), hparse]
      refine ⟨fun _ => ⟨_, rfl, ?_⟩, fun htooLong => absurd hfitsWire (Nat.not_le.mpr htooLong)⟩
      simp [substitutedLabels, Function.comp_def]
  · have hinvalid :
        ¬ ValidLabels ((substitutedPrefix name dnameOwner).map lowerLabel ++ target.labels) :=
      fun hvalid => hfitsWire (hwire ▸ hvalid.2)
    rw [dif_neg hinvalid] at hparse
    -- Whether or not the text is within the limits, it is no name.
    refine iff_of_true ⟨fun h => absurd h hfitsWire, fun _ => ?_⟩ fun h => absurd h hfitsWire
    rw [dnameSubstitute_eq hbelow hne hsuffix, hparse]
    exact ite_self _

/-- A root target leaves an empty label in the joined text. -/
theorem not_replacesSuffix_rootTarget (howner : dnameOwner.labels ≠ [])
    (htarget : target.labels = []) :
    ¬ ReplacesSuffix name dnameOwner target (dnameSubstitute P name dnameOwner target) := by
  intro hlaw
  obtain ⟨hsuffix, hjoined⟩ := @joinedText_below P name dnameOwner target hform hbelow howner
  have hfitsWire : wireLength (substitutedLabels name dnameOwner target) ≤ 255 := by
    rw [substitutedLabels, htarget, List.append_nil]
    exact (wireLength_take_le _ _).trans name.valid.2
  obtain ⟨m, hm, hlabels⟩ := hlaw.fits hfitsWire
  have hlength := congrArg List.length hlabels
  simp only [substitutedLabels, htarget, List.append_nil, List.length_map] at hlength
  have hpos := List.length_pos_iff.mpr (substitutedPrefix_ne_nil hbelow hne)
  have hparse := (read_of_ok hbelow hne hsuffix hm).2
  rw [hjoined, nameText_root htarget] at hparse
  have hdots := hform.parse_separators _ m hparse (List.length_pos_iff.mp (hlength ▸ hpos))
  -- The dot of the root closes a label that the result does not have.
  rw [hform.separators_labelsText, separators_sep, separators_nil, List.length_map] at hdots
  omega

/-- From the root to the root, the joined text is the printed name. -/
theorem replacesSuffix_iff_root (howner : dnameOwner.labels = []) (htarget : target.labels = []) :
    ReplacesSuffix name dnameOwner target (dnameSubstitute P name dnameOwner target) ↔
      FitsAsText (joinedText P name dnameOwner target) := by
  obtain ⟨init, last, hname⟩ := exists_last_label howner hne
  obtain ⟨hsuffix, hjoined⟩ := @joinedText_belowRoot P name dnameOwner target hform howner _ _ hname
  have hprinted : joinedText P name dnameOwner target = labelsText P (name.labels.map lowerLabel) := by
    rw [hjoined, nameText_root htarget, hname, List.map_append, labelsText_append, List.append_assoc]
    simp [labelsText]
  have hlabels : substitutedLabels name dnameOwner target = name.labels := by
    rw [substitutedLabels, substitutedPrefix_rootOwner howner, htarget, List.append_nil]
  have hparse := hform.parse (name.labels.map lowerLabel) (by simp [hname]) name.valid.map_lower.1
  rw [dif_pos name.valid.map_lower, ← hprinted] at hparse
  constructor
  · intro hlaw
    obtain ⟨m, hm, -⟩ := hlaw.fits (hlabels ▸ name.valid.2)
    exact (read_of_ok hbelow hne hsuffix hm).1
  · intro hfits
    rw [dnameSubstitute_eq hbelow hne hsuffix, if_pos hfits, hparse]
    refine ⟨fun _ => ⟨_, rfl, ?_⟩, fun htooLong => ?_⟩
    · rw [hlabels]
      simp [Function.comp_def]
    · rw [hlabels] at htooLong
      exact absurd name.valid.2 (Nat.not_le.mpr htooLong)

/-- Below the root the dot of the last label is missing in the joined text, so what comes out, if
anything, has one label less. -/
theorem replacesSuffix_iff_rootOwner (howner : dnameOwner.labels = []) (htarget : target.labels ≠ []) :
    ReplacesSuffix name dnameOwner target (dnameSubstitute P name dnameOwner target) ↔
      255 < wireLength (substitutedLabels name dnameOwner target) ∧
        (FitsAsText (joinedText P name dnameOwner target) →
          P.parseName (joinedText P name dnameOwner target) = none) := by
  obtain ⟨init, last, hname⟩ := exists_last_label howner hne
  obtain ⟨hsuffix, hjoined⟩ := @joinedText_belowRoot P name dnameOwner target hform howner _ _ hname
  constructor
  · intro hlaw
    have htooLong : 255 < wireLength (substitutedLabels name dnameOwner target) := by
      by_contra hfitsWire
      obtain ⟨m, hm, hlabels⟩ := hlaw.fits (Nat.not_lt.mp hfitsWire)
      have hlength := congrArg List.length hlabels
      simp only [substitutedLabels, substitutedPrefix_rootOwner howner, hname, List.length_map,
        List.length_append, List.length_singleton] at hlength
      have hparse := (read_of_ok hbelow hne hsuffix hm).2
      -- The text has one dot less than the result has labels.
      obtain ⟨text, hdotted⟩ := @labelsText_dotted P _ htarget
      rw [hjoined, nameText_of_ne htarget, hdotted, ← List.append_assoc] at hparse
      have hdots := hform.parse_separators _ m hparse (List.ne_nil_of_length_eq_add_one
        (n := init.length + target.labels.length) (by omega))
      rw [List.append_assoc, ← hdotted, List.append_assoc, hform.separators_labelsText, hform.label,
        ← List.append_nil (labelsText P target.labels), hform.separators_labelsText, separators_nil,
        List.length_map] at hdots
      omega
    refine ⟨htooLong, fun hfits => ?_⟩
    have hresult := hlaw.tooLong htooLong
    rw [dnameSubstitute_eq hbelow hne hsuffix, if_pos hfits] at hresult
    cases hparse : P.parseName (joinedText P name dnameOwner target) with
    | none => rfl
    | some m =>
        rw [hparse] at hresult
        cases hresult
  · rintro ⟨htooLong, hrefused⟩
    refine ⟨fun hfitsWire => absurd hfitsWire (Nat.not_le.mpr htooLong), fun _ => ?_⟩
    rw [dnameSubstitute_eq hbelow hne hsuffix]
    by_cases hfits : FitsAsText (joinedText P name dnameOwner target)
    · rw [if_pos hfits, hrefused hfits]
    · rw [if_neg hfits]

end Law

/-- `dname_substitute` replaces the suffix exactly when owner and target are both below the root and the
printed result, if it fits the wire format, fits the limits on text, when both are the root and the
printed name fits them, or when the owner alone is the root, the result is too long, and so is the text
that is joined, or no name reads like it. -/
theorem dnameSubstitute_replacesSuffix_iff {P : Platform} (hform : TextForm P)
    {name dnameOwner target : Name} (hbelow : dnameOwner.path <+: name.path)
    (hne : dnameOwner.path ≠ name.path) :
    ReplacesSuffix name dnameOwner target (dnameSubstitute P name dnameOwner target) ↔
      TextReplaces P name dnameOwner target := by
  unfold TextReplaces
  cases howner : dnameOwner.isRoot with
  | false =>
      have hownerLabels : dnameOwner.labels ≠ [] := by simpa [Name.isRoot] using howner
      cases htarget : target.isRoot with
      | false =>
          have htargetLabels : target.labels ≠ [] := by simpa [Name.isRoot] using htarget
          exact replacesSuffix_iff_of_ne hform hbelow hne hownerLabels htargetLabels
      | true =>
          exact iff_false_intro (not_replacesSuffix_rootTarget hform hbelow hne hownerLabels
            (List.isEmpty_iff.mp htarget))
  | true =>
      have hownerLabels : dnameOwner.labels = [] := List.isEmpty_iff.mp howner
      cases htarget : target.isRoot with
      | false =>
          have htargetLabels : target.labels ≠ [] := by simpa [Name.isRoot] using htarget
          exact replacesSuffix_iff_rootOwner hform hbelow hne hownerLabels htargetLabels
      | true =>
          exact replacesSuffix_iff_root hform hbelow hne hownerLabels (List.isEmpty_iff.mp htarget)

section Unescaping

/-- An octet in front of the first label. -/
def pushByte (b : Byte) : List Label → List Label
  | [] => [[b]]
  | label :: rest => (b :: label) :: rest

/-- `0` to `9`. -/
def isDigitByte (b : Byte) : Bool := decide (48 ≤ b) && decide (b ≤ 57)

/-- The octet that three digits stand for. -/
def digitsByte (hundreds tens ones : Byte) : Byte :=
  Fin.ofNat 256 (100 * (hundreds.val - 48) + 10 * (tens.val - 48) + (ones.val - 48))

/-- Cut a text at the dots that are not escaped; what stands behind the last one is the last piece. -/
def readText : Text → Option (List Label)
  | [] => some [[]]
  | b :: rest =>
      if b = dot then (readText rest).map ([] :: ·)
      else if b = backslash then
        match rest with
        | hundreds :: tens :: ones :: rest =>
            if isDigitByte hundreds && isDigitByte tens && isDigitByte ones then
              (readText rest).map (pushByte (digitsByte hundreds tens ones))
            else none
        | _ => none
      else (readText rest).map (pushByte b)

/-- A parser for fully qualified names. -/
def parseText (text : Text) : Option Name :=
  -- The root is the only name with nothing before its dot.
  if text = [dot] then some .root
  else
    match readText text with
    | none => none
    | some pieces =>
        if h : ValidLabels pieces.dropLast then
          if pieces.getLast? = some [] then some ⟨pieces.dropLast, h⟩ else none
        else none

/-- `Platform.plain` with a parser that reads escapes. -/
def unescapingPlatform : Platform := { Platform.plain with parseName := parseText }

theorem plainByte_ne {b : Byte} (h : plainByte b = true) : b ≠ dot ∧ b ≠ backslash := by
  revert b
  decide +kernel

theorem isDigitByte_digitByte (n : Nat) : isDigitByte (digitByte n) = true := by
  have hall : ∀ d : Fin 10, isDigitByte (Fin.ofNat 256 (48 + d.val)) = true := by decide
  exact hall ⟨n % 10, Nat.mod_lt _ (by omega)⟩

theorem isDigitByte_ne {b : Byte} (h : isDigitByte b = true) : b ≠ dot ∧ b ≠ backslash := by
  revert b
  decide +kernel

theorem digitsByte_digitByte (b : Byte) :
    digitsByte (digitByte (b.val / 100)) (digitByte (b.val / 10)) (digitByte b.val) = b := by
  revert b
  decide +kernel

theorem backslash_ne_dot : backslash ≠ dot := by decide

theorem readText_dot (rest : Text) : readText (dot :: rest) = (readText rest).map ([] :: ·) := by
  rw [readText.eq_def]
  exact if_pos rfl

theorem readText_plain {b : Byte} (hdot : b ≠ dot) (hbackslash : b ≠ backslash) (rest : Text) :
    readText (b :: rest) = (readText rest).map (pushByte b) := by
  rw [readText.eq_def]
  exact (if_neg hdot).trans (if_neg hbackslash)

theorem readText_escape {hundreds tens ones : Byte} (rest : Text) :
    readText (backslash :: hundreds :: tens :: ones :: rest) =
      if isDigitByte hundreds && isDigitByte tens && isDigitByte ones then
        (readText rest).map (pushByte (digitsByte hundreds tens ones))
      else none := by
  rw [readText.eq_def]
  exact (if_neg backslash_ne_dot).trans (if_pos rfl)

theorem readText_escapeByte (b : Byte) (rest : Text) :
    readText (escapeByte b ++ rest) = (readText rest).map (pushByte b) := by
  unfold escapeByte
  split
  · rename_i hplain
    obtain ⟨hdot, hbackslash⟩ := plainByte_ne hplain
    exact readText_plain hdot hbackslash rest
  · change readText (backslash :: digitByte (b.val / 100) :: digitByte (b.val / 10) ::
      digitByte b.val :: rest) = _
    rw [readText_escape]
    simp only [isDigitByte_digitByte, Bool.and_self, if_true, digitsByte_digitByte]

/-- A label and its dot are read back in front of the rest. -/
theorem readText_dottedLabel (l : Label) (rest : Text) :
    readText (dottedLabel l ++ rest) = (readText rest).map (l :: ·) := by
  have hlabel : ∀ l : Label, ∀ text, readText (escapeLabel l ++ text) =
      (readText text).map fun pieces => l.foldr pushByte pieces := by
    intro l
    induction l with
    | nil =>
        intro text
        simp [escapeLabel]
    | cons b l ih =>
        intro text
        have hcons : escapeLabel (b :: l) ++ text = escapeByte b ++ (escapeLabel l ++ text) := by
          simp [escapeLabel]
        rw [hcons, readText_escapeByte, ih, Option.map_map]
        rfl
  have hpush : ∀ pieces : List Label, l.foldr pushByte ([] :: pieces) = l :: pieces := by
    intro pieces
    induction l with
    | nil => rfl
    | cons b l ih => rw [List.foldr_cons, ih, pushByte]
  rw [dottedLabel, List.append_assoc, hlabel, List.singleton_append, readText_dot, Option.map_map]
  simp only [Function.comp_def, hpush]

theorem readText_labelsText (labels : List Label) :
    readText (labels.flatMap dottedLabel) = some (labels ++ [[]]) := by
  induction labels with
  | nil => rfl
  | cons l labels ih =>
      rw [List.flatMap_cons, readText_dottedLabel, ih]
      rfl

theorem pushByte_length {b : Byte} {pieces : List Label} (h : 0 < pieces.length) :
    (pushByte b pieces).length = pieces.length := by
  cases pieces with
  | nil => cases h
  | cons => rfl

/-- There is one piece more than there are dots. -/
theorem length_of_readText (text : Text) {pieces : List Label} (h : readText text = some pieces) :
    pieces.length = separators dot backslash text + 1 := by
  fun_induction readText text generalizing pieces with
  | case1 =>
      cases h
      rfl
  | case2 rest ih =>
      obtain ⟨pieces', hpieces', rfl⟩ := Option.map_eq_some_iff.mp h
      rw [separators_sep, List.length_cons, ih hpieces']
  | case3 hundreds tens ones rest hdigits hdot ih =>
      simp only [Bool.and_eq_true] at hdigits
      obtain ⟨pieces', hpieces', rfl⟩ := Option.map_eq_some_iff.mp h
      have hlength := ih hpieces'
      obtain ⟨htensDot, htensBackslash⟩ := isDigitByte_ne hdigits.1.2
      obtain ⟨honesDot, honesBackslash⟩ := isDigitByte_ne hdigits.2
      rw [separators_esc hdot, separators_other htensDot htensBackslash,
        separators_other honesDot honesBackslash, pushByte_length (by omega), hlength]
  | case4 => cases h
  | case5 => cases h
  | case6 b rest hdot hbackslash ih =>
      obtain ⟨pieces', hpieces', rfl⟩ := Option.map_eq_some_iff.mp h
      have hlength := ih hpieces'
      rw [separators_other hdot hbackslash, pushByte_length (by omega), hlength]

theorem closed_escapeByte (b : Byte) : Closed dot backslash (escapeByte b) := by
  intro rest
  unfold escapeByte
  split
  · rename_i hplain
    obtain ⟨hdot, hbackslash⟩ := plainByte_ne hplain
    exact separators_other hdot hbackslash rest
  · obtain ⟨htensDot, htensBackslash⟩ := isDigitByte_ne (isDigitByte_digitByte (b.val / 10))
    obtain ⟨honesDot, honesBackslash⟩ := isDigitByte_ne (isDigitByte_digitByte b.val)
    change separators dot backslash (backslash :: digitByte (b.val / 100) ::
      digitByte (b.val / 10) :: digitByte b.val :: rest) = _
    rw [separators_esc backslash_ne_dot, separators_other htensDot htensBackslash,
      separators_other honesDot honesBackslash]

theorem unescaping_textForm : TextForm unescapingPlatform where
  label l := Closed.flatMap closed_escapeByte l
  lowercase n := by
    refine (plain_nameKey n).trans ?_
    simp [Platform.nameText, Platform.presentation, Name.toLowercase]
    rfl
  parse labels hne hlabels := by
    have htext : labelsText unescapingPlatform labels = labels.flatMap dottedLabel := rfl
    have hnonempty : ∀ l ∈ labels, l ≠ [] := by
      intro l hl hnil
      have hlength := (hlabels l hl).1
      rw [hnil] at hlength
      cases hlength
    change parseText (labelsText unescapingPlatform labels) = _
    rw [htext, parseText, if_neg (flatMap_dottedLabel_ne_dot hnonempty hne), readText_labelsText]
    simp
  parse_separators text n hparse hne := by
    change parseText (text ++ [dot]) = some n at hparse
    unfold parseText at hparse
    split at hparse
    · cases hparse
      exact absurd rfl hne
    · split at hparse
      · cases hparse
      · rename_i pieces hpieces
        split at hparse
        · split at hparse
          · cases hparse
            rw [List.length_dropLast, length_of_readText _ hpieces, Nat.add_sub_cancel]
          · cases hparse
        · cases hparse

end Unescaping

/-- A result that obeys the law, where the labels fit. -/
theorem ReplacesSuffix.labels {name dnameOwner target : Name} {result : Except ResponseCode Name}
    (h : ReplacesSuffix name dnameOwner target result)
    (hfits : wireLength (substitutedLabels name dnameOwner target) ≤ 255) :
    (result.toOption.map fun m => m.labels.map lowerLabel) =
      some ((substitutedLabels name dnameOwner target).map lowerLabel) := by
  obtain ⟨m, rfl, hlabels⟩ := h.fits hfits
  exact congrArg some hlabels

/-- A name of two labels with one octet each. -/
def pairName (first second : Byte) : Name := ⟨[[first], [second]], by simp [ValidLabels, wireLength]⟩

/-- A label of sixteen octets 0 below `b.` -/
def zerosName : Name := ⟨[List.replicate 16 0, [98]], by decide⟩

/-- `a.b.` under a DNAME from `b.` to `c.` becomes `a.c.` -/
theorem dnameSubstitute_replacesSuffix_iff_sibling :
    ReplacesSuffix (pairName 97 98) (topName 98) (topName 99)
      (dnameSubstitute unescapingPlatform (pairName 97 98) (topName 98) (topName 99)) := by
  have hbelow : (topName 98).path <+: (pairName 97 98).path := by decide
  have hne : (topName 98).path ≠ (pairName 97 98).path := by decide
  refine (dnameSubstitute_replacesSuffix_iff unescaping_textForm hbelow hne).mpr ?_
  exact fun _ => by decide +kernel

/-- The law fails for a root target, for a root owner and for octets that are escaped: `a.b.` under a
DNAME from `b.` to the root is refused instead of `a.`, `a.` under one from the root to `b.` becomes
`ab.`, and a label of sixteen octets 0, printed as 64, is refused. -/
theorem substitution_breaks_law :
    TextForm unescapingPlatform ∧
      ¬ ReplacesSuffix (pairName 97 98) (topName 98) .root
          (dnameSubstitute unescapingPlatform (pairName 97 98) (topName 98) .root) ∧
      ¬ ReplacesSuffix (topName 97) .root (topName 98)
          (dnameSubstitute unescapingPlatform (topName 97) .root (topName 98)) ∧
      ¬ ReplacesSuffix zerosName (topName 98) (topName 99)
          (dnameSubstitute unescapingPlatform zerosName (topName 98) (topName 99)) := by
  refine ⟨unescaping_textForm, ?_, ?_, ?_⟩
  · intro hlaw
    exact absurd (hlaw.labels (by decide)) (by decide +kernel)
  · intro hlaw
    exact absurd (hlaw.labels (by decide)) (by decide +kernel)
  · intro hlaw
    exact absurd (hlaw.labels (by decide)) (by decide +kernel)

end Dnssec
end UnifiedDns
