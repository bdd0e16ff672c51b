import Mathlib.Data.List.DropRight
import Mathlib.Tactic.Common

/-!
# Lines of text

Texts are lists of characters.

* `isWhitespace`, `trimText` — `char::is_whitespace` and `str::trim`.
* `splitOnce` — what stands before and behind the first separator.
* `splitLines`, `writeLines` — `BufRead::lines`, and lines with their ends; `splitLines_writeLines` — lines that
  have no end of a line in them are read back.
-/

namespace UnifiedDns

/-! ### Blanks -/

/-- `char::is_whitespace`. -/
def isWhitespace (c : Char) : Bool :=
  decide (9 ≤ c.toNat ∧ c.toNat ≤ 13) || decide (8192 ≤ c.toNat ∧ c.toNat ≤ 8202) ||
    [32, 133, 160, 5760, 8232, 8233, 8239, 8287, 12288].contains c.toNat

/-- `str::trim`. -/
def trimText (text : List Char) : List Char := (text.dropWhile isWhitespace).rdropWhile isWhitespace

theorem trimText_trimText (text : List Char) : trimText (trimText text) = trimText text := by
  unfold trimText
  have hfront : ((text.dropWhile isWhitespace).rdropWhile isWhitespace).dropWhile isWhitespace =
      (text.dropWhile isWhitespace).rdropWhile isWhitespace := by
    rw [List.dropWhile_eq_self_iff]
    intro hlength
    -- What is cut off at the end leaves the first character alone.
    have hne : text.dropWhile isWhitespace ≠ [] := by
      intro hnil
      rw [hnil] at hlength
      exact absurd hlength (by simp)
    obtain ⟨c, rest, hcons⟩ := List.exists_cons_of_ne_nil hne
    have hc := List.head_dropWhile_not isWhitespace hne
    have hsame := (List.rdropWhile_prefix isWhitespace (l := text.dropWhile isWhitespace)).getElem hlength
    simp only [hcons, List.head_cons] at hc
    rw [hsame]
    simp only [hcons, List.getElem_cons_zero, hc, Bool.false_eq_true, not_false_eq_true]
  rw [hfront, List.rdropWhile_idempotent]

/-- Trimming only takes away. -/
theorem trimText_within (text : List Char) : trimText text <:+: text :=
  (List.rdropWhile_prefix isWhitespace _).isInfix.trans (List.dropWhile_suffix _).isInfix

/-- A trimmed text does not end with a blank. -/
theorem getLast?_trimText {text : List Char} {c : Char} (h : (trimText text).getLast? = some c) :
    isWhitespace c = false := by
  have hne : trimText text ≠ [] := by
    intro hnil
    rw [hnil] at h
    cases h
  have hlast := List.rdropWhile_last_not isWhitespace (text.dropWhile isWhitespace) hne
  rw [List.getLast?_eq_some_getLast hne] at h
  rw [← Option.some.inj h]
  exact Bool.eq_false_iff.mpr hlast

/-! ### Separators -/

/-- `str::split_once`. -/
def splitOnce (sep : Char) : List Char → Option (List Char × List Char)
  | [] => none
  | c :: rest =>
      if c = sep then some ([], rest)
      else
        match splitOnce sep rest with
        | none => none
        | some (before, after) => some (c :: before, after)

theorem splitOnce_eq_none_iff {sep : Char} {text : List Char} : splitOnce sep text = none ↔ sep ∉ text := by
  induction text with
  | nil => simp [splitOnce]
  | cons c rest ih =>
      unfold splitOnce
      split
      · rename_i hsep
        simp [hsep]
      · rename_i hother
        rw [List.mem_cons, not_or, ← ih]
        cases splitOnce sep rest with
        | none => simp [Ne.symm hother]
        | some parts => simp

/-- The text is what stands before the separator, the separator, and what stands behind it. -/
theorem splitOnce_eq_some {sep : Char} {text before after : List Char}
    (h : splitOnce sep text = some (before, after)) : text = before ++ sep :: after := by
  induction text generalizing before with
  | nil => cases h
  | cons c rest ih =>
      unfold splitOnce at h
      split at h
      · rename_i hsep
        cases h
        rw [hsep]
        rfl
      · split at h
        · cases h
        · rename_i before' after' heq
          cases h
          rw [ih heq]
          rfl

/-! ### Lines -/

/-- A carriage return before the end of a line belongs to the end. -/
def dropReturn (line : List Char) : List Char := if line.getLast? = some '\r' then line.dropLast else line

/-- The lines of a text, of which `line` has been read. -/
def linesFrom (line : List Char) : List Char → List (List Char)
  | [] => if line.isEmpty then [] else [line]
  | c :: rest => if c = '\n' then dropReturn line :: linesFrom [] rest else linesFrom (line ++ [c]) rest

/-- `BufRead::lines`. -/
def splitLines (text : List Char) : List (List Char) := linesFrom [] text

/-- Lines with their ends. -/
def writeLines (lines : List (List Char)) : List Char := lines.flatMap fun line => line ++ ['\n']

theorem linesFrom_append {line suffix : List Char} (rest : List Char) (h : '\n' ∉ suffix) :
    linesFrom line (suffix ++ '\n' :: rest) = dropReturn (line ++ suffix) :: linesFrom [] rest := by
  induction suffix generalizing line with
  | nil =>
      rw [List.nil_append, linesFrom, if_pos rfl, List.append_nil]
  | cons c suffix ih =>
      rw [List.mem_cons, not_or] at h
      obtain ⟨hc, hsuffix⟩ := h
      rw [List.cons_append, linesFrom, if_neg (Ne.symm hc), ih hsuffix, List.append_assoc]
      rfl

/-- Written lines are read back. -/
theorem splitLines_writeLines {lines : List (List Char)}
    (h : ∀ line ∈ lines, '\n' ∉ line ∧ line.getLast? ≠ some '\r') : splitLines (writeLines lines) = lines := by
  unfold splitLines
  induction lines with
  | nil => rfl
  | cons line rest ih =>
      obtain ⟨⟨hplain, hreturn⟩, hrest⟩ := List.forall_mem_cons.mp h
      rw [writeLines, List.flatMap_cons, List.append_assoc, List.singleton_append,
        linesFrom_append _ hplain, List.nil_append, dropReturn, if_neg hreturn]
      exact congrArg _ (ih hrest)

theorem newline_not_mem_linesFrom {line text : List Char} (hline : '\n' ∉ line) :
    ∀ l ∈ linesFrom line text, '\n' ∉ l := by
  induction text generalizing line with
  | nil =>
      intro l hl
      unfold linesFrom at hl
      split at hl
      · cases hl
      · rwa [List.mem_singleton.mp hl]
  | cons c rest ih =>
      intro l hl
      unfold linesFrom at hl
      split at hl
      · rcases List.mem_cons.mp hl with rfl | hlater
        · unfold dropReturn
          split
          · exact fun hmem => hline ((List.dropLast_sublist line).subset hmem)
          · exact hline
        · exact ih List.not_mem_nil l hlater
      · rename_i hc
        refine ih ?_ l hl
        rw [List.mem_append, List.mem_singleton, not_or]
        exact ⟨hline, Ne.symm hc⟩

/-- No line has the end of a line in it. -/
theorem newline_not_mem_splitLines {text line : List Char} (h : line ∈ splitLines text) : '\n' ∉ line :=
  newline_not_mem_linesFrom List.not_mem_nil line h

end UnifiedDns
