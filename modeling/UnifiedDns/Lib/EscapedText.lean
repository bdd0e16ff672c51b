import Mathlib.Data.List.Basic
import Mathlib.Logic.Basic

/-!
# Texts with separators and escapes

A text is a list of symbols; a separator closes an item, unless an escape stands before it, which takes
the meaning from whatever follows it.

* `separators` — the separators that are not escaped.
* `Closed` — a piece of text that closes no item and leaves no escape open.
* `Closed.items` — a sequence of closed pieces, each with its separator, has as many separators as
  pieces.
-/

namespace UnifiedDns
namespace EscapedText

variable {β : Type*} [DecidableEq β]

/-- The separators of a text that are not escaped; `escaped` says whether the first symbol is. -/
def separatorsFrom (sep esc : β) : (escaped : Bool) → List β → Nat
  | _, [] => 0
  | true, _ :: rest => separatorsFrom sep esc false rest
  | false, b :: rest =>
      if b = sep then separatorsFrom sep esc false rest + 1
      else separatorsFrom sep esc (decide (b = esc)) rest

/-- The separators of a text that are not escaped. -/
def separators (sep esc : β) (text : List β) : Nat := separatorsFrom sep esc false text

/-- A piece of text that closes no item and leaves no escape open. -/
def Closed (sep esc : β) (piece : List β) : Prop :=
  ∀ rest, separators sep esc (piece ++ rest) = separators sep esc rest

variable {sep esc : β}

@[simp] theorem separators_nil : separators sep esc [] = 0 := rfl

@[simp] theorem separators_sep (rest : List β) :
    separators sep esc (sep :: rest) = separators sep esc rest + 1 :=
  if_pos rfl

theorem separators_esc (hne : esc ≠ sep) (b : β) (rest : List β) :
    separators sep esc (esc :: b :: rest) = separators sep esc rest := by
  simp [separators, separatorsFrom, hne]

theorem separators_other {b : β} (hsep : b ≠ sep) (hesc : b ≠ esc) (rest : List β) :
    separators sep esc (b :: rest) = separators sep esc rest := by
  simp [separators, separatorsFrom, hsep, hesc]

theorem Closed.nil : Closed sep esc [] := fun _ => rfl

theorem Closed.append {piece piece' : List β} (h : Closed sep esc piece)
    (h' : Closed sep esc piece') : Closed sep esc (piece ++ piece') := by
  intro rest
  rw [List.append_assoc, h, h']

/-- Symbols that are neither separators nor escapes. -/
theorem Closed.of_plain {piece : List β} (h : ∀ b ∈ piece, b ≠ sep ∧ b ≠ esc) :
    Closed sep esc piece := by
  induction piece with
  | nil => exact Closed.nil
  | cons b piece ih =>
      intro rest
      obtain ⟨⟨hsep, hesc⟩, hpiece⟩ := List.forall_mem_cons.mp h
      rw [List.cons_append, separators_other hsep hesc]
      exact ih hpiece rest

/-- What stands before the first separator of a closed piece has an escape in it. -/
theorem Closed.sep_notMem {piece : List β} (h : Closed sep esc piece)
    (hfront : ∀ b ∈ piece.takeWhile (fun b => b != sep), b ≠ esc) : sep ∉ piece := by
  intro hmem
  obtain ⟨front, back, rfl, hnone⟩ := List.eq_append_cons_of_mem hmem
  have hne : ∀ b ∈ front, b ≠ sep := fun b hb heq => hnone (heq ▸ hb)
  have htake : (front ++ sep :: back).takeWhile (fun b => b != sep) = front := by
    rw [List.takeWhile_append_of_pos (fun b hb => bne_iff_ne.mpr (hne b hb))]
    simp
  rw [htake] at hfront
  have hclosed := h []
  rw [List.append_nil, Closed.of_plain (fun b hb => ⟨hne b hb, hfront b hb⟩), separators_sep,
    separators_nil] at hclosed
  cases hclosed

theorem Closed.flatMap {α : Type*} {code : α → List β} (h : ∀ a, Closed sep esc (code a))
    (xs : List α) : Closed sep esc (xs.flatMap code) := by
  induction xs with
  | nil => exact Closed.nil
  | cons x xs ih =>
      rw [List.flatMap_cons]
      exact (h x).append ih

/-- A sequence of closed pieces, each with its separator. -/
theorem Closed.items {α : Type*} {code : α → List β} (h : ∀ a, Closed sep esc (code a))
    (xs : List α) (rest : List β) :
    separators sep esc ((xs.flatMap fun x => code x ++ [sep]) ++ rest) =
      xs.length + separators sep esc rest := by
  induction xs with
  | nil => simp
  | cons x xs ih =>
      rw [List.flatMap_cons, List.append_assoc, List.append_assoc, h, List.singleton_append,
        separators_sep, ih, List.length_cons]
      omega

end EscapedText
end UnifiedDns
