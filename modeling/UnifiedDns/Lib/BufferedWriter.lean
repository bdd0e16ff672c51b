import Mathlib.Data.List.Basic

/-!
# Buffered writing to a file that may refuse

A buffered writer over a file whose writes may be short, interrupted or refused.

* `WriteResult`, `writeOut` — the answers to single writes, and a loop that retries short ones.
* `BufWriter` — the buffer, the file behind it, and the answers still to come.
* `BufWriter.writeChunks_taken` — what an accepting writer has taken is in the file or the buffer.
* `BufWriter.flushBuf_file` — a flush that fails leaves a proper prefix in the file.
-/

namespace UnifiedDns

/-- The answer to one write: so many elements were taken, try again, or an error. -/
inductive WriteResult
  | wrote (n : Nat)
  | interrupted
  | failed

/-- Write until all is out or a write fails: what is left, the file, and the answers left. Without an
answer of its own a write takes everything. -/
def writeOut {α : Type*} : List WriteResult → List α → List α → List α × List α × List WriteResult
  | answers, [], file => ([], file, answers)
  | [], pending, file => ([], file ++ pending, [])
  | .interrupted :: answers, pending, file => writeOut answers pending file
  | .failed :: answers, pending, file => (pending, file, answers)
  | .wrote n :: answers, pending, file =>
      -- A write that takes nothing counts as an error.
      if n = 0 then (pending, file, answers)
      else writeOut answers (pending.drop n) (file ++ pending.take n)

/-- A writer with a buffer of `capacity` elements. -/
structure BufWriter (α : Type*) where
  capacity : Nat
  buffer : List α
  file : List α
  answers : List WriteResult

namespace BufWriter

variable {α : Type*}

/-- A new writer over an empty file. -/
def new (capacity : Nat) (answers : List WriteResult) : BufWriter α := ⟨capacity, [], [], answers⟩

/-- Write the buffer out; what was not written stays. -/
def flushBuf (w : BufWriter α) : Bool × BufWriter α :=
  let (rest, file, answers) := writeOut w.answers w.buffer w.file
  (rest.isEmpty, { w with buffer := rest, file := file, answers := answers })

/-- Write a chunk past the empty buffer. -/
def writeThrough (w : BufWriter α) (chunk : List α) : Bool × BufWriter α :=
  let (rest, file, answers) := writeOut w.answers chunk w.file
  (rest.isEmpty, { w with file := file, answers := answers })

/-- Put a chunk behind what is buffered. -/
def push (w : BufWriter α) (chunk : List α) : BufWriter α := { w with buffer := w.buffer ++ chunk }

/-- Room for so many elements, by a flush if there is not enough. -/
def makeRoom (w : BufWriter α) (needed : Nat) : Bool × BufWriter α :=
  if w.capacity - w.buffer.length < needed then w.flushBuf else (true, w)

/-- `write_all`: a chunk that fits is buffered; else there is made room for it, and a chunk as long as the
buffer goes past it. -/
def writeAll (w : BufWriter α) (chunk : List α) : Bool × BufWriter α :=
  if chunk.length < w.capacity - w.buffer.length then (true, w.push chunk)
  else
    match w.makeRoom chunk.length with
    | (false, w) => (false, w)
    | (true, w) => if w.capacity ≤ chunk.length then w.writeThrough chunk else (true, w.push chunk)

/-- Write chunk after chunk until one is refused. -/
def writeChunks : BufWriter α → List (List α) → Bool × BufWriter α
  | w, [] => (true, w)
  | w, chunk :: rest =>
      match w.writeAll chunk with
      | (false, w) => (false, w)
      | (true, w) => writeChunks w rest

/-- Everything the writer has taken. -/
def taken (w : BufWriter α) : List α := w.file ++ w.buffer

theorem writeOut_append (answers : List WriteResult) (pending file : List α) :
    (writeOut answers pending file).2.1 ++ (writeOut answers pending file).1 = file ++ pending := by
  induction answers generalizing pending file with
  | nil =>
      cases pending with
      | nil => rfl
      | cons x rest => exact List.append_nil _
  | cons answer answers ih =>
      cases pending with
      | nil => rfl
      | cons x rest =>
          cases answer with
          | interrupted => exact ih (x :: rest) file
          | failed => rfl
          | wrote n =>
              by_cases hnone : n = 0
              · simp [writeOut, hnone]
              · simp only [writeOut, if_neg hnone]
                rw [ih, List.append_assoc, List.take_append_drop]

theorem flushBuf_taken (w : BufWriter α) : w.flushBuf.2.taken = w.taken :=
  writeOut_append w.answers w.buffer w.file

theorem flushBuf_buffer {w : BufWriter α} (h : w.flushBuf.1 = true) : w.flushBuf.2.buffer = [] :=
  List.isEmpty_iff.mp h

/-- After a flush the file holds all that was taken, or a proper prefix of it. -/
theorem flushBuf_file (w : BufWriter α) :
    (w.flushBuf.1 = true ∧ w.flushBuf.2.file = w.taken) ∨
      (w.flushBuf.1 = false ∧ ∃ lost, lost ≠ [] ∧ w.taken = w.flushBuf.2.file ++ lost) := by
  have htaken := w.flushBuf_taken
  cases hflush : w.flushBuf.1 with
  | true =>
      left
      rw [taken, flushBuf_buffer hflush, List.append_nil] at htaken
      exact ⟨rfl, htaken⟩
  | false =>
      right
      refine ⟨rfl, w.flushBuf.2.buffer, fun hempty => ?_, htaken.symm⟩
      have hflushed : w.flushBuf.1 = true := List.isEmpty_iff.mpr hempty
      rw [hflush] at hflushed
      exact Bool.false_ne_true hflushed

theorem writeThrough_taken {w : BufWriter α} {chunk : List α} (hempty : w.buffer = [] ∨ chunk = [])
    (h : (w.writeThrough chunk).1 = true) : (w.writeThrough chunk).2.taken = w.taken ++ chunk := by
  have hout := writeOut_append w.answers chunk w.file
  have hall : (writeOut w.answers chunk w.file).1 = [] := List.isEmpty_iff.mp h
  rw [hall, List.append_nil] at hout
  show (writeOut w.answers chunk w.file).2.1 ++ w.buffer = w.file ++ w.buffer ++ chunk
  rw [hout]
  rcases hempty with hbuffer | hchunk
  · rw [hbuffer, List.append_nil, List.append_nil]
  · rw [hchunk, List.append_nil, List.append_nil]

theorem push_taken (w : BufWriter α) (chunk : List α) : (w.push chunk).taken = w.taken ++ chunk :=
  (List.append_assoc _ _ _).symm

/-- There is room after a flush, and nothing was lost. -/
theorem makeRoom_taken (w : BufWriter α) {needed : Nat} (h : (w.makeRoom needed).1 = true) :
    (w.makeRoom needed).2.taken = w.taken ∧
      ((w.makeRoom needed).2.buffer = [] ∨
        needed ≤ (w.makeRoom needed).2.capacity - (w.makeRoom needed).2.buffer.length) := by
  unfold makeRoom at h ⊢
  split
  · next htight =>
      rw [if_pos htight] at h
      exact ⟨w.flushBuf_taken, Or.inl (flushBuf_buffer h)⟩
  · next hroom => exact ⟨rfl, Or.inr (Nat.le_of_not_lt hroom)⟩

/-- A chunk that was accepted has been taken. -/
theorem writeAll_taken {w : BufWriter α} {chunk : List α} (h : (w.writeAll chunk).1 = true) :
    (w.writeAll chunk).2.taken = w.taken ++ chunk := by
  unfold writeAll at h ⊢
  by_cases hfits : chunk.length < w.capacity - w.buffer.length
  · rw [if_pos hfits]
    exact w.push_taken chunk
  · rw [if_neg hfits] at h ⊢
    have hroom : (w.makeRoom chunk.length).1 = true → _ := w.makeRoom_taken
    generalize w.makeRoom chunk.length = made at h hroom ⊢
    obtain ⟨_ | _, next⟩ := made
    · exact absurd h Bool.false_ne_true
    · obtain ⟨htaken, hspace⟩ := hroom rfl
      dsimp only at h htaken hspace ⊢
      by_cases hlarge : next.capacity ≤ chunk.length
      · rw [if_pos hlarge] at h ⊢
        -- A chunk that fills the buffer finds it empty.
        have hempty : next.buffer = [] ∨ chunk = [] := by
          rcases hspace with hempty | hspace
          · exact Or.inl hempty
          · rcases Nat.eq_zero_or_pos chunk.length with hzero | hpos
            · exact Or.inr (List.length_eq_zero_iff.mp hzero)
            · exact Or.inl (List.length_eq_zero_iff.mp (by omega))
        rw [writeThrough_taken hempty h, htaken]
      · rw [if_neg hlarge, push_taken, htaken]

/-- **An accepting writer has taken everything.** -/
theorem writeChunks_taken {w : BufWriter α} {chunks : List (List α)}
    (h : (w.writeChunks chunks).1 = true) :
    (w.writeChunks chunks).2.taken = w.taken ++ chunks.flatten := by
  induction chunks generalizing w with
  | nil => exact (List.append_nil _).symm
  | cons chunk rest ih =>
      have htaken : (w.writeAll chunk).1 = true → _ := writeAll_taken
      unfold writeChunks at h ⊢
      generalize w.writeAll chunk = written at h htaken ⊢
      obtain ⟨_ | _, next⟩ := written
      · exact absurd h Bool.false_ne_true
      · dsimp only at h htaken ⊢
        rw [ih h, htaken rfl, List.flatten_cons, List.append_assoc]

end BufWriter
end UnifiedDns
