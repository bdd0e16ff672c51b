import Mathlib.Algebra.Ring.Nat
import Mathlib.Data.List.Basic
import Mathlib.Data.List.TakeDrop
import Mathlib.Tactic.Common

/-!
# Frames behind their length

Messages on a stream of octets: the length of each goes before it in two octets, the high one first.

* `encodeLength`, `decodeLength`, `frame` — the length field and one message behind it.
* `FrameLimits` — the lengths a reader accepts.
* `nextFrame`, `frames` — the first message of a stream, and all up to the first that is not well formed
  or not complete.
* `frames_decompose` — what the frames and the rest are; `frames_flatMap_frame` — written messages read
  back.
* `readExact`, `readFrame` — so many octets, and one message, from a stream that arrives in pieces;
  `readFrame_spec` — how it is cut does not matter.
-/

namespace UnifiedDns

local instance octet_neZero : NeZero 256 := ⟨by decide⟩

/-- The length field. -/
def encodeLength (n : Nat) : List (Fin 256) := [Fin.ofNat 256 (n / 256), Fin.ofNat 256 n]

/-- The length two octets stand for. -/
def decodeLength (high low : Fin 256) : Nat := high.val * 256 + low.val

/-- A message behind its length. -/
def frame (payload : List (Fin 256)) : List (Fin 256) := encodeLength payload.length ++ payload

/-- The least and the greatest length a reader accepts; the greatest fits the length field. -/
structure FrameLimits where
  least : Nat
  greatest : Nat
  greatest_lt : greatest < 2 ^ 16

/-- The reader accepts messages of this length. -/
def FrameLimits.Accepts (limits : FrameLimits) (n : Nat) : Prop :=
  limits.least ≤ n ∧ n ≤ limits.greatest

instance (limits : FrameLimits) (n : Nat) : Decidable (limits.Accepts n) := by
  unfold FrameLimits.Accepts
  infer_instance

/-- The first message of a stream and what follows it. -/
def nextFrame (limits : FrameLimits) :
    List (Fin 256) → Option (List (Fin 256) × List (Fin 256))
  | high :: low :: rest =>
      let n := decodeLength high low
      if limits.Accepts n ∧ n ≤ rest.length then some (rest.take n, rest.drop n) else none
  | _ => none

theorem encodeLength_decodeLength (high low : Fin 256) :
    encodeLength (decodeLength high low) = [high, low] := by
  have hlow := low.isLt
  have hquot : (high.val * 256 + low.val) / 256 = high.val := by omega
  have hfirst : Fin.ofNat 256 ((high.val * 256 + low.val) / 256) = high := by
    rw [hquot]
    exact Fin.ofNat_val_eq_self high
  have hsecond : Fin.ofNat 256 (high.val * 256 + low.val) = low := by
    apply Fin.ext
    change (high.val * 256 + low.val) % 256 = low.val
    omega
  simp only [encodeLength, decodeLength, hfirst, hsecond]

theorem decodeLength_encodeLength {n : Nat} (h : n < 2 ^ 16) :
    decodeLength (Fin.ofNat 256 (n / 256)) (Fin.ofNat 256 n) = n := by
  change n / 256 % 256 * 256 + n % 256 = n
  omega

/-- The first message of a stream is the one that stands there behind its length. -/
theorem nextFrame_eq_some {limits : FrameLimits} {stream payload rest : List (Fin 256)} :
    nextFrame limits stream = some (payload, rest) ↔
      stream = frame payload ++ rest ∧ limits.Accepts payload.length := by
  constructor
  · intro h
    unfold nextFrame at h
    split at h
    · rename_i high low tail
      simp only at h
      split at h
      · rename_i hfits
        obtain ⟨hlimits, hlength⟩ := hfits
        cases h
        have hpayload : (tail.take (decodeLength high low)).length = decodeLength high low :=
          List.length_take_of_le hlength
        refine ⟨?_, by rwa [hpayload]⟩
        rw [frame, hpayload, encodeLength_decodeLength, List.append_assoc, List.take_append_drop]
        rfl
      · cases h
    · cases h
  · rintro ⟨rfl, hlimits⟩
    have hsize : payload.length < 2 ^ 16 := Nat.lt_of_le_of_lt hlimits.2 limits.greatest_lt
    have hlength := decodeLength_encodeLength hsize
    simp only [frame, encodeLength, List.cons_append, List.nil_append, nextFrame, hlength]
    rw [if_pos ⟨hlimits, by simp⟩, List.take_left, List.drop_left]

theorem nextFrame_length {limits : FrameLimits} {stream payload rest : List (Fin 256)}
    (h : nextFrame limits stream = some (payload, rest)) : rest.length < stream.length := by
  rw [(nextFrame_eq_some.mp h).1]
  simp only [frame, encodeLength, List.length_append, List.length_cons, List.length_nil]
  omega

/-- The messages of a stream up to the first frame that is not well formed or not complete. -/
def frames (limits : FrameLimits) (stream : List (Fin 256)) : List (List (Fin 256)) :=
  match _h : nextFrame limits stream with
  | none => []
  | some (payload, rest) => payload :: frames limits rest
termination_by stream.length
decreasing_by exact nextFrame_length _h

theorem frames_of_none {limits : FrameLimits} {stream : List (Fin 256)}
    (h : nextFrame limits stream = none) : frames limits stream = [] := by
  rw [frames]
  split
  · rfl
  · rename_i heq
    rw [h] at heq
    cases heq

theorem frames_of_some {limits : FrameLimits} {stream payload rest : List (Fin 256)}
    (h : nextFrame limits stream = some (payload, rest)) :
    frames limits stream = payload :: frames limits rest := by
  rw [frames]
  split
  · rename_i heq
    rw [h] at heq
    cases heq
  · rename_i heq
    rw [h] at heq
    cases heq
    rfl

/-- A stream is its messages, each behind its length, and a rest that starts with no message. -/
theorem frames_decompose (limits : FrameLimits) (stream : List (Fin 256)) :
    ∃ rest, stream = (frames limits stream).flatMap frame ++ rest ∧
      nextFrame limits rest = none := by
  induction stream using frames.induct limits with
  | case1 stream h => exact ⟨stream, by rw [frames_of_none h]; rfl, h⟩
  | case2 stream payload rest h ih =>
      obtain ⟨tail, htail, hnone⟩ := ih
      refine ⟨tail, ?_, hnone⟩
      rw [frames_of_some h, List.flatMap_cons, List.append_assoc, ← htail]
      exact (nextFrame_eq_some.mp h).1

/-- Messages that are written one after the other are the first that are read. -/
theorem frames_flatMap_frame_append {limits : FrameLimits} {payloads : List (List (Fin 256))}
    (h : ∀ payload ∈ payloads, limits.Accepts payload.length) (rest : List (Fin 256)) :
    frames limits (payloads.flatMap frame ++ rest) = payloads ++ frames limits rest := by
  induction payloads with
  | nil => rfl
  | cons payload tail ih =>
      obtain ⟨hpayload, htail⟩ := List.forall_mem_cons.mp h
      have hnext : nextFrame limits ((payload :: tail).flatMap frame ++ rest) =
          some (payload, tail.flatMap frame ++ rest) :=
        nextFrame_eq_some.mpr ⟨by rw [List.flatMap_cons, List.append_assoc], hpayload⟩
      rw [frames_of_some hnext, ih htail, List.cons_append]

/-- What is written message by message is read back message by message. -/
theorem frames_flatMap_frame {limits : FrameLimits} {payloads : List (List (Fin 256))}
    (h : ∀ payload ∈ payloads, limits.Accepts payload.length) :
    frames limits (payloads.flatMap frame) = payloads := by
  have hback := frames_flatMap_frame_append h []
  have hnothing : frames limits [] = [] := frames_of_none rfl
  rwa [List.append_nil, hnothing, List.append_nil] at hback

/-! ### A stream in pieces -/

/-- Take `n` octets from a stream that arrives in pieces: the octets, and the pieces that are left.
Nothing when the stream ends before. -/
def readExact : Nat → List (List (Fin 256)) → Option (List (Fin 256) × List (List (Fin 256)))
  | 0, pieces => some ([], pieces)
  | _ + 1, [] => none
  | n + 1, piece :: pieces =>
      if piece.length ≤ n + 1 then
        match readExact (n + 1 - piece.length) pieces with
        | none => none
        | some (octets, rest) => some (piece ++ octets, rest)
      -- What is left of the piece stays for the next read.
      else some (piece.take (n + 1), piece.drop (n + 1) :: pieces)

/-- However the stream is cut, the first `n` octets are taken if there are so many. -/
theorem readExact_spec (n : Nat) (pieces : List (List (Fin 256))) :
    (pieces.flatten.length < n ∧ readExact n pieces = none) ∨
      ∃ octets rest, readExact n pieces = some (octets, rest) ∧ octets.length = n ∧
        pieces.flatten = octets ++ rest.flatten := by
  induction pieces generalizing n with
  | nil =>
      cases n with
      | zero => exact Or.inr ⟨[], [], rfl, rfl, rfl⟩
      | succ n => exact Or.inl ⟨Nat.succ_pos n, rfl⟩
  | cons piece pieces ih =>
      cases n with
      | zero => exact Or.inr ⟨[], piece :: pieces, rfl, rfl, rfl⟩
      | succ n =>
          by_cases hpiece : piece.length ≤ n + 1
          · rw [readExact, if_pos hpiece]
            rcases ih (n + 1 - piece.length) with ⟨hshort, hnone⟩ | ⟨octets, rest, hsome, hlen, hcut⟩
            · refine Or.inl ⟨?_, by rw [hnone]⟩
              rw [List.flatten_cons, List.length_append]
              omega
            · refine Or.inr ⟨piece ++ octets, rest, by rw [hsome], ?_, ?_⟩
              · rw [List.length_append]
                omega
              · rw [List.flatten_cons, hcut, List.append_assoc]
          · rw [readExact, if_neg hpiece]
            refine Or.inr ⟨_, _, rfl, List.length_take_of_le (by omega), ?_⟩
            rw [List.flatten_cons, List.flatten_cons, ← List.append_assoc, List.take_append_drop]

/-- The length is read and checked before the message. -/
def readFrame (limits : FrameLimits) (pieces : List (List (Fin 256))) :
    Option (List (Fin 256) × List (List (Fin 256))) :=
  match readExact 2 pieces with
  | some ([high, low], pieces) =>
      let n := decodeLength high low
      if limits.Accepts n then readExact n pieces else none
  | _ => none

/-- A reader of pieces takes the first message of the whole stream. -/
theorem readFrame_spec (limits : FrameLimits) (pieces : List (List (Fin 256))) :
    (readFrame limits pieces = none ∧ nextFrame limits pieces.flatten = none) ∨
      ∃ payload rest, readFrame limits pieces = some (payload, rest) ∧
        nextFrame limits pieces.flatten = some (payload, rest.flatten) := by
  rcases readExact_spec 2 pieces with ⟨hshort, hnone⟩ | ⟨lenBuf, rest, hsome, hlen, hcut⟩
  · -- Not even the length arrives.
    refine Or.inl ⟨by simp only [readFrame, hnone], ?_⟩
    match hstream : pieces.flatten with
    | [] => rfl
    | [_] => rfl
    | _ :: _ :: _ =>
        rw [hstream] at hshort
        simp only [List.length_cons] at hshort
        omega
  · obtain ⟨high, low, rfl⟩ := List.length_eq_two.mp hlen
    simp only [readFrame, hsome, hcut, List.cons_append, List.nil_append, nextFrame]
    by_cases haccepts : limits.Accepts (decodeLength high low)
    · rw [if_pos haccepts]
      rcases readExact_spec (decodeLength high low) rest with
        ⟨hshort, hnone⟩ | ⟨payload, tail, hpayload, hsize, hrest⟩
      · -- The length arrives, the message does not arrive in full.
        refine Or.inl ⟨hnone, if_neg fun hfits => ?_⟩
        exact absurd hfits.2 (Nat.not_le.mpr hshort)
      · refine Or.inr ⟨payload, tail, hpayload, ?_⟩
        rw [hrest, ← hsize, if_pos ⟨by rwa [hsize], by simp⟩, List.take_left, List.drop_left]
    · rw [if_neg haccepts, if_neg fun hfits => haccepts hfits.1]
      exact Or.inl ⟨rfl, rfl⟩

theorem readFrame_length {limits : FrameLimits} {pieces rest : List (List (Fin 256))}
    {payload : List (Fin 256)} (h : readFrame limits pieces = some (payload, rest)) :
    rest.flatten.length < pieces.flatten.length := by
  rcases readFrame_spec limits pieces with ⟨hnone, -⟩ | ⟨_, _, hsome, hnext⟩
  · rw [h] at hnone
    cases hnone
  · rw [h] at hsome
    cases hsome
    exact nextFrame_length hnext

end UnifiedDns
