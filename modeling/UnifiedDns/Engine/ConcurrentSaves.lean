import Mathlib.Logic.Function.Basic
import UnifiedDns.Engine.Persistence
import UnifiedDns.Lib.Runs

/-!
# Saves that overlap

Any number of saves of the cache through one temporary path, step by step.  A path names an inode, and an
open file writes to its inode whatever the path names by then.

* `SaveFs`, `saveStep` — the inodes, the two paths and the saves under way.
* `AloneAtCreate` — a save opens the temporary file while no other save has it open.
* `saves_safe` — then the path of the cache holds a complete file at every moment.
* `overlapping_saves_mix` — a run of two saves that leaves a mixture.
-/

namespace UnifiedDns
namespace Engine

/-- Where a save stands: `rest` are the writes still to come, at `offset` of the open file. -/
inductive Saver
  | idle
  | writing (inode offset : Nat) (rest : List (List Byte))
  | done

/-- The file system as the saves see it. -/
structure SaveFs (ι : Type) where
  content : Nat → List Byte
  /-- The next unused inode. -/
  next : Nat
  temp : Option Nat
  target : Option Nat
  saver : ι → Saver

inductive SaveStep (ι : Type)
  | create (save : ι)
  | write (save : ι)
  | rename (save : ι)

/-- A write at an offset; a gap before it reads as zeros. -/
def writeAt (content : List Byte) (offset : Nat) (chunk : List Byte) : List Byte :=
  content.take offset ++ List.replicate (offset - content.length) 0 ++ chunk ++
    content.drop (offset + chunk.length)

section Steps

variable {ι : Type} [DecidableEq ι]

/-- `File::create`: the file at the temporary path is emptied, or made. -/
def createTemp (plan : ι → List (List Byte)) (save : ι) (s : SaveFs ι) : SaveFs ι :=
  match s.temp with
  | some inode =>
      { s with
        content := Function.update s.content inode []
        saver := Function.update s.saver save (.writing inode 0 (plan save)) }
  | none =>
      { s with
        content := Function.update s.content s.next []
        next := s.next + 1
        temp := some s.next
        saver := Function.update s.saver save (.writing s.next 0 (plan save)) }

/-- `rename`: the path of the cache names what the temporary path names, if it names anything. -/
def renameTemp (save : ι) (s : SaveFs ι) : SaveFs ι :=
  match s.temp with
  | some inode =>
      { s with target := some inode, temp := none, saver := Function.update s.saver save .done }
  | none => { s with saver := Function.update s.saver save .done }

/-- One step of one save; `plan` lists the writes of each. A step out of turn does nothing. -/
def saveStep (plan : ι → List (List Byte)) (s : SaveFs ι) : SaveStep ι → SaveFs ι
  | .create save =>
      match s.saver save with
      | .idle => createTemp plan save s
      | _ => s
  | .write save =>
      match s.saver save with
      | .writing inode offset (chunk :: rest) =>
          { s with
            content := Function.update s.content inode (writeAt (s.content inode) offset chunk)
            saver := Function.update s.saver save (.writing inode (offset + chunk.length) rest) }
      | _ => s
  | .rename save =>
      match s.saver save with
      | .writing _ _ [] => renameTemp save s
      | _ => s

/-- The save has the temporary file open. -/
def IsWriting (s : SaveFs ι) (save : ι) : Prop :=
  ∃ inode offset rest, s.saver save = .writing inode offset rest

/-- A save opens the temporary file while no save has it open. -/
def AloneAtCreate (s : SaveFs ι) : SaveStep ι → Prop
  | .create _ => ∀ other, ¬ IsWriting s other
  | _ => True

/-- Before the first save: the path of the cache holds a complete file, if any. -/
structure ValidStart (complete : List Byte → Prop) (s : SaveFs ι) : Prop where
  idle : ∀ save, s.saver save = .idle
  target : ∀ inode, s.target = some inode → complete (s.content inode)
  used : ∀ inode, s.temp = some inode ∨ s.target = some inode → inode < s.next
  apart : ∀ inode, s.temp = some inode → s.target ≠ some inode

/-- While no two saves overlap, the open file is at the temporary path and holds what has been written. -/
structure SavesInvariant (plan : ι → List (List Byte)) (complete : List Byte → Prop) (s : SaveFs ι) :
    Prop where
  target : ∀ inode, s.target = some inode → complete (s.content inode)
  used : ∀ inode, s.temp = some inode ∨ s.target = some inode → inode < s.next
  apart : ∀ inode, s.temp = some inode → s.target ≠ some inode
  alone : ∀ first second, IsWriting s first → IsWriting s second → first = second
  written : ∀ save inode offset rest, s.saver save = .writing inode offset rest →
    s.temp = some inode ∧ offset = (s.content inode).length ∧
      s.content inode ++ rest.flatten = (plan save).flatten

variable {plan : ι → List (List Byte)} {complete : List Byte → Prop} {s : SaveFs ι}

theorem writeAt_length (content chunk : List Byte) :
    writeAt content content.length chunk = content ++ chunk := by
  simp [writeAt]

omit [DecidableEq ι] in
theorem ValidStart.invariant (h : ValidStart complete s) : SavesInvariant plan complete s := by
  have hnone : ∀ save, ¬ IsWriting s save := by
    rintro save ⟨inode, offset, rest, hwriting⟩
    rw [h.idle save] at hwriting
    exact Saver.noConfusion hwriting
  refine ⟨h.target, h.used, h.apart, fun first _ hfirst => absurd hfirst (hnone first), ?_⟩
  intro save inode offset rest hwriting
  exact absurd ⟨inode, offset, rest, hwriting⟩ (hnone save)

/-- Whoever writes after a save has changed its own place was writing before, or is that save. -/
theorem isWriting_update {save other : ι} {place : Saver} {next : SaveFs ι}
    (hsaver : next.saver = Function.update s.saver save place) (h : IsWriting next other) :
    other = save ∨ IsWriting s other := by
  by_cases hother : other = save
  · exact Or.inl hother
  · obtain ⟨inode, offset, rest, hwriting⟩ := h
    rw [hsaver, Function.update_of_ne hother] at hwriting
    exact Or.inr ⟨inode, offset, rest, hwriting⟩

/-- A save that opens an empty file of its own. -/
theorem SavesInvariant.opened (h : SavesInvariant plan complete s) (save : ι)
    (halone : ∀ other, ¬ IsWriting s other) {inode next : Nat} (htarget : s.target ≠ some inode)
    (hinode : inode < next) (hnext : s.next ≤ next) :
    SavesInvariant plan complete {
      content := Function.update s.content inode []
      next := next
      temp := some inode
      target := s.target
      saver := Function.update s.saver save (.writing inode 0 (plan save)) } := by
  have honly (other : ι) (hwriting : IsWriting (SaveFs.mk (Function.update s.content inode []) next
      (some inode) s.target (Function.update s.saver save (.writing inode 0 (plan save)))) other) :
      other = save := (isWriting_update rfl hwriting).resolve_right (halone other)
  refine ⟨fun own hown => ?_, fun own hown => ?_, ?_, fun first second hfirst hsecond => ?_, ?_⟩
  · have hne : own ≠ inode := by
      rintro rfl
      exact htarget hown
    show complete (Function.update s.content inode [] own)
    rw [Function.update_of_ne hne]
    exact h.target own hown
  · rcases hown with htemp | hown
    · rw [← Option.some.inj htemp]
      exact hinode
    · exact (h.used own (Or.inr hown)).trans_le hnext
  · rintro own htemp
    rw [← Option.some.inj htemp]
    exact htarget
  · exact (honly first hfirst).trans (honly second hsecond).symm
  · intro other own offset rest hwriting
    obtain rfl := honly other ⟨own, offset, rest, hwriting⟩
    have hplace : Saver.writing inode 0 (plan other) = .writing own offset rest :=
      (Function.update_self other _ s.saver).symm.trans hwriting
    obtain ⟨rfl, rfl, rfl⟩ := Saver.writing.inj hplace
    have hempty : Function.update s.content inode [] inode = ([] : List Byte) := Function.update_self ..
    refine ⟨rfl, ?_, ?_⟩
    · show 0 = (Function.update s.content inode [] inode).length
      rw [hempty]
      rfl
    · show Function.update s.content inode [] inode ++ (plan other).flatten = _
      rw [hempty]
      rfl

theorem SavesInvariant.create (h : SavesInvariant plan complete s) (save : ι)
    (halone : ∀ other, ¬ IsWriting s other) : SavesInvariant plan complete (createTemp plan save s) := by
  cases htemp : s.temp with
  | some inode =>
      have hcreate : createTemp plan save s = {
          content := Function.update s.content inode []
          next := s.next
          temp := some inode
          target := s.target
          saver := Function.update s.saver save (.writing inode 0 (plan save)) } := by
        simp only [createTemp, htemp]
      rw [hcreate]
      exact h.opened save halone (h.apart inode htemp) (h.used inode (Or.inl htemp)) le_rfl
  | none =>
      have hcreate : createTemp plan save s = {
          content := Function.update s.content s.next []
          next := s.next + 1
          temp := some s.next
          target := s.target
          saver := Function.update s.saver save (.writing s.next 0 (plan save)) } := by
        simp only [createTemp, htemp]
      rw [hcreate]
      refine h.opened save halone (fun htarget => ?_) (Nat.lt_succ_self _) (Nat.le_succ _)
      exact lt_irrefl _ (h.used s.next (Or.inr htarget))

theorem SavesInvariant.write (h : SavesInvariant plan complete s) {save : ι} {inode offset : Nat}
    {chunk : List Byte} {rest : List (List Byte)}
    (hwriting : s.saver save = .writing inode offset (chunk :: rest)) :
    SavesInvariant plan complete { s with
      content := Function.update s.content inode (writeAt (s.content inode) offset chunk)
      saver := Function.update s.saver save (.writing inode (offset + chunk.length) rest) } := by
  obtain ⟨htemp, rfl, hall⟩ := h.written save inode offset _ hwriting
  have hold : IsWriting s save := ⟨inode, _, _, hwriting⟩
  have hwas (other : ι) (hnew : IsWriting { s with
      content := Function.update s.content inode (writeAt (s.content inode) (s.content inode).length chunk)
      saver := Function.update s.saver save
        (.writing inode ((s.content inode).length + chunk.length) rest) } other) : IsWriting s other := by
    rcases isWriting_update rfl hnew with rfl | hother
    · exact hold
    · exact hother
  rw [writeAt_length] at *
  refine ⟨fun own hown => ?_, h.used, h.apart, fun first second hfirst hsecond =>
    h.alone first second (hwas first hfirst) (hwas second hsecond), ?_⟩
  · -- The path of the cache names another inode.
    have hne : own ≠ inode := by
      rintro rfl
      exact h.apart own htemp hown
    show complete (Function.update s.content inode (s.content inode ++ chunk) own)
    rw [Function.update_of_ne hne]
    exact h.target own hown
  · intro other own offset others hnew
    obtain rfl := h.alone other save (hwas other ⟨own, offset, others, hnew⟩) hold
    have hplace := (Function.update_self other _ s.saver).symm.trans hnew
    obtain ⟨rfl, rfl, rfl⟩ := Saver.writing.inj hplace
    have hcontent : Function.update s.content inode (s.content inode ++ chunk) inode =
        s.content inode ++ chunk := Function.update_self ..
    refine ⟨htemp, ?_, ?_⟩
    · show _ = (Function.update s.content inode (s.content inode ++ chunk) inode).length
      rw [hcontent, List.length_append]
    · show Function.update s.content inode (s.content inode ++ chunk) inode ++ rest.flatten = _
      rw [hcontent, List.append_assoc]
      exact hall

theorem SavesInvariant.rename (h : SavesInvariant plan complete s)
    (hplan : ∀ save, complete (plan save).flatten) {save : ι} {inode offset : Nat}
    (hwriting : s.saver save = .writing inode offset []) :
    SavesInvariant plan complete (renameTemp save s) := by
  obtain ⟨htemp, -, hall⟩ := h.written save inode offset _ hwriting
  have hrename : renameTemp save s = {
      content := s.content
      next := s.next
      temp := none
      target := some inode
      saver := Function.update s.saver save .done } := by
    simp only [renameTemp, htemp]
  rw [hrename]
  -- The save that renames was the only one with the file open.
  have hnone (other : ι) (hnew : IsWriting (SaveFs.mk s.content s.next none (some inode)
      (Function.update s.saver save .done)) other) : False := by
    obtain rfl : other = save := (isWriting_update rfl hnew).elim id fun hother =>
      h.alone other save hother ⟨inode, offset, [], hwriting⟩
    obtain ⟨own, start, rest, hplace⟩ := hnew
    exact Saver.noConfusion ((Function.update_self other _ s.saver).symm.trans hplace)
  refine ⟨fun own hown => ?_, fun own hown => ?_, ?_, fun first _ hfirst => (hnone first hfirst).elim, ?_⟩
  · rw [← Option.some.inj hown]
    rw [List.flatten_nil, List.append_nil] at hall
    show complete (s.content inode)
    rw [hall]
    exact hplan save
  · rcases hown with hcleared | hown
    · exact absurd hcleared.symm (Option.some_ne_none own)
    · rw [← Option.some.inj hown]
      exact h.used inode (Or.inl htemp)
  · exact fun own hcleared => absurd hcleared.symm (Option.some_ne_none own)
  · exact fun other own start rest hplace => (hnone other ⟨own, start, rest, hplace⟩).elim

theorem SavesInvariant.step (h : SavesInvariant plan complete s)
    (hplan : ∀ save, complete (plan save).flatten) (event : SaveStep ι) (halone : AloneAtCreate s event) :
    SavesInvariant plan complete (saveStep plan s event) := by
  cases event with
  | create save =>
      cases hsaver : s.saver save with
      | idle =>
          simp only [saveStep, hsaver]
          exact h.create save halone
      | writing | done =>
          simp only [saveStep, hsaver]
          exact h
  | write save =>
      rcases hsaver : s.saver save with _ | ⟨inode, offset, _ | ⟨chunk, rest⟩⟩ | _
      · simp only [saveStep, hsaver]
        exact h
      · simp only [saveStep, hsaver]
        exact h
      · simp only [saveStep, hsaver]
        exact h.write hsaver
      · simp only [saveStep, hsaver]
        exact h
  | rename save =>
      rcases hsaver : s.saver save with _ | ⟨inode, offset, _ | ⟨chunk, rest⟩⟩ | _
      · simp only [saveStep, hsaver]
        exact h
      · simp only [saveStep, hsaver]
        exact h.rename hplan hsaver
      · simp only [saveStep, hsaver]
        exact h
      · simp only [saveStep, hsaver]
        exact h

/-- **Saves that do not overlap are safe.** In a run of any number of saves in which each opens the
temporary file while no other has it open, the path of the cache holds a complete file at the end, and so
at every moment: every moment is the end of such a run. -/
theorem saves_safe (plan : ι → List (List Byte)) (complete : List Byte → Prop)
    (hplan : ∀ save, complete (plan save).flatten) (start : SaveFs ι)
    (hstart : ValidStart complete start) (events : List (SaveStep ι))
    (halone : Along (saveStep plan) AloneAtCreate start events) (inode : Nat)
    (htarget : (events.foldl (saveStep plan) start).target = some inode) :
    complete ((events.foldl (saveStep plan) start).content inode) := by
  have hinvariant : SavesInvariant plan complete (events.foldl (saveStep plan) start) :=
    halone.invariant (fun _ event h => h.step hplan event) hstart.invariant
  exact hinvariant.target inode htarget

end Steps

/-! ### The periodic save and the one at shutdown -/

inductive CacheSave
  | periodic
  | shutdown
deriving DecidableEq

/-- The periodic save has found the cache empty, the one at shutdown finds one entry. -/
def twoSaves : CacheSave → List (List Byte)
  | .periodic => sampleCodec.chunks []
  | .shutdown => sampleCodec.chunks sampleItems

/-- The text of some snapshot of the cache. -/
def IsSnapshot (content : List Byte) : Prop := ∃ items, content = (sampleCodec.chunks items).flatten

/-- The file of an empty cache, before any save. -/
def beforeSaves : SaveFs CacheSave where
  content _ := (sampleCodec.chunks []).flatten
  next := 1
  temp := none
  target := some 0
  saver _ := .idle

theorem beforeSaves_valid : ValidStart IsSnapshot beforeSaves where
  idle _ := rfl
  target _ _ := ⟨[], rfl⟩
  used inode h := by
    rcases h with htemp | htarget
    · exact absurd htemp.symm (Option.some_ne_none inode)
    · obtain rfl : 0 = inode := Option.some.inj htarget
      exact Nat.zero_lt_one
  apart inode htemp := absurd htemp.symm (Option.some_ne_none inode)

theorem twoSaves_snapshot (save : CacheSave) : IsSnapshot (twoSaves save).flatten := by
  cases save with
  | periodic => exact ⟨[], rfl⟩
  | shutdown => exact ⟨sampleItems, rfl⟩

/-- One save after the other. -/
def sequentialSaves : List (SaveStep CacheSave) :=
  [.create .periodic, .write .periodic, .write .periodic, .rename .periodic, .create .shutdown,
    .write .shutdown, .rename .shutdown]

theorem saves_safe_sequential :
    (sequentialSaves.foldl (saveStep twoSaves) beforeSaves).target = some 2 ∧
      IsSnapshot ((sequentialSaves.foldl (saveStep twoSaves) beforeSaves).content 2) := by
  have htarget : (sequentialSaves.foldl (saveStep twoSaves) beforeSaves).target = some 2 := rfl
  refine ⟨htarget, saves_safe twoSaves IsSnapshot twoSaves_snapshot beforeSaves beforeSaves_valid
    sequentialSaves ?_ 2 htarget⟩
  refine ⟨?_, trivial, trivial, trivial, ?_, trivial, trivial, trivial⟩
  · rintro other ⟨inode, offset, rest, hwriting⟩
    exact Saver.noConfusion hwriting
  · rintro other ⟨inode, offset, rest, hwriting⟩
    cases other with
    | periodic => exact Saver.noConfusion hwriting
    | shutdown => exact Saver.noConfusion hwriting

/-- The save at shutdown opens the temporary file while the periodic save has it open. -/
def overlappingSaves : List (SaveStep CacheSave) :=
  [.create .periodic, .create .shutdown, .write .shutdown, .rename .shutdown, .write .periodic,
    .write .periodic, .rename .periodic]

/-- The periodic save goes on writing into the file that the save at shutdown has put in place: both are
done, and the file is the text of no snapshot. -/
theorem overlapping_saves_mix :
    (∀ save, (overlappingSaves.foldl (saveStep twoSaves) beforeSaves).saver save = .done) ∧
      (overlappingSaves.foldl (saveStep twoSaves) beforeSaves).target = some 1 ∧
      ¬ IsSnapshot ((overlappingSaves.foldl (saveStep twoSaves) beforeSaves).content 1) := by
  refine ⟨?_, rfl, ?_⟩
  · intro save
    cases save with
    | periodic => rfl
    | shutdown => rfl
  · rintro ⟨items, hsame⟩
    have hempty : (overlappingSaves.foldl (saveStep twoSaves) beforeSaves).content 1 ≠
        (sampleCodec.chunks []).flatten := by decide +kernel
    have hone : (overlappingSaves.foldl (saveStep twoSaves) beforeSaves).content 1 ≠
        (sampleCodec.chunks sampleItems).flatten := by decide +kernel
    cases items with
    | nil => exact hempty hsame
    | cons item rest => exact hone hsame

end Engine
end UnifiedDns
