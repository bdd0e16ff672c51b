import Mathlib.Data.List.Basic
import Mathlib.Logic.Function.Basic

/-!
# Prefix codes

Encodings of values as lists of symbols such that a value and what follows it can be read back from
their concatenation.  Length-prefixed fields, fixed-width fields and fields closed by a separator are
of this kind, and so are their sequences.

* `PrefixCode` — the property of one encoding.
* `PrefixCode.of_length` — an injective encoding of fixed width.
* `PrefixCode.of_size` — a payload behind its length.
* `PrefixCode.of_separator` — an injective encoding followed by a symbol it never uses.
* `PrefixCode.pair`, `PrefixCode.comp` — two fields one after the other; a part of a field's values.
* `PrefixCode.flatMap_injective` — a sequence of non-empty codes reads back.
* `PrefixCode.flatMap_stop` — a sequence of codes closed by a symbol that starts none of them is again
  a prefix code.
-/

namespace UnifiedDns

variable {α β : Type*}

/-- From the code of a value followed by anything, the value and the rest can be read back. -/
def PrefixCode (f : α → List β) : Prop :=
  ∀ a b u v, f a ++ u = f b ++ v → a = b ∧ u = v

namespace PrefixCode

variable {f : α → List β}

/-- Codes of one width that tell values apart. -/
theorem of_length {width : Nat} (hinj : Function.Injective f) (hlen : ∀ a, (f a).length = width) :
    PrefixCode f := by
  intro a b u v h
  have hwidth : (f a).length = (f b).length := by rw [hlen, hlen]
  obtain ⟨hcode, hrest⟩ := List.append_inj h hwidth
  exact ⟨hinj hcode, hrest⟩

/-- One field after another. -/
theorem pair {γ : Type*} {g : γ → List β} (hf : PrefixCode f) (hg : PrefixCode g) :
    PrefixCode fun p : α × γ => f p.1 ++ g p.2 := by
  intro a b u v h
  simp only [List.append_assoc] at h
  obtain ⟨hfirst, hrest⟩ := hf _ _ _ _ h
  obtain ⟨hsecond, htail⟩ := hg _ _ _ _ hrest
  exact ⟨Prod.ext hfirst hsecond, htail⟩

/-- Values that an injective map sends to coded values. -/
theorem comp {γ : Type*} {g : γ → α} (hf : PrefixCode f) (hg : Function.Injective g) :
    PrefixCode fun c => f (g c) := by
  intro a b u v h
  obtain ⟨hab, huv⟩ := hf _ _ _ _ h
  exact ⟨hg hab, huv⟩

/-- A payload of fewer than `bound` symbols behind its length, which takes a fixed number of symbols. -/
theorem of_size {size : Nat → List β} {width bound : Nat} (hlen : ∀ n, (size n).length = width)
    (hinj : ∀ m n, m < bound → n < bound → size m = size n → m = n) :
    PrefixCode fun payload : { l : List β // l.length < bound } =>
      size payload.val.length ++ payload.val := by
  intro a b u v h
  simp only [List.append_assoc] at h
  have hwidth : (size a.val.length).length = (size b.val.length).length := by rw [hlen, hlen]
  obtain ⟨hsize, hrest⟩ := List.append_inj h hwidth
  obtain ⟨hpayload, htail⟩ := List.append_inj hrest (hinj _ _ a.property b.property hsize)
  exact ⟨Subtype.ext hpayload, htail⟩

/-- An injective encoding, closed by a symbol it never uses. -/
theorem of_separator {sep : β} (hinj : Function.Injective f) (hsep : ∀ a, sep ∉ f a) :
    PrefixCode fun a => f a ++ [sep] := by
  -- Both codes end at the first separator.
  have hread : ∀ x y u v : List β, sep ∉ x → sep ∉ y →
      x ++ sep :: u = y ++ sep :: v → x = y ∧ u = v := by
    intro x
    induction x with
    | nil =>
        intro y u v _ hy h
        cases y with
        | nil => exact ⟨rfl, (List.cons.inj h).2⟩
        | cons d y =>
            have hd := (List.cons.inj h).1
            exact absurd (hd ▸ List.mem_cons_self) hy
    | cons c x ih =>
        intro y u v hx hy h
        cases y with
        | nil =>
            have hc := (List.cons.inj h).1
            exact absurd (hc ▸ List.mem_cons_self) hx
        | cons d y =>
            obtain ⟨hhead, htail⟩ := List.cons.inj h
            have hrest := ih y u v (fun hmem => hx (List.mem_cons_of_mem _ hmem))
              (fun hmem => hy (List.mem_cons_of_mem _ hmem)) htail
            exact ⟨by rw [hhead, hrest.1], hrest.2⟩
  intro a b u v h
  simp only [List.append_assoc, List.singleton_append] at h
  obtain ⟨hcode, hrest⟩ := hread (f a) (f b) u v (hsep a) (hsep b) h
  exact ⟨hinj hcode, hrest⟩

/-- Sequences of non-empty codes read back. -/
theorem flatMap_injective (hf : PrefixCode f) (hne : ∀ a, f a ≠ []) :
    Function.Injective fun xs : List α => xs.flatMap f := by
  intro xs
  induction xs with
  | nil =>
      intro ys h
      cases ys with
      | nil => rfl
      | cons y ys =>
          simp only [List.flatMap_nil, List.flatMap_cons] at h
          exact absurd (List.append_eq_nil_iff.mp h.symm).1 (hne y)
  | cons x xs ih =>
      intro ys h
      cases ys with
      | nil =>
          simp only [List.flatMap_nil, List.flatMap_cons] at h
          exact absurd (List.append_eq_nil_iff.mp h).1 (hne x)
      | cons y ys =>
          simp only [List.flatMap_cons] at h
          obtain ⟨hxy, hrest⟩ := hf x y _ _ h
          rw [hxy, ih hrest]

/-- Sequences of codes closed by a symbol that starts none of them. -/
theorem flatMap_stop (hf : PrefixCode f) {stop : β} (hstop : ∀ a u v, f a ++ u ≠ stop :: v) :
    PrefixCode fun xs : List α => xs.flatMap f ++ [stop] := by
  intro xs
  induction xs with
  | nil =>
      intro ys u v h
      cases ys with
      | nil =>
          simp only [List.flatMap_nil, List.nil_append, List.singleton_append] at h
          exact ⟨rfl, (List.cons.inj h).2⟩
      | cons y ys =>
          simp only [List.flatMap_nil, List.flatMap_cons, List.nil_append, List.singleton_append,
            List.append_assoc] at h
          exact absurd h.symm (hstop y _ _)
  | cons x xs ih =>
      intro ys u v h
      cases ys with
      | nil =>
          simp only [List.flatMap_nil, List.flatMap_cons, List.nil_append, List.singleton_append,
            List.append_assoc] at h
          exact absurd h (hstop x _ _)
      | cons y ys =>
          simp only [List.flatMap_cons, List.append_assoc] at h
          obtain ⟨hxy, hrest⟩ := hf x y _ _ h
          obtain ⟨hxs, huv⟩ := ih ys u v (by simpa using hrest)
          exact ⟨by rw [hxy, hxs], huv⟩

end PrefixCode
end UnifiedDns
