import UnifiedDns.Engine.CacheSafety

/-!
# Which questions share an entry

* `KeyFormat` — what the key relies on: how the library prints names and types.
* `cacheKey_eq` — two questions with one key have one name, up to letter case, and one type, unless the
  library knows neither type.
* `cache_identity` — so has the question of every reply built from an entry and the question the entry
  was resolved for.  The class is not part of the key.
-/

namespace UnifiedDns
namespace Engine

open Dnssec (DnssecStatus)

variable {W : Type}

/-- The presentation format of names is injective up to letter case, the mnemonics of known types are
distinct, and no type prints with a colon. -/
structure KeyFormat (P : Platform) (known : RecordType → Prop) : Prop where
  nameAscii_path : ∀ a b : Name, P.lowercase (P.nameAscii a) = P.lowercase (P.nameAscii b) →
    a.path = b.path
  typeText_eq : ∀ t u, P.typeText t = P.typeText u → t = u ∨ (¬ known t ∧ ¬ known u)
  colon_notMem : ∀ t, colon ∉ P.typeText t

/-- A key is read from its end: the class, the type up to the last colon but one, the name. -/
theorem cacheKey_eq {P : Platform} {known : RecordType → Prop} (hformat : KeyFormat P known)
    {a b : Name} {t u : RecordType} (h : cacheKey P a t = cacheKey P b u) :
    a.path = b.path ∧ (t = u ∨ (¬ known t ∧ ¬ known u)) := by
  have hcolon : asciiText ":" = [colon] := by decide
  have hfront : P.lowercase (P.nameAscii a) ++ [colon] ++ P.typeText t =
      P.lowercase (P.nameAscii b) ++ [colon] ++ P.typeText u := by
    unfold cacheKey at h
    rw [hcolon] at h
    exact List.append_cancel_right h
  -- From the end, the type text is closed by the first colon.
  have hcode : PrefixCode fun text : { text : Text // colon ∉ text } =>
      text.val.reverse ++ [colon] := by
    apply PrefixCode.of_separator
    · intro x y hxy
      exact Subtype.ext (List.reverse_injective hxy)
    · intro x
      simpa using x.property
  have hreversed : (P.typeText t).reverse ++ [colon] ++ (P.lowercase (P.nameAscii a)).reverse =
      (P.typeText u).reverse ++ [colon] ++ (P.lowercase (P.nameAscii b)).reverse := by
    simpa using congrArg List.reverse hfront
  obtain ⟨htype, hname⟩ := hcode ⟨P.typeText t, hformat.colon_notMem t⟩
    ⟨P.typeText u, hformat.colon_notMem u⟩ _ _ hreversed
  exact ⟨hformat.nameAscii_path a b (List.reverse_injective hname),
    hformat.typeText_eq t u (congrArg Subtype.val htype)⟩

/-- **Cache identity.**  In every run a reply is built from an entry only if the entry was created by
resolving the same name, up to letter case, for class `IN`, whatever class the question has; and, when
the library knows the type of the question, the same type. -/
theorem cache_identity {env : ServerEnv W} {known : RecordType → Prop}
    (hformat : KeyFormat env.platform known) {s : ServerState W} (hrun : ServerRun env s) :
    ∀ reply ∈ s.cacheReplies, reply.entry.origin.name.path = reply.query.name.path ∧
      (known reply.query.queryType → reply.entry.origin.queryType = reply.query.queryType) ∧
        reply.entry.origin.queryClass = .IN := by
  intro reply hreply
  have hsound := hrun.invariant.replies reply hreply
  obtain ⟨hname, htype⟩ := cacheKey_eq hformat hsound.keyed
  refine ⟨hname, fun hknown => ?_, hsound.classIn⟩
  rcases htype with hsame | ⟨-, hunknown⟩
  · exact hsame
  · exact absurd hknown hunknown

/-- The plain platform knows A and AAAA. -/
def plainKnown (t : RecordType) : Prop := t = .A ∨ t = .AAAA

theorem plain_keyFormat : KeyFormat Platform.plain plainKnown := by
  refine ⟨fun a b h => (plain_nameKeyFaithful a b).mp h, ?_, ?_⟩
  · intro t u h
    simp only [Platform.plain] at h
    unfold plainKnown
    by_cases ht : t = .A
    · by_cases hu : u = .A
      · exact Or.inl (ht.trans hu.symm)
      · rw [if_pos ht, if_neg hu] at h
        split at h <;> simp at h
    · by_cases hu : u = .A
      · rw [if_neg ht, if_pos hu] at h
        split at h <;> simp at h
      · rw [if_neg ht, if_neg hu] at h
        by_cases ht' : t = .AAAA
        · by_cases hu' : u = .AAAA
          · exact Or.inl (ht'.trans hu'.symm)
          · rw [if_pos ht', if_neg hu'] at h
            simp at h
        · by_cases hu' : u = .AAAA
          · rw [if_neg ht', if_pos hu'] at h
            simp at h
          · right
            simp [ht, hu, ht', hu']
  · intro t
    simp only [Platform.plain]
    split
    · decide
    · split <;> decide

/-- A question of class `CH` is answered from the entry of class `IN`. -/
theorem class_not_in_key :
    ¬ ∀ (env : ServerEnv Message) (known : RecordType → Prop), KeyFormat env.platform known →
        ∀ s, ServerRun env s → ∀ reply ∈ s.cacheReplies,
          reply.entry.origin.name.path = reply.query.name.path ∧
            reply.entry.origin.queryType = reply.query.queryType ∧
              reply.entry.origin.queryClass = reply.query.queryClass := by
  intro hclaim
  have hany : ((addressServed ⟨3⟩).cacheReplies.any fun reply =>
      decide (reply.entry.origin.queryClass ≠ reply.query.queryClass)) = true := by
    decide +kernel
  obtain ⟨reply, hreply, hne⟩ := List.any_eq_true.mp hany
  obtain ⟨-, -, hclass⟩ := hclaim sampleServer plainKnown plain_keyFormat (addressServed ⟨3⟩)
    (addressServed_run ⟨3⟩) reply hreply
  simp only [decide_eq_true_eq] at hne
  exact hne hclass

/-- The reply for `a.` comes from the entry of `a.`, whatever the class of the question. -/
theorem cache_identity_address :
    (addressServed ⟨3⟩).cacheReplies.length = 1 ∧
      ∀ reply ∈ (addressServed ⟨3⟩).cacheReplies,
        reply.entry.origin.name.path = reply.query.name.path ∧
          (plainKnown reply.query.queryType →
            reply.entry.origin.queryType = reply.query.queryType) ∧
            reply.entry.origin.queryClass = .IN :=
  ⟨by decide +kernel, cache_identity plain_keyFormat (addressServed_run ⟨3⟩)⟩

end Engine
end UnifiedDns
