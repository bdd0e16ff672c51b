import UnifiedDns.Dnssec.AnswerSection

/-!
# The order of the signatures

`validate_rrset` tries the signatures of an RRset in the order of the answer section.  Signatures that
are out of date, come from a signer elsewhere, carry another key tag or do not verify are passed over,
and so is one whose signer has an unsigned chain; a signer whose chain is bogus ends the loop.

* `Pass`, `rrsetPasses` — the signatures with the states in which they are tried when no pass ends the
  loop.
* `Pass.Good` — the chain of the signer is trusted, and the signature verifies under one of its keys.
* `tryKeys_eq` — unless the budget cuts them off, the keys decide by this alone.
* `validateRrset_secure_iff` — with a good signature the RRset is `secure` exactly when no bogus chain
  comes before.
-/

namespace UnifiedDns
namespace Dnssec

/-- A signature and the state in which the loop comes to it. -/
structure Pass where
  rrsig : RRSIG
  state : VState

/-- The chain of the signer at that moment. -/
def Pass.chain (env : Env) (pass : Pass) : ChainResult :=
  (buildTrustChain env pass.rrsig.signerName pass.state).1

/-- Some key has the right tag and verifies the signature; every key with the right tag takes a reading of
the clock. -/
def acceptedBy (env : Env) (rrsig : RRSIG) (owner : Name) (records : List Record) :
    List DNSKEY → Nat → Bool
  | [], _ => false
  | key :: rest, tick =>
      if keyTagMatches env.platform key rrsig.keyTag then
        verifyRrsig env.platform (env.clock tick) rrsig key owner records ||
          acceptedBy env rrsig owner records rest (tick + 1)
      else acceptedBy env rrsig owner records rest tick

/-- The chain of the signer is trusted, and the signature verifies under one of its keys. -/
def Pass.Good (env : Env) (owner : Name) (records : List Record) (pass : Pass) : Prop :=
  ∃ keys ttl, pass.chain env = .trusted keys ttl ∧
    acceptedBy env pass.rrsig owner records keys
      (buildTrustChain env pass.rrsig.signerName pass.state).2.tick = true

/-- The state after a pass. -/
def afterPass (env : Env) (owner : Name) (records : List Record) (rrsig : RRSIG) (s : VState) :
    VState :=
  match buildTrustChain env rrsig.signerName s with
  | (.trusted keys _, s) => (tryKeys env rrsig owner records keys s).2
  | (.unsigned _, s) => s
  | (.bogus, s) => s

/-- The passes over the signatures that are left. -/
def passesFrom (env : Env) (owner : Name) (records : List Record) : List RRSIG → VState → List Pass
  | [], _ => []
  | rrsig :: rest, s =>
      ⟨rrsig, s⟩ :: passesFrom env owner records rest (afterPass env owner records rrsig s)

/-- The passes of `validate_rrset`: the covering signatures that are in date and whose signer encloses the
owner, in the order of the section. -/
def rrsetPasses (env : Env) (owner : Name) (rtype : RecordType) (targetRecords allRecords :
    List Record) (s : VState) : List Pass :=
  let (now, s) := s.readClock env
  passesFrom env owner targetRecords
    ((coveringRrsigs allRecords owner rtype).filter fun rrsig =>
      rrsigTimeValid rrsig now && (rrsig.signerName.zoneOf owner || rrsig.signerName == owner)) s

section Loop

variable {env : Env} {owner : Name} {records : List Record}

/-- The keys decide by whether one of them accepts the signature, unless the budget is spent first. -/
theorem tryKeys_eq (rrsig : RRSIG) (keys : List DNSKEY) (s : VState) :
    (tryKeys env rrsig owner records keys s).1 =
        (if acceptedBy env rrsig owner records keys s.tick then some .secure else none) ∨
      ((tryKeys env rrsig owner records keys s).1 = some .bogus ∧
        (tryKeys env rrsig owner records keys s).2.BudgetSpent) := by
  induction keys generalizing s with
  | nil => exact Or.inl rfl
  | cons key rest ih =>
      by_cases hspent : s.budget.maxSigChecks ≤ s.budget.sigChecks
      · right
        simp only [tryKeys, VState.canCheckSig, if_pos hspent]
        exact ⟨trivial, hspent⟩
      · simp only [tryKeys, VState.canCheckSig, if_neg hspent, acceptedBy]
        by_cases htag : keyTagMatches env.platform key rrsig.keyTag = true
        · simp only [if_pos htag, checkRrsig, VState.readClock]
          cases hverify : verifyRrsig env.platform (env.clock s.tick) rrsig key owner records with
          | true => exact Or.inl rfl
          | false => exact ih _
        · simp only [if_neg htag]
          exact ih _

/-- A decomposition of a list at an element with `good`, where all before it have `pass`. -/
theorem exists_front_cons_iff {α : Type} {good passed : α → Prop} {x : α} {xs : List α} :
    (∃ front y rest, x :: xs = front ++ y :: rest ∧ good y ∧ ∀ e ∈ front, passed e) ↔
      good x ∨ (passed x ∧ ∃ front y rest, xs = front ++ y :: rest ∧ good y ∧
        ∀ e ∈ front, passed e) := by
  constructor
  · rintro ⟨front, y, rest, hsplit, hgood, hfront⟩
    cases front with
    | nil =>
        cases hsplit
        exact Or.inl hgood
    | cons e front =>
        cases hsplit
        obtain ⟨hx, hrest⟩ := List.forall_mem_cons.mp hfront
        exact Or.inr ⟨hx, front, y, rest, rfl, hgood, hrest⟩
  · rintro (hgood | ⟨hx, front, y, rest, rfl, hgood, hfront⟩)
    · exact ⟨[], x, xs, rfl, hgood, fun e he => absurd he List.not_mem_nil⟩
    · exact ⟨x :: front, y, rest, rfl, hgood, List.forall_mem_cons.mpr ⟨hx, hfront⟩⟩

/-- The loop ends in `secure` at the first good pass, if no bogus chain has ended it before. -/
theorem tryCandidates_secure_iff {candidates : List RRSIG} {anyTrustedChain : Bool} {s : VState}
    (hbudget : ¬ (tryCandidates env owner records candidates anyTrustedChain s).2.BudgetSpent) :
    (tryCandidates env owner records candidates anyTrustedChain s).1 = .secure ↔
      ∃ front pass rest, passesFrom env owner records candidates s = front ++ pass :: rest ∧
        pass.Good env owner records ∧ ∀ earlier ∈ front, earlier.chain env ≠ .bogus := by
  induction candidates generalizing anyTrustedChain s with
  | nil =>
      simp only [passesFrom, tryCandidates]
      constructor
      · intro h
        split at h <;> cases h
      · rintro ⟨front, pass, rest, hsplit, -⟩
        simp at hsplit
  | cons rrsig rest ih =>
      rw [passesFrom, exists_front_cons_iff]
      rcases hchain : buildTrustChain env rrsig.signerName s with ⟨result, s₁⟩
      simp only [tryCandidates, hchain] at hbudget ⊢
      simp only [Pass.Good, Pass.chain, afterPass, hchain]
      cases result with
      | trusted keys ttl =>
          have hkeys := @tryKeys_eq env owner records rrsig keys s₁
          rcases htried : tryKeys env rrsig owner records keys s₁ with ⟨status, s₂⟩
          simp only [htried] at hbudget hkeys ⊢
          rcases hkeys with rfl | ⟨rfl, hspent⟩
          · by_cases haccepted : acceptedBy env rrsig owner records keys s₁.tick = true
            · rw [if_pos haccepted]
              exact iff_of_true rfl (Or.inl ⟨keys, ttl, rfl, haccepted⟩)
            · rw [if_neg haccepted] at hbudget ⊢
              rw [ih hbudget]
              constructor
              · exact fun h => Or.inr ⟨by simp, h⟩
              · rintro (⟨keys', ttl', hsame, haccepted'⟩ | ⟨-, h⟩)
                · cases hsame
                  exact absurd haccepted' haccepted
                · exact h
          · -- The keys were cut off by the budget.
            exact absurd hspent hbudget
      | unsigned ttl =>
          rw [ih hbudget]
          constructor
          · exact fun h => Or.inr ⟨by simp, h⟩
          · rintro (⟨keys', ttl', hsame, -⟩ | ⟨-, h⟩)
            · cases hsame
            · exact h
      | bogus =>
          -- The loop returns here; what stands behind is not tried.
          refine iff_of_false (by simp) ?_
          rintro (⟨keys', ttl', hsame, -⟩ | ⟨hbogus, -⟩)
          · cases hsame
          · exact hbogus rfl

end Loop

/-- With a candidate `validate_rrset` comes to the loop. -/
theorem validateRrset_of_pass {env : Env} {owner : Name} {rtype : RecordType}
    {targetRecords allRecords : List Record} {s : VState} {pass : Pass}
    (hpass : pass ∈ rrsetPasses env owner rtype targetRecords allRecords s) :
    validateRrset env owner rtype targetRecords allRecords s =
      tryCandidates env owner targetRecords
        ((coveringRrsigs allRecords owner rtype).filter fun rrsig =>
          rrsigTimeValid rrsig (env.clock s.tick) &&
            (rrsig.signerName.zoneOf owner || rrsig.signerName == owner))
        false (s.readClock env).2 := by
  have hcandidates : ((coveringRrsigs allRecords owner rtype).filter fun rrsig =>
      rrsigTimeValid rrsig (env.clock s.tick) &&
        (rrsig.signerName.zoneOf owner || rrsig.signerName == owner)).isEmpty = false := by
    by_contra hempty
    rw [Bool.not_eq_false, List.isEmpty_iff] at hempty
    simp only [rrsetPasses, VState.readClock, hempty] at hpass
    cases hpass
  have hrrsigs : (coveringRrsigs allRecords owner rtype).isEmpty = false := by
    by_contra hempty
    rw [Bool.not_eq_false, List.isEmpty_iff] at hempty
    rw [hempty] at hcandidates
    cases hcandidates
  unfold validateRrset
  simp only [hrrsigs, Bool.false_eq_true, if_false, VState.readClock, hcandidates]

/-- **The order of the signatures.**  When some signature of the RRset is in date, comes from a signer that
encloses the owner and verifies under a key of the signer's trusted chain, and the budget is not
exhausted, `validate_rrset` returns `secure` exactly if no candidate before such a signature has a
bogus chain. -/
theorem validateRrset_secure_iff {env : Env} {owner : Name} {rtype : RecordType}
    {targetRecords allRecords : List Record} {s : VState}
    (hbudget : ¬ (validateRrset env owner rtype targetRecords allRecords s).2.BudgetSpent)
    (hgood : ∃ pass ∈ rrsetPasses env owner rtype targetRecords allRecords s,
      pass.Good env owner targetRecords) :
    (validateRrset env owner rtype targetRecords allRecords s).1 = .secure ↔
      ∃ front pass rest,
        rrsetPasses env owner rtype targetRecords allRecords s = front ++ pass :: rest ∧
          pass.Good env owner targetRecords ∧ ∀ earlier ∈ front, earlier.chain env ≠ .bogus := by
  obtain ⟨good, hmem, -⟩ := hgood
  rw [validateRrset_of_pass hmem] at hbudget ⊢
  exact tryCandidates_secure_iff hbudget

/-! ### Two orders of one section -/

/-- A signature over the address of `a.` in the name of `a.` itself, which the root does not delegate. -/
def strangerSigned : Record :=
  ⟨topName 97, .IN, 300, .rrsig ⟨.A, 8, 1, 300, 100, 0, 20326, topName 97, [1]⟩⟩

/-- The address of `a.` with the signature of the root and another signature in front. -/
def strangerFirst : List Record :=
  [rootRecord (topName 97) (.a ⟨1, 2, 3, 4⟩), strangerSigned, rootSigned (topName 97) .A]

/-- The same records with the two signatures in the other order. -/
def strangerLast : List Record :=
  [rootRecord (topName 97) (.a ⟨1, 2, 3, 4⟩), rootSigned (topName 97) .A, strangerSigned]

theorem strangerFirst_good :
    ∃ pass ∈ rrsetPasses (rootEnv fun _ _ => none) (topName 97) .A
        [rootRecord (topName 97) (.a ⟨1, 2, 3, 4⟩)] strangerFirst .init,
      pass.Good (rootEnv fun _ _ => none) (topName 97)
        [rootRecord (topName 97) (.a ⟨1, 2, 3, 4⟩)] := by
  refine ⟨_, List.mem_cons_of_mem _ List.mem_cons_self, [rootKey], 300, ?_, ?_⟩
  · decide +kernel
  · decide +kernel

/-- One order of the section is `bogus` although the root's signature is good. -/
theorem stranger_ends_loop :
    ¬ ∀ (env : Env) (owner : Name) (rtype : RecordType) (targetRecords allRecords : List Record)
        (s : VState), ¬ (validateRrset env owner rtype targetRecords allRecords s).2.BudgetSpent →
      (∃ pass ∈ rrsetPasses env owner rtype targetRecords allRecords s,
        pass.Good env owner targetRecords) →
      (validateRrset env owner rtype targetRecords allRecords s).1 = .secure := by
  intro hclaim
  have hsecure := hclaim (rootEnv fun _ _ => none) (topName 97) .A
    [rootRecord (topName 97) (.a ⟨1, 2, 3, 4⟩)] strangerFirst .init
    (by unfold VState.BudgetSpent; decide +kernel) strangerFirst_good
  revert hsecure
  decide +kernel

/-- The other order is `secure`. -/
theorem validateRrset_secure_iff_strangerLast :
    (validateRrset (rootEnv fun _ _ => none) (topName 97) .A
      [rootRecord (topName 97) (.a ⟨1, 2, 3, 4⟩)] strangerLast .init).1 = .secure := by
  have hgood : ∃ front pass rest,
      rrsetPasses (rootEnv fun _ _ => none) (topName 97) .A
          [rootRecord (topName 97) (.a ⟨1, 2, 3, 4⟩)] strangerLast .init = front ++ pass :: rest ∧
        pass.Good (rootEnv fun _ _ => none) (topName 97)
            [rootRecord (topName 97) (.a ⟨1, 2, 3, 4⟩)] ∧
          ∀ earlier ∈ front, earlier.chain (rootEnv fun _ _ => none) ≠ .bogus := by
    refine ⟨[], _, _, rfl, ⟨[rootKey], 300, ?_, ?_⟩, fun earlier h => absurd h List.not_mem_nil⟩
    · decide +kernel
    · decide +kernel
  obtain ⟨front, pass, rest, hsplit, hpass, hfront⟩ := hgood
  refine (validateRrset_secure_iff (by unfold VState.BudgetSpent; decide +kernel) ?_).mpr
    ⟨front, pass, rest, hsplit, hpass, hfront⟩
  exact ⟨pass, hsplit ▸ List.mem_append_right _ List.mem_cons_self, hpass⟩

end Dnssec
end UnifiedDns
