import UnifiedDns.Dnssec.Rrsig

/-!
# The state of a validation

What `DnssecValidator` reads and writes while it judges one message: the signature budget, the two
process-wide caches, the clock and the resolver.

* `Env` — the platform, the clock and the resolver.  Both are indexed by the number of outside events
  so far, so that an adversary may answer the same question differently each time.
* `VState` — the mutable state.  `chainLog` and `verifyCalls` are ghosts: they record every
  `build_trust_chain` call with its result, and count the `verify_rrsig` calls; no modelled function
  reads them.
* `VState.Extends` — what every validator function does to the state: it only moves on.
* `ReadClosed` — a relation between states that the smallest steps keep; the functions above them keep
  it too, one lemma for each.
* `searchSignatures` — the loop over RRSIGs and keys that DS, DNSKEY and negative RRsets share.
-/

namespace UnifiedDns
namespace Dnssec

inductive ZoneSignedness
  | signed
  | provenUnsigned
  | unknown
deriving DecidableEq, Repr

structure ValidationBudget where
  sigChecks : Nat
  maxSigChecks : Nat
deriving DecidableEq, Repr

/-- `ValidationBudget::default`, with `PER_VALIDATION_MAX_SIG_CHECKS`. -/
def ValidationBudget.default : ValidationBudget := ⟨0, 24⟩

structure CachedZoneKeys where
  keys : List DNSKEY
  expiresAt : Nat

structure SignedZoneEntry where
  signedness : ZoneSignedness
  expiresAt : Nat

inductive ChainResult
  | trusted (keys : List DNSKEY) (ttl : Nat)
  | unsigned (ttl : Nat)
  | bogus
deriving DecidableEq

/-- The outside of a validation. -/
structure Env where
  platform : Platform
  /-- `now_secs()` at the given outside event. -/
  clock : Nat → Nat
  /-- `RecursiveResolver::resolve` at the given outside event. -/
  resolve : Nat → Name → RecordType → Option Message

/-- The plain platform at the fixed time 50, with a resolver that answers every question alike. -/
def Env.plain (resolve : Name → RecordType → Option Message) : Env where
  platform := .plain
  clock _ := 50
  resolve _ := resolve

structure VState where
  tick : Nat
  budget : ValidationBudget
  keyTrustCache : TextMap CachedZoneKeys
  signedZoneCache : TextMap SignedZoneEntry
  chainLog : List (Name × ChainResult)
  verifyCalls : Nat

namespace VState

/-- Both caches empty, a fresh budget, nothing recorded. -/
def init : VState where
  tick := 0
  budget := .default
  keyTrustCache := TextMap.empty
  signedZoneCache := TextMap.empty
  chainLog := []
  verifyCalls := 0

/-- `now_secs()`. -/
def readClock (env : Env) (s : VState) : Nat × VState :=
  (env.clock s.tick, { s with tick := s.tick + 1 })

/-- `recursor.resolve(name, rtype)`. -/
def ask (env : Env) (name : Name) (rtype : RecordType) (s : VState) : Option Message × VState :=
  (env.resolve s.tick name rtype, { s with tick := s.tick + 1 })

/-- `ValidationBudget::can_check_sig`. -/
def canCheckSig (s : VState) : Bool × VState :=
  if s.budget.maxSigChecks ≤ s.budget.sigChecks then (false, s)
  else (true, { s with budget := { s.budget with sigChecks := s.budget.sigChecks + 1 } })

/-- Record a finished `build_trust_chain` call. -/
def logChain (zone : Name) (result : ChainResult) (s : VState) : VState :=
  { s with chainLog := (zone, result) :: s.chainLog }

/-- `s'` comes after `s`: time has not gone back and recorded calls are kept. -/
structure Extends (s s' : VState) : Prop where
  tick_le : s.tick ≤ s'.tick
  log_suffix : s.chainLog <:+ s'.chainLog

theorem Extends.refl (s : VState) : Extends s s := ⟨le_rfl, List.suffix_rfl⟩

theorem Extends.trans {a b c : VState} (hab : Extends a b) (hbc : Extends b c) : Extends a c :=
  ⟨hab.tick_le.trans hbc.tick_le, hab.log_suffix.trans hbc.log_suffix⟩

/-- The entry was put on the log between `s` and `s'`. -/
def LoggedSince (s s' : VState) (entry : Name × ChainResult) : Prop :=
  ∃ new, s'.chainLog = new ++ s.chainLog ∧ entry ∈ new

theorem LoggedSince.mono {s₀ s s' s₁ : VState} {entry : Name × ChainResult}
    (h : LoggedSince s s' entry) (hbefore : Extends s₀ s) (hafter : Extends s' s₁) :
    LoggedSince s₀ s₁ entry := by
  obtain ⟨new, hnew, hentry⟩ := h
  obtain ⟨older, holder⟩ := hbefore.log_suffix
  obtain ⟨newer, hnewer⟩ := hafter.log_suffix
  refine ⟨newer ++ new ++ older, ?_, by simp [hentry]⟩
  rw [← hnewer, hnew, ← holder]
  simp

theorem Extends.mem {s s' : VState} (h : Extends s s') {entry : Name × ChainResult}
    (hmem : entry ∈ s.chainLog) : entry ∈ s'.chainLog :=
  h.log_suffix.subset hmem

/-- `s'` differs from `s` in the event counter, the budget and the number of `verify_rrsig` calls
only. -/
structure SameTables (s s' : VState) : Prop where
  tick_le : s.tick ≤ s'.tick
  keyTrustCache_eq : s'.keyTrustCache = s.keyTrustCache
  signedZoneCache_eq : s'.signedZoneCache = s.signedZoneCache
  chainLog_eq : s'.chainLog = s.chainLog

theorem SameTables.refl (s : VState) : SameTables s s := ⟨le_rfl, rfl, rfl, rfl⟩

theorem SameTables.trans {a b c : VState} (hab : SameTables a b) (hbc : SameTables b c) :
    SameTables a c :=
  ⟨hab.tick_le.trans hbc.tick_le, hbc.keyTrustCache_eq.trans hab.keyTrustCache_eq,
    hbc.signedZoneCache_eq.trans hab.signedZoneCache_eq, hbc.chainLog_eq.trans hab.chainLog_eq⟩

theorem SameTables.extends {s s' : VState} (h : SameTables s s') : Extends s s' :=
  ⟨h.tick_le, by rw [h.chainLog_eq]⟩

/-- `s'` differs from `s` at most in the event counter, the budget, the number of `verify_rrsig` calls
and the key cache. -/
structure SameLog (s s' : VState) : Prop where
  tick_le : s.tick ≤ s'.tick
  signedZoneCache_eq : s'.signedZoneCache = s.signedZoneCache
  chainLog_eq : s'.chainLog = s.chainLog

theorem SameLog.refl (s : VState) : SameLog s s := ⟨le_rfl, rfl, rfl⟩

theorem SameLog.trans {a b c : VState} (hab : SameLog a b) (hbc : SameLog b c) : SameLog a c :=
  ⟨hab.tick_le.trans hbc.tick_le, hbc.signedZoneCache_eq.trans hab.signedZoneCache_eq,
    hbc.chainLog_eq.trans hab.chainLog_eq⟩

theorem SameTables.sameLog {s s' : VState} (h : SameTables s s') : SameLog s s' :=
  ⟨h.tick_le, h.signedZoneCache_eq, h.chainLog_eq⟩

theorem readClock_sameTables (env : Env) (s : VState) : SameTables s (s.readClock env).2 :=
  ⟨Nat.le_succ _, rfl, rfl, rfl⟩

theorem ask_sameTables (env : Env) (name : Name) (rtype : RecordType) (s : VState) :
    SameTables s (s.ask env name rtype).2 :=
  ⟨Nat.le_succ _, rfl, rfl, rfl⟩

theorem canCheckSig_sameTables (s : VState) : SameTables s s.canCheckSig.2 := by
  unfold canCheckSig
  split
  · exact SameTables.refl s
  · exact ⟨le_rfl, rfl, rfl, rfl⟩

end VState

/-- `verify_rrsig`, which reads the clock itself. -/
def checkRrsig (env : Env) (rrsig : RRSIG) (key : DNSKEY) (owner : Name) (records : List Record)
    (s : VState) : Bool × VState :=
  let (now, s) := s.readClock env
  (verifyRrsig env.platform now rrsig key owner records,
    { s with verifyCalls := s.verifyCalls + 1 })

/-- How the search for a verifying signature ended. -/
inductive SigSearch
  | verified
  | exhausted
  | unverified
deriving DecidableEq, Repr

/-- Every signature with every key, in the order of the nested loops. -/
def signaturePairs (rrsigs : List RRSIG) (keys : List DNSKEY) : List (RRSIG × DNSKEY) :=
  rrsigs.flatMap fun rrsig => keys.map fun key => (rrsig, key)

/-- The loop over signatures and keys: a pair whose key tag matches costs one check. -/
def searchSignatures (env : Env) (owner : Name) (records : List Record) :
    List (RRSIG × DNSKEY) → VState → SigSearch × VState
  | [], s => (.unverified, s)
  | (rrsig, key) :: rest, s =>
      if keyTagMatches env.platform key rrsig.keyTag then
        match s.canCheckSig with
        | (false, s) => (.exhausted, s)
        | (true, s) =>
            match checkRrsig env rrsig key owner records s with
            | (true, s) => (.verified, s)
            | (false, s) => searchSignatures env owner records rest s
      else searchSignatures env owner records rest s

/-- The RRset is authenticated: some signature over it verified under one of the keys at some clock
reading. -/
def VerifiedUnder (env : Env) (keys : List DNSKEY) (rrsigs : List RRSIG) (owner : Name)
    (records : List Record) : Prop :=
  ∃ rrsig ∈ rrsigs, ∃ key ∈ keys, ∃ tick,
    verifyRrsig env.platform (env.clock tick) rrsig key owner records = true

theorem checkRrsig_sameTables (env : Env) (rrsig : RRSIG) (key : DNSKEY) (owner : Name)
    (records : List Record) (s : VState) :
    s.SameTables (checkRrsig env rrsig key owner records s).2 :=
  ⟨Nat.le_succ _, rfl, rfl, rfl⟩

theorem mem_signaturePairs {rrsigs : List RRSIG} {keys : List DNSKEY} {rrsig : RRSIG}
    {key : DNSKEY} :
    (rrsig, key) ∈ signaturePairs rrsigs keys ↔ rrsig ∈ rrsigs ∧ key ∈ keys := by
  simp [signaturePairs]

/-- A relation that the smallest steps keep: a look at the clock, a question, a check that is refused
or spent, and a signature check that has been paid for. -/
structure ReadClosed (env : Env) (R : VState → VState → Prop) : Prop where
  refl (s : VState) : R s s
  trans {a b c : VState} (hab : R a b) (hbc : R b c) : R a c
  clock (s : VState) : R s (s.readClock env).2
  ask (name : Name) (rtype : RecordType) (s : VState) : R s (s.ask env name rtype).2
  spend (s : VState) : R s s.canCheckSig.2
  check (rrsig : RRSIG) (key : DNSKEY) (owner : Name) (records : List Record) (s : VState)
    (hpaid : s.canCheckSig.1 = true) :
    R s (checkRrsig env rrsig key owner records s.canCheckSig.2).2

theorem VState.SameTables.readClosed (env : Env) : ReadClosed env VState.SameTables where
  refl := VState.SameTables.refl
  trans := VState.SameTables.trans
  clock := VState.readClock_sameTables env
  ask := VState.ask_sameTables env
  spend := VState.canCheckSig_sameTables
  check rrsig key owner records s _ :=
    s.canCheckSig_sameTables.trans (checkRrsig_sameTables env rrsig key owner records _)

theorem searchSignatures_closed {env : Env} {R : VState → VState → Prop}
    (h : ReadClosed env R) (owner : Name) (records : List Record)
    (pairs : List (RRSIG × DNSKEY)) (s : VState) :
    R s (searchSignatures env owner records pairs s).2 := by
  induction pairs generalizing s with
  | nil => exact h.refl s
  | cons pair rest ih =>
      obtain ⟨rrsig, key⟩ := pair
      have hspend := h.spend s
      have hcheck := h.check rrsig key owner records s
      simp only [searchSignatures]
      split
      · split
        · rename_i s₁ heq
          rw [heq] at hspend
          exact hspend
        · rename_i s₁ heq
          rw [heq] at hcheck
          have hcheck := hcheck rfl
          split
          · rename_i s₂ heq₂
            rw [heq₂] at hcheck
            exact hcheck
          · rename_i s₂ heq₂
            rw [heq₂] at hcheck
            exact h.trans hcheck (ih s₂)
      · exact ih s

/-- A search that ends in `verified` has found a verifying pair. -/
theorem searchSignatures_verified {env : Env} {owner : Name} {records : List Record}
    {pairs : List (RRSIG × DNSKEY)} {s : VState}
    (h : (searchSignatures env owner records pairs s).1 = .verified) :
    ∃ rrsig key tick, (rrsig, key) ∈ pairs ∧
      verifyRrsig env.platform (env.clock tick) rrsig key owner records = true := by
  induction pairs generalizing s with
  | nil => cases h
  | cons pair rest ih =>
      obtain ⟨rrsig, key⟩ := pair
      have hrest : ∀ s', (searchSignatures env owner records rest s').1 = .verified →
          ∃ rrsig' key' tick, (rrsig', key') ∈ (rrsig, key) :: rest ∧
            verifyRrsig env.platform (env.clock tick) rrsig' key' owner records = true := by
        intro s' hs'
        obtain ⟨rrsig', key', tick, hmem, hverify⟩ := ih hs'
        exact ⟨rrsig', key', tick, List.mem_cons_of_mem _ hmem, hverify⟩
      simp only [searchSignatures] at h
      split at h
      · split at h
        · cases h
        · rename_i s₁ _
          split at h
          · rename_i s₂ heq
            refine ⟨rrsig, key, s₁.tick, List.mem_cons_self, ?_⟩
            exact congrArg Prod.fst heq
          · exact hrest _ h
      · exact hrest _ h

theorem searchSignatures_verifiedUnder {env : Env} {owner : Name} {records : List Record}
    {rrsigs : List RRSIG} {keys : List DNSKEY} {s : VState}
    (h : (searchSignatures env owner records (signaturePairs rrsigs keys) s).1 = .verified) :
    VerifiedUnder env keys rrsigs owner records := by
  obtain ⟨rrsig, key, tick, hmem, hverify⟩ := searchSignatures_verified h
  obtain ⟨hrrsig, hkey⟩ := mem_signaturePairs.mp hmem
  exact ⟨rrsig, hrrsig, key, hkey, tick, hverify⟩

/-- The budget allows no further check. -/
def VState.BudgetSpent (s : VState) : Prop := s.budget.maxSigChecks ≤ s.budget.sigChecks

/-- Unless the budget cuts it off, the search ends in `verified` exactly when some pair with the right
key tag verifies.  The verdict on a pair must not depend on the moment it is looked at. -/
theorem searchSignatures_iff {env : Env} {now : Nat} {owner : Name} {records : List Record}
    {pairs : List (RRSIG × DNSKEY)} {s : VState}
    (hsteady : ∀ pair ∈ pairs, ∀ tick, s.tick ≤ tick →
      verifyRrsig env.platform (env.clock tick) pair.1 pair.2 owner records =
        verifyRrsig env.platform now pair.1 pair.2 owner records)
    (hbudget : (searchSignatures env owner records pairs s).1 ≠ .exhausted) :
    (searchSignatures env owner records pairs s).1 = .verified ↔
      ∃ pair ∈ pairs, keyTagMatches env.platform pair.2 pair.1.keyTag = true ∧
        verifyRrsig env.platform now pair.1 pair.2 owner records = true := by
  induction pairs generalizing s with
  | nil => simp [searchSignatures]
  | cons pair rest ih =>
      obtain ⟨rrsig, key⟩ := pair
      obtain ⟨hpair, hrest⟩ := List.forall_mem_cons.mp hsteady
      rw [List.exists_mem_cons_iff]
      by_cases htag : keyTagMatches env.platform key rrsig.keyTag = true
      · by_cases hspent : s.budget.maxSigChecks ≤ s.budget.sigChecks
        · simp [searchSignatures, htag, VState.canCheckSig, hspent] at hbudget
        · have hnow := hpair s.tick le_rfl
          simp only at hnow
          simp only [searchSignatures, htag, if_true, VState.canCheckSig, if_neg hspent, checkRrsig,
            VState.readClock, hnow] at hbudget ⊢
          cases hverify : verifyRrsig env.platform now rrsig key owner records with
          | true => simp
          | false =>
              simp only [hverify] at hbudget
              simp only [Bool.false_eq_true, and_false, false_or]
              refine ih (fun pair hmem tick htick => hrest pair hmem tick ?_) hbudget
              exact (Nat.le_succ s.tick).trans htick
      · simp only [searchSignatures, htag, Bool.false_eq_true, if_false, false_and, false_or]
          at hbudget ⊢
        exact ih hrest hbudget

/-- Only a spent budget cuts a search off. -/
theorem searchSignatures_exhausted {env : Env} {owner : Name} {records : List Record}
    {pairs : List (RRSIG × DNSKEY)} {s : VState}
    (h : (searchSignatures env owner records pairs s).1 = .exhausted) :
    (searchSignatures env owner records pairs s).2.BudgetSpent := by
  induction pairs generalizing s with
  | nil => cases h
  | cons pair rest ih =>
      obtain ⟨rrsig, key⟩ := pair
      by_cases htag : keyTagMatches env.platform key rrsig.keyTag = true
      · by_cases hspent : s.budget.maxSigChecks ≤ s.budget.sigChecks
        · simp only [searchSignatures, htag, if_true, VState.canCheckSig, if_pos hspent]
          exact hspent
        · simp only [searchSignatures, htag, if_true, VState.canCheckSig, if_neg hspent] at h ⊢
          split at h
          · cases h
          · exact ih h
      · simp only [searchSignatures, htag, Bool.false_eq_true, if_false] at h ⊢
        exact ih h

/-- What has been verified stays so, with the same cost, when more pairs follow. -/
theorem searchSignatures_append {env : Env} {owner : Name} {records : List Record}
    {pairs extra : List (RRSIG × DNSKEY)} {s : VState}
    (h : (searchSignatures env owner records pairs s).1 = .verified) :
    searchSignatures env owner records (pairs ++ extra) s =
      searchSignatures env owner records pairs s := by
  induction pairs generalizing s with
  | nil => cases h
  | cons pair rest ih =>
      obtain ⟨rrsig, key⟩ := pair
      simp only [searchSignatures, List.cons_append] at h ⊢
      split
      · rename_i htag
        rw [if_pos htag] at h
        rcases hbudget : s.canCheckSig with ⟨left, s₁⟩
        rw [hbudget] at h
        cases left with
        | false => rfl
        | true =>
            rcases hcheck : checkRrsig env rrsig key owner records s₁ with ⟨verified, s₂⟩
            simp only [hcheck] at h ⊢
            cases verified with
            | true => rfl
            | false => exact ih h
      · rename_i htag
        rw [if_neg htag] at h
        exact ih h

end Dnssec
end UnifiedDns
