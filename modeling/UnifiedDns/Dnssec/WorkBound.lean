import UnifiedDns.Dnssec.Validator

/-!
# The work of a validation

Verifying a signature is the expensive part of a validation, and a hostile zone can offer many
signatures and many keys.  `ValidationBudget` is to bound it: each call of `verify_rrsig` is paid for
with a check, and one budget is carried through the redirections, the final RRset, the negative proofs
and every chain of trust that is walked on the way.

* `VState.Metered` — what a stretch of the validator may do to the budget and to the number of
  `verify_rrsig` calls.
* `metered_keyClosed`, `metered_runClosed` — every step of a walk and of a validation is metered.
* `verifyCalls_le` — the bound on a whole validation.
-/

namespace UnifiedDns
namespace Dnssec

/-- From `s` to `s'` every `verify_rrsig` call was paid for with a check, checks were only spent, and
none beyond the limit. -/
structure VState.Metered (s s' : VState) : Prop where
  limit_eq : s'.budget.maxSigChecks = s.budget.maxSigChecks
  calls_mono : s.verifyCalls ≤ s'.verifyCalls
  checks_mono : s.budget.sigChecks ≤ s'.budget.sigChecks
  paid : s'.verifyCalls + s.budget.sigChecks ≤ s.verifyCalls + s'.budget.sigChecks
  checks_le : s'.budget.sigChecks ≤ max s.budget.sigChecks s.budget.maxSigChecks

namespace VState

theorem Metered.refl (s : VState) : Metered s s :=
  ⟨rfl, le_rfl, le_rfl, le_rfl, le_max_left _ _⟩

theorem Metered.trans {a b c : VState} (hab : Metered a b) (hbc : Metered b c) : Metered a c := by
  refine ⟨hbc.limit_eq.trans hab.limit_eq, hab.calls_mono.trans hbc.calls_mono,
    hab.checks_mono.trans hbc.checks_mono, ?_, ?_⟩
  · have hpaid := hab.paid
    have hpaid' := hbc.paid
    omega
  · have hchecks := hab.checks_le
    have hchecks' := hbc.checks_le
    have hlimit := hab.limit_eq
    omega

/-- Where neither the budget nor the number of calls changes there is nothing to pay for. -/
theorem Metered.of_unspent {s s' : VState} (hbudget : s'.budget = s.budget)
    (hcalls : s'.verifyCalls = s.verifyCalls) : Metered s s' := by
  refine ⟨by rw [hbudget], hcalls.ge, by rw [hbudget], ?_, ?_⟩
  · rw [hbudget, hcalls]
  · rw [hbudget]
    exact le_max_left _ _

/-- A refused check costs nothing; a granted one is below the limit. -/
theorem canCheckSig_metered (s : VState) : Metered s s.canCheckSig.2 := by
  unfold canCheckSig
  split
  · exact Metered.refl s
  · rename_i hleft
    refine ⟨rfl, le_rfl, Nat.le_succ _, Nat.add_le_add_left (Nat.le_succ _) _, ?_⟩
    change s.budget.sigChecks + 1 ≤ _
    omega

end VState

/-- The check that was granted before a `verify_rrsig` call pays for the call. -/
theorem checkRrsig_metered (env : Env) (rrsig : RRSIG) (key : DNSKEY) (owner : Name)
    (records : List Record) (s : VState) (hpaid : s.canCheckSig.1 = true) :
    s.Metered (checkRrsig env rrsig key owner records s.canCheckSig.2).2 := by
  have hleft : ¬ s.budget.maxSigChecks ≤ s.budget.sigChecks := by
    intro hspent
    simp [VState.canCheckSig, hspent] at hpaid
  simp only [VState.canCheckSig, if_neg hleft, checkRrsig, VState.readClock]
  refine ⟨rfl, Nat.le_succ _, Nat.le_succ _, ?_, ?_⟩
  · change s.verifyCalls + 1 + s.budget.sigChecks ≤ s.verifyCalls + (s.budget.sigChecks + 1)
    omega
  · change s.budget.sigChecks + 1 ≤ _
    omega

theorem metered_keyClosed (env : Env) : KeyClosed env VState.Metered where
  refl := VState.Metered.refl
  trans := VState.Metered.trans
  clock _ := .of_unspent rfl rfl
  ask _ _ _ := .of_unspent rfl rfl
  spend := VState.canCheckSig_metered
  check := checkRrsig_metered env
  store _ _ _ _ := .of_unspent rfl rfl

theorem buildTrustChain_metered (env : Env) (zone : Name) (s : VState) :
    s.Metered (buildTrustChain env zone s).2 := by
  have hwalk := chainFrom_closed (metered_keyClosed env) (zonePath zone) none 300 s
  refine hwalk.trans ?_
  exact .of_unspent rfl rfl

theorem storeSignedness_metered (env : Env) (zone : Name) (signedness : ZoneSignedness)
    (proofTtl : Nat) (s : VState) :
    s.Metered (storeSignedness env zone signedness proofTtl s) := by
  unfold storeSignedness
  split
  · exact .refl s
  · exact .of_unspent rfl rfl

/-- The chain that `is_zone_signed` walks is charged to the same budget. -/
theorem isZoneSigned_metered (env : Env) (name : Name) (s : VState) :
    s.Metered (isZoneSigned env name s).2 := by
  have hread := (metered_keyClosed env).toReadClosed
  have hcached := cachedSignedness_closed hread name name.ancestors s
  unfold isZoneSigned
  split
  · rename_i heq
    rw [heq] at hcached
    exact hcached
  · rename_i s₁ heq
    rw [heq] at hcached
    have hapex : s₁.Metered (findZoneApex env name s₁).2 :=
      findZoneApexFrom_closed hread name name.ancestors s₁
    have hchain := buildTrustChain_metered env
      ((findZoneApex env name s₁).1.getD (if name.isRoot then .root else name.baseName))
      (findZoneApex env name s₁).2
    exact ((hcached.trans hapex).trans hchain).trans (storeSignedness_metered env _ _ _ _)

theorem metered_runClosed (env : Env) : RunClosed env VState.Metered where
  toReadClosed := (metered_keyClosed env).toReadClosed
  chain := buildTrustChain_metered env
  zoneSigned := isZoneSigned_metered env

theorem validateMessageWithBudget_metered (env : Env) (msg : Message) (qname : Name)
    (qtype : RecordType) (s : VState) :
    s.Metered (validateMessageWithBudget env msg qname qtype s).2 :=
  validateMessageWithBudget_closed (metered_runClosed env) msg qname qtype s

/-- One validation calls `verify_rrsig` at most as often as its budget has checks left, whatever the
message, the servers and the caches.  The number of checks spent only grows, so that it has stayed
within the limit during the whole validation when it does so at the end. -/
theorem verifyCalls_le (env : Env) (msg : Message) (qname : Name) (qtype : RecordType)
    (s : VState) :
    let after := (validateMessageWithBudget env msg qname qtype s).2
    after.verifyCalls ≤ s.verifyCalls + (s.budget.maxSigChecks - s.budget.sigChecks) ∧
      after.budget.maxSigChecks = s.budget.maxSigChecks ∧
      s.budget.sigChecks ≤ after.budget.sigChecks ∧
      after.budget.sigChecks ≤ max s.budget.sigChecks s.budget.maxSigChecks ∧
      (s.budget.sigChecks ≤ s.budget.maxSigChecks →
        after.budget.sigChecks ≤ after.budget.maxSigChecks) := by
  intro after
  have hmetered : s.Metered after := validateMessageWithBudget_metered env msg qname qtype s
  have hlimit := hmetered.limit_eq
  have hpaid := hmetered.paid
  have hchecks := hmetered.checks_le
  refine ⟨by omega, hlimit, hmetered.checks_mono, hchecks, fun hstart => ?_⟩
  rw [hlimit]
  rwa [max_eq_right hstart] at hchecks

/-- `validate_message` starts with a fresh budget. -/
theorem validateMessage_calls_le (env : Env) (msg : Message) (qname : Name)
    (qtype : RecordType) (s : VState) :
    (validateMessage env msg qname qtype s).2.verifyCalls ≤ s.verifyCalls + 24 := by
  have hmetered := validateMessageWithBudget_metered env msg qname qtype
    { s with budget := .default }
  have hpaid := hmetered.paid
  have hchecks := hmetered.checks_le
  simp only [ValidationBudget.default] at hpaid hchecks
  change (validateMessageWithBudget env msg qname qtype { s with budget := .default }).2.verifyCalls
    ≤ _
  simp only [ValidationBudget.default]
  omega

end Dnssec
end UnifiedDns
