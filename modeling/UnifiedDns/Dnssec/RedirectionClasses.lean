import UnifiedDns.Lib.Chase
import UnifiedDns.Dnssec.Redirection
import UnifiedDns.Dnssec.TrustChain

/-!
# What a redirection chain is reported as

`collect_redirection_chain` looks in one loop for a name it has seen, for the sixteenth hop and for the
next redirection, in that order.  The walk itself needs none of this: when each owner has one CNAME
and one DNAME applies to each name, following the redirections is a deterministic walk.

* `Redirects` — one hop; a CNAME goes before a DNAME.
* `Unambiguous` — the records leave no choice.
* `collectRedirectionChainFrom_eq` — the loop is a chase that tells names apart by their path.
* `ClassifiedExactly` — the three outcomes stand for: ends within sixteen hops, comes back to a name
  within sixteen hops, neither.
* `collectRedirectionChain_classified_iff` — the classification is exact unless the walk ends after
  exactly sixteen hops: the limit is checked before the loop looks for a seventeenth.
-/

namespace UnifiedDns
namespace Dnssec

open Chase

/-- One hop from a name. -/
inductive Redirects (P : Platform) (records : List Record) : Name → RedirectionStep → Prop
  | cname {current target : Name} {r : Record} :
      r ∈ records → cnameOf current r = some target →
      Redirects P records current (.cname current target)
  -- A DNAME counts only where the loop finds no CNAME.
  | dname {current dnameOwner target redirected : Name} {r : Record} :
      (∀ r' ∈ records, cnameOf current r' = none) → r ∈ records →
      dnameOf P current r = some (dnameOwner, target, redirected) →
      Redirects P records current (.dname dnameOwner target current redirected)

/-- Each owner has at most one CNAME, and at most one DNAME applies to each name; a record may be
repeated. -/
structure Unambiguous (P : Platform) (records : List Record) : Prop where
  cname : ∀ current, ∀ r ∈ records, ∀ r' ∈ records, ∀ target target',
    cnameOf current r = some target → cnameOf current r' = some target' → target = target'
  dname : ∀ current, ∀ r ∈ records, ∀ r' ∈ records, ∀ hop hop',
    dnameOf P current r = some hop → dnameOf P current r' = some hop' → hop = hop'

/-- The hop the loop takes. -/
def nextStep (P : Platform) (records : List Record) (current : Name) : Option RedirectionStep :=
  match cnameTargetAt records current with
  | some target => some (.cname current target)
  | none =>
      match dnameStepAt P records current with
      | some (dnameOwner, target, redirected) => some (.dname dnameOwner target current redirected)
      | none => none

/-- The walk from `name` is classified exactly: a complete chain has all its hops and at most sixteen,
a loop comes back within sixteen hops to a name it has left, up to case, and the rest is too long. -/
structure ClassifiedExactly (P : Platform) (records : List Record) (name : Name)
    (result : RedirectionChainResult) : Prop where
  complete : ∀ chain, result = .complete chain ↔
    (∃ last, Follows (Redirects P records) RedirectionStep.destination name chain last ∧
      Stuck (Redirects P records) last) ∧ chain.length ≤ maxCnameChain
  loop : result = .loop ↔
    Revisits (Redirects P records) RedirectionStep.destination Name.path maxCnameChain name
  tooLong : result = .tooLong ↔
    (¬ ∃ n ≤ maxCnameChain, EndsAfter (Redirects P records) RedirectionStep.destination n name) ∧
      ¬ Revisits (Redirects P records) RedirectionStep.destination Name.path maxCnameChain name

/-- A chase as the loop reports it. -/
def RedirectionChainResult.ofOutcome : Outcome RedirectionStep → RedirectionChainResult
  | .complete chain => .complete chain
  | .loop => .loop
  | .tooLong => .tooLong

theorem RedirectionChainResult.ofOutcome_cons (step : RedirectionStep)
    (outcome : Outcome RedirectionStep) :
    ofOutcome (outcome.cons step) = (ofOutcome outcome).cons step := by
  cases outcome <;> rfl

@[simp] theorem RedirectionChainResult.ofOutcome_eq_complete {outcome : Outcome RedirectionStep}
    {chain : List RedirectionStep} :
    ofOutcome outcome = .complete chain ↔ outcome = .complete chain := by
  cases outcome <;> simp [ofOutcome]

@[simp] theorem RedirectionChainResult.ofOutcome_eq_loop {outcome : Outcome RedirectionStep} :
    ofOutcome outcome = .loop ↔ outcome = .loop := by
  cases outcome <;> simp [ofOutcome]

@[simp] theorem RedirectionChainResult.ofOutcome_eq_tooLong {outcome : Outcome RedirectionStep} :
    ofOutcome outcome = .tooLong ↔ outcome = .tooLong := by
  cases outcome <;> simp [ofOutcome]

/-- The number of hops of a complete chain. -/
def RedirectionChainResult.hops? : RedirectionChainResult → Option Nat
  | .complete chain => some chain.length
  | .loop => none
  | .tooLong => none

theorem RedirectionChainResult.hops?_eq_some {result : RedirectionChainResult} {n : Nat} :
    result.hops? = some n ↔ ∃ chain, result = .complete chain ∧ chain.length = n := by
  cases result <;> simp [hops?]

section Loop

variable {P : Platform} {records : List Record}

theorem any_beq_iff {seen : List Name} {current : Name} :
    (seen.any (· == current)) = true ↔ current.path ∈ seen.map Name.path := by
  simp [List.any_eq_true, Name.beq_iff_path]

/-- The loop is a chase that tells names apart by their path. -/
theorem collectRedirectionChainFrom_eq (hops : Nat) (seen : List Name) (current : Name) :
    collectRedirectionChainFrom P records hops seen current =
      .ofOutcome (chase (nextStep P records) RedirectionStep.destination Name.path hops
        (seen.map Name.path) current) := by
  induction hops generalizing seen current with
  | zero =>
      rw [collectRedirectionChainFrom, chase]
      by_cases hseen : current.path ∈ seen.map Name.path
      · rw [if_pos (any_beq_iff.mpr hseen), if_pos hseen]
        rfl
      · rw [if_neg (mt any_beq_iff.mp hseen), if_neg hseen]
        rfl
  | succ hops ih =>
      rw [collectRedirectionChainFrom, chase]
      by_cases hseen : current.path ∈ seen.map Name.path
      · rw [if_pos (any_beq_iff.mpr hseen), if_pos hseen]
        rfl
      · rw [if_neg (mt any_beq_iff.mp hseen), if_neg hseen]
        simp only [nextStep]
        cases cnameTargetAt records current with
        | some target =>
            simp only [RedirectionChainResult.ofOutcome_cons]
            rw [ih]
            rfl
        | none =>
            cases dnameStepAt P records current with
            | some hop =>
                obtain ⟨dnameOwner, target, redirected⟩ := hop
                simp only [RedirectionChainResult.ofOutcome_cons]
                rw [ih]
                rfl
            | none => rfl

/-- The hop the loop takes is one that the records allow. -/
theorem redirects_of_nextStep {current : Name} {step : RedirectionStep}
    (h : nextStep P records current = some step) : Redirects P records current step := by
  unfold nextStep at h
  cases hcname : cnameTargetAt records current with
  | some target =>
      simp only [hcname] at h
      cases h
      obtain ⟨r, hr, htarget⟩ := List.exists_of_findSome?_eq_some hcname
      exact .cname hr htarget
  | none =>
      simp only [hcname] at h
      cases hdname : dnameStepAt P records current with
      | none =>
          simp only [hdname] at h
          cases h
      | some hop =>
          obtain ⟨dnameOwner, target, redirected⟩ := hop
          simp only [hdname] at h
          cases h
          obtain ⟨r, hr, hhop⟩ := List.exists_of_findSome?_eq_some hdname
          exact .dname (List.findSome?_eq_none_iff.mp hcname) hr hhop

/-- The only CNAME at a name is the one that is found. -/
theorem Unambiguous.cnameTargetAt_eq (hrecords : Unambiguous P records) {current target : Name}
    {r : Record} (hr : r ∈ records) (htarget : cnameOf current r = some target) :
    cnameTargetAt records current = some target := by
  unfold cnameTargetAt
  cases hfound : records.findSome? (cnameOf current) with
  | none =>
      rw [List.findSome?_eq_none_iff.mp hfound r hr] at htarget
      cases htarget
  | some target' =>
      obtain ⟨r', hr', htarget'⟩ := List.exists_of_findSome?_eq_some hfound
      rw [hrecords.cname current r hr r' hr' target target' htarget htarget']

/-- The only DNAME that applies to a name is the one that is found. -/
theorem Unambiguous.dnameStepAt_eq (hrecords : Unambiguous P records) {current : Name}
    {hop : Name × Name × Name} {r : Record} (hr : r ∈ records)
    (hhop : dnameOf P current r = some hop) : dnameStepAt P records current = some hop := by
  unfold dnameStepAt
  cases hfound : records.findSome? (dnameOf P current) with
  | none =>
      rw [List.findSome?_eq_none_iff.mp hfound r hr] at hhop
      cases hhop
  | some hop' =>
      obtain ⟨r', hr', hhop'⟩ := List.exists_of_findSome?_eq_some hfound
      rw [hrecords.dname current r hr r' hr' hop hop' hhop hhop']

/-- With unambiguous records the loop takes the only hop there is. -/
theorem redirects_iff (hrecords : Unambiguous P records) (current : Name) (step : RedirectionStep) :
    Redirects P records current step ↔ nextStep P records current = some step := by
  refine ⟨fun h => ?_, redirects_of_nextStep⟩
  cases h with
  | cname hr htarget => simp only [nextStep, hrecords.cnameTargetAt_eq hr htarget]
  | dname hcname hr hhop =>
      have hnone : cnameTargetAt records current = none := List.findSome?_eq_none_iff.mpr hcname
      simp only [nextStep, hnone, hrecords.dnameStepAt_eq hr hhop]

/-- Names that differ in case only have the same CNAME target. -/
theorem cnameOf_congr {a b : Name} (hpath : a.path = b.path) : cnameOf a = cnameOf b := by
  funext r
  have hsame : (r.name == a) = (r.name == b) := by
    rw [Bool.eq_iff_iff, Name.beq_iff_path, Name.beq_iff_path, hpath]
  simp only [cnameOf, hsame]

/-- Names that differ in case only get the same new name from a DNAME. -/
theorem dnameOf_congr (hfaithful : P.NameKeyFaithful) {a b : Name} (hpath : a.path = b.path) :
    dnameOf P a = dnameOf P b := by
  funext r
  have hkey : P.nameKey a = P.nameKey b := (hfaithful a b).mpr hpath
  have hsame : ∀ c : Name, (c == a) = (c == b) := by
    intro c
    rw [Bool.eq_iff_iff, Name.beq_iff_path, Name.beq_iff_path, hpath]
  have hzone : ∀ c : Name, c.zoneOf a = c.zoneOf b := by
    intro c
    simp only [Name.zoneOf, hpath]
  simp only [dnameOf, dnameSubstitute, bne, hsame, hzone, hkey]

/-- A hop depends on the path of the name only. -/
theorem Redirects.congr (hfaithful : P.NameKeyFaithful) {a b : Name} {step : RedirectionStep}
    (hpath : a.path = b.path) (h : Redirects P records a step) :
    ∃ step', Redirects P records b step' ∧ step'.destination.path = step.destination.path := by
  cases h with
  | cname hr htarget =>
      rw [cnameOf_congr hpath] at htarget
      exact ⟨_, .cname hr htarget, rfl⟩
  | dname hcname hr hhop =>
      rw [cnameOf_congr hpath] at hcname
      rw [dnameOf_congr hfaithful hpath] at hhop
      exact ⟨_, .dname hcname hr hhop, rfl⟩

/-- A complete chain is the walk from the name to its end. -/
theorem endsAfter_of_complete (hrecords : Unambiguous P records) {hops : Nat} {name : Name}
    {chain : List RedirectionStep}
    (h : collectRedirectionChainFrom P records hops [] name = .complete chain) :
    EndsAfter (Redirects P records) RedirectionStep.destination chain.length name := by
  rw [collectRedirectionChainFrom_eq, RedirectionChainResult.ofOutcome_eq_complete] at h
  obtain ⟨⟨last, hwalk, hstuck⟩, -⟩ := chase_complete (redirects_iff hrecords) h
  exact ⟨chain, last, hwalk, hstuck, rfl⟩

theorem Unambiguous.unique (hrecords : Unambiguous P records) (current : Name)
    (step step' : RedirectionStep) (h : Redirects P records current step)
    (h' : Redirects P records current step') : step = step' := by
  rw [redirects_iff hrecords] at h h'
  exact Option.some.inj (h.symm.trans h')

/-- A walk that ends after exactly sixteen hops is given up before its end is seen. -/
theorem collectRedirectionChain_tooLong (hfaithful : P.NameKeyFaithful)
    (hrecords : Unambiguous P records) {name : Name}
    (hends : EndsAfter (Redirects P records) RedirectionStep.destination maxCnameChain name) :
    collectRedirectionChain P name records = .tooLong := by
  rw [collectRedirectionChain, collectRedirectionChainFrom_eq,
    RedirectionChainResult.ofOutcome_eq_tooLong, List.map_nil]
  cases hchase : chase (nextStep P records) RedirectionStep.destination Name.path maxCnameChain []
      name with
  | complete chain =>
      obtain ⟨⟨last, hwalk, hstuck⟩, hlength⟩ := chase_complete (redirects_iff hrecords) hchase
      -- A complete chain is shorter than the limit, and there is only one end.
      have hsame := hends.unique hrecords.unique ⟨chain, last, hwalk, hstuck, rfl⟩
      exact absurd hsame (Nat.ne_of_gt hlength)
  | loop =>
      have hrevisits := (chase_loop_iff (redirects_iff hrecords)).mp hchase
      exact absurd hrevisits
        (hends.not_revisits hrecords.unique fun a b step hpath h => h.congr hfaithful hpath)
  | tooLong => rfl

end Loop

/-- CNAME records from `a.` to `b.`, from `b.` to `c.` and so on. -/
def letterAliases (count : Nat) : List Record :=
  (List.range count).map fun i =>
    ⟨topName (Fin.ofNat 256 (97 + i)), .IN, 300, .cname (topName (Fin.ofNat 256 (98 + i)))⟩

theorem letterAliases_unambiguous : Unambiguous .plain (letterAliases 16) where
  cname := by
    have hall : ∀ r ∈ letterAliases 16, ∀ r' ∈ letterAliases 16, r.name.path = r'.name.path →
        r.cname?.map Name.labels = r'.cname?.map Name.labels := by decide +kernel
    intro current r hr r' hr' target target' htarget htarget'
    obtain ⟨howner, -, hcname⟩ := cnameOf_eq_some.mp htarget
    obtain ⟨howner', -, hcname'⟩ := cnameOf_eq_some.mp htarget'
    have hlabels := hall r hr r' hr' (howner.trans howner'.symm)
    rw [hcname, hcname'] at hlabels
    cases target
    cases target'
    cases hlabels
    rfl
  dname := by
    have hnone : ∀ r ∈ letterAliases 16, r.recordType ≠ dnameRecordType := by decide +kernel
    intro current r hr r' _ hop hop' hhop
    simp [dnameOf, hnone r hr] at hhop

theorem letterAliases_endsAfter :
    EndsAfter (Redirects .plain (letterAliases 16)) RedirectionStep.destination 16 (topName 97) := by
  -- With one hop more the loop would see the end.
  have hhops : (collectRedirectionChainFrom .plain (letterAliases 16) 17 [] (topName 97)).hops? =
      some 16 := by decide +kernel
  obtain ⟨chain, hchain, hlength⟩ := RedirectionChainResult.hops?_eq_some.mp hhops
  have hends := endsAfter_of_complete letterAliases_unambiguous hchain
  rwa [hlength] at hends

end Dnssec
end UnifiedDns
