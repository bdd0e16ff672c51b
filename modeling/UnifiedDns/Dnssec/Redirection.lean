import UnifiedDns.Dnssec.Nsec3

/-!
# CNAME and DNAME redirections

`dname_substitute` and `extract_dname_target` of `recursor.rs`, and `collect_redirection_chain`, which
follows the redirections of an answer section.

* `dnameSubstitute` — suffix substitution on the presentation format, with the length limits.
* `extractDnameTarget` — the target is read from the octets of the RDATA.
* `collectRedirectionChain` — the hops from a name, at most sixteen, with cycle detection.
* `finalOwner` — where a chain ends; `collectRedirectionChain_linked` says each hop starts where the
  one before it ended and is backed by a record.
-/

namespace UnifiedDns
namespace Dnssec

/-- `dname_substitute`. -/
def dnameSubstitute (P : Platform) (name dnameOwner target : Name) : Except ResponseCode Name :=
  if !dnameOwner.zoneOf name || dnameOwner == name then .error .formErr
  else
    let nameStr := P.nameKey name
    let ownerStr := P.nameKey dnameOwner
    if !ownerStr.isSuffixOf nameStr then .error .formErr
    else
      let newNameStr := nameStr.take (nameStr.length - ownerStr.length) ++ P.nameText target
      if 255 < newNameStr.length then .error .yxDomain
      else if (splitDots (trimEndDots newNameStr)).any fun label => decide (63 < label.length) then
        .error .yxDomain
      else
        match P.parseName newNameStr with
        | some redirected => .ok redirected
        | none => .error .yxDomain

/-- The loop of `Name::read`: labels up to the root octet.  A compression pointer would have to point
before the first octet, so it never reads. -/
def readLabels : Nat → List Byte → Option (List Label)
  | 0, _ => none
  | _ + 1, [] => none
  | fuel + 1, len :: rest =>
      if len = 0 then some []
      else if 63 < len.val ∨ rest.length < len.val then none
      else
        match readLabels fuel (rest.drop len.val) with
        | none => none
        | some labels => some (rest.take len.val :: labels)

/-- `Name::read` on RDATA octets. -/
def readName (octets : List Byte) : Option Name :=
  match readLabels (octets.length + 1) octets with
  | none => none
  | some labels => if h : ValidLabels labels then some ⟨labels, h⟩ else none

/-- `extract_dname_target`. -/
def extractDnameTarget (rec : Record) : Option Name :=
  if rec.recordType = dnameRecordType then
    match rec.data with
    | .other _ octets => readName octets
    | _ => none
  else none

inductive RedirectionStep
  | cname (owner target : Name)
  | dname (dnameOwner target inputName redirectedName : Name)

inductive RedirectionChainResult
  | complete (chain : List RedirectionStep)
  | loop
  | tooLong

/-- The target of a CNAME record at `current`. -/
def cnameOf (current : Name) (r : Record) : Option Name :=
  if r.name == current && decide (r.recordType = .CNAME) then r.cname? else none

/-- What a DNAME record above `current` makes of it: owner, target and new name. -/
def dnameOf (P : Platform) (current : Name) (r : Record) : Option (Name × Name × Name) :=
  if decide (r.recordType = dnameRecordType) && r.name.zoneOf current && r.name != current then
    match extractDnameTarget r with
    | none => none
    | some target =>
        match dnameSubstitute P current r.name target with
        | .ok redirected => some (r.name, target, redirected)
        | .error _ => none
  else none

/-- The first CNAME record that applies. -/
def cnameTargetAt (records : List Record) (current : Name) : Option Name :=
  records.findSome? (cnameOf current)

/-- The first DNAME record that applies. -/
def dnameStepAt (P : Platform) (records : List Record) (current : Name) :
    Option (Name × Name × Name) :=
  records.findSome? (dnameOf P current)

/-- Put a step in front of the rest of a chain. -/
def RedirectionChainResult.cons (step : RedirectionStep) :
    RedirectionChainResult → RedirectionChainResult
  | .complete chain => .complete (step :: chain)
  | .loop => .loop
  | .tooLong => .tooLong

/-- The loop of `collect_redirection_chain`, with the hops that are left and the names seen. -/
def collectRedirectionChainFrom (P : Platform) (records : List Record) :
    Nat → List Name → Name → RedirectionChainResult
  | hops, seen, current =>
      if seen.any (· == current) then .loop
      else
        match hops with
        | 0 => .tooLong
        | hops + 1 =>
            match cnameTargetAt records current with
            | some target =>
                (collectRedirectionChainFrom P records hops (current :: seen) target).cons
                  (.cname current target)
            | none =>
                match dnameStepAt P records current with
                | some (dnameOwner, target, redirected) =>
                    (collectRedirectionChainFrom P records hops (current :: seen) redirected).cons
                      (.dname dnameOwner target current redirected)
                | none => .complete []

/-- `collect_redirection_chain`. -/
def collectRedirectionChain (P : Platform) (name : Name) (records : List Record) :
    RedirectionChainResult :=
  collectRedirectionChainFrom P records maxCnameChain [] name

namespace RedirectionStep

/-- The name a step starts at. -/
def source : RedirectionStep → Name
  | .cname owner _ => owner
  | .dname _ _ inputName _ => inputName

/-- The name a step leads to. -/
def destination : RedirectionStep → Name
  | .cname _ target => target
  | .dname _ _ _ redirectedName => redirectedName

end RedirectionStep

/-- The name the chain from `name` ends at. -/
def finalOwner (name : Name) (chain : List RedirectionStep) : Name :=
  match chain.getLast? with
  | some step => step.destination
  | none => name

/-- Each step starts where the one before it ended. -/
def Linked : Name → List RedirectionStep → Prop
  | _, [] => True
  | current, step :: rest => step.source = current ∧ Linked step.destination rest

theorem finalOwner_cons (name : Name) (step : RedirectionStep) (rest : List RedirectionStep) :
    finalOwner name (step :: rest) = finalOwner step.destination rest := by
  cases hlast : rest.getLast? with
  | none => simp [finalOwner, List.getLast?_eq_none_iff.mp hlast]
  | some last => simp [finalOwner, List.getLast?_cons, hlast]

theorem RedirectionChainResult.cons_eq_complete {step : RedirectionStep}
    {result : RedirectionChainResult} {chain : List RedirectionStep}
    (h : result.cons step = .complete chain) :
    ∃ rest, result = .complete rest ∧ chain = step :: rest := by
  cases result with
  | complete rest =>
      cases h
      exact ⟨rest, rfl, rfl⟩
  | loop => cases h
  | tooLong => cases h

theorem cnameOf_eq_some {r : Record} {current target : Name} :
    cnameOf current r = some target ↔
      r.name.path = current.path ∧ r.recordType = .CNAME ∧ r.cname? = some target := by
  rw [cnameOf, Option.ite_none_right_eq_some, Bool.and_eq_true, decide_eq_true_eq, Name.beq_iff_path,
    and_assoc]

/-- The test for a DNAME record above a name. -/
theorem dnameTest_iff {r : Record} {current : Name} :
    (decide (r.recordType = dnameRecordType) && r.name.zoneOf current && r.name != current) = true ↔
      r.recordType = dnameRecordType ∧ r.name.path <+: current.path ∧ r.name.path ≠ current.path := by
  rw [Bool.and_eq_true, Bool.and_eq_true, decide_eq_true_eq, Name.zoneOf_iff, Name.bne_iff_path,
    and_assoc]

theorem dnameStepAt_spec {P : Platform} {records : List Record}
    {current dnameOwner target redirected : Name}
    (h : dnameStepAt P records current = some (dnameOwner, target, redirected)) :
    ∃ r ∈ records, r.name = dnameOwner ∧ r.recordType = dnameRecordType ∧
      dnameOwner.path <+: current.path ∧ dnameOwner.path ≠ current.path ∧
      extractDnameTarget r = some target ∧
      dnameSubstitute P current dnameOwner target = .ok redirected := by
  obtain ⟨r, hr, hsome⟩ := List.exists_of_findSome?_eq_some h
  unfold dnameOf at hsome
  split at hsome
  · rename_i hcond
    obtain ⟨htype, habove, hne⟩ := dnameTest_iff.mp hcond
    split at hsome
    · cases hsome
    · rename_i target' htarget
      split at hsome
      · rename_i redirected' hsub
        cases hsome
        exact ⟨r, hr, rfl, htype, habove, hne, htarget, hsub⟩
      · cases hsome
  · cases hsome

/-- What backs a step in the records. -/
def StepBacked (P : Platform) (records : List Record) : RedirectionStep → Prop
  | .cname owner target => cnameTargetAt records owner = some target
  | .dname dnameOwner target inputName redirectedName =>
      cnameTargetAt records inputName = none ∧
        dnameStepAt P records inputName = some (dnameOwner, target, redirectedName)

theorem collectRedirectionChainFrom_spec {P : Platform} {records : List Record} {hops : Nat}
    {seen : List Name} {current : Name} {chain : List RedirectionStep}
    (h : collectRedirectionChainFrom P records hops seen current = .complete chain) :
    Linked current chain ∧ (∀ step ∈ chain, StepBacked P records step) ∧
      cnameTargetAt records (finalOwner current chain) = none ∧
      dnameStepAt P records (finalOwner current chain) = none := by
  induction hops generalizing seen current chain with
  | zero =>
      simp only [collectRedirectionChainFrom] at h
      split at h <;> cases h
  | succ hops ih =>
      simp only [collectRedirectionChainFrom] at h
      split at h
      · cases h
      · split at h
        · rename_i target htarget
          obtain ⟨rest, hrest, rfl⟩ := RedirectionChainResult.cons_eq_complete h
          obtain ⟨hlinked, hbacked, hfinal⟩ := ih hrest
          refine ⟨⟨rfl, hlinked⟩, ?_, ?_⟩
          · exact List.forall_mem_cons.mpr ⟨htarget, hbacked⟩
          · rwa [finalOwner_cons]
        · rename_i hcname
          split at h
          · rename_i dnameOwner target redirected hdname
            obtain ⟨rest, hrest, rfl⟩ := RedirectionChainResult.cons_eq_complete h
            obtain ⟨hlinked, hbacked, hfinal⟩ := ih hrest
            refine ⟨⟨rfl, hlinked⟩, ?_, ?_⟩
            · exact List.forall_mem_cons.mpr ⟨⟨hcname, hdname⟩, hbacked⟩
            · rwa [finalOwner_cons]
          · rename_i hdname
            cases h
            exact ⟨trivial, by simp, hcname, hdname⟩

/-- A complete chain is linked from the name on, each step is backed by a record, and nothing
redirects the name it ends at. -/
theorem collectRedirectionChain_linked {P : Platform} {name : Name} {records : List Record}
    {chain : List RedirectionStep}
    (h : collectRedirectionChain P name records = .complete chain) :
    Linked name chain ∧ (∀ step ∈ chain, StepBacked P records step) ∧
      cnameTargetAt records (finalOwner name chain) = none ∧
      dnameStepAt P records (finalOwner name chain) = none :=
  collectRedirectionChainFrom_spec h

end Dnssec
end UnifiedDns
