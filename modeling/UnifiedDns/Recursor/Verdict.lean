import Mathlib.Logic.Relation
import UnifiedDns.Recursor.Resolver

/-!
# The verdicts on a response

What `judgeResponse` may say, in terms of the three sections.

* `CnameHop`, `DnameAbove`, `HasAlias` — the aliases of a name in an answer section.
* `UsableDelegation` — NS records of one owner, above the name, inside the bailiwick, not seen before.
* `BareAuthority` — an authority section with nothing to follow.
* `judgeAnswers_cases`, `judgeReferral_cases` — every exit of the two halves.
* `Exit`, `judgeResponse_exit` — every verdict, with what led to it.
-/

namespace UnifiedDns

/-- `z` is a proper ancestor of `n`. -/
def Name.StrictlyAbove (z n : Name) : Prop := z.path <+: n.path ∧ z.path ≠ n.path

namespace Recursor

open Dnssec (dnameSubstitute extractDnameTarget)

/-! ### Aliases -/

/-- A CNAME record of the section leads from `a` to `b`. -/
def CnameHop (records : List Record) (a b : Name) : Prop :=
  ∃ r ∈ records, r.name.path = a.path ∧ r.recordType = .CNAME ∧ r.cname? = some b

/-- A DNAME record of the section redirects the names below `owner`, this name among them. -/
def DnameAbove (records : List Record) (name owner target : Name) : Prop :=
  ∃ r ∈ records, r.recordType = dnameRecordType ∧ r.name = owner ∧ owner.StrictlyAbove name ∧
    extractDnameTarget r = some target

/-- The section holds an alias of the name. -/
def HasAlias (records : List Record) (name : Name) : Prop :=
  (∃ target, CnameHop records name target) ∨ ∃ owner target, DnameAbove records name owner target

theorem cnameTargetAt_eq_some {records : List Record} {current target : Name}
    (h : Dnssec.cnameTargetAt records current = some target) : CnameHop records current target := by
  obtain ⟨r, hr, hsome⟩ := List.exists_of_findSome?_eq_some h
  exact ⟨r, hr, Dnssec.cnameOf_eq_some.mp hsome⟩

theorem cnameTargetAt_eq_none_iff {records : List Record} {current : Name} :
    Dnssec.cnameTargetAt records current = none ↔ ∀ target, ¬ CnameHop records current target := by
  constructor
  · rintro h target ⟨r, hr, hhop⟩
    have hnone := List.findSome?_eq_none_iff.mp h r hr
    rw [Dnssec.cnameOf_eq_some.mpr hhop] at hnone
    cases hnone
  · intro h
    cases htarget : Dnssec.cnameTargetAt records current with
    | none => rfl
    | some target => exact absurd (cnameTargetAt_eq_some htarget) (h target)

theorem dnameMatch_eq_some {records : List Record} {name owner target : Name} {ttl : Nat}
    (h : dnameMatch records name = some (owner, target, ttl)) :
    DnameAbove records name owner target := by
  obtain ⟨r, hr, hsome⟩ := List.exists_of_findSome?_eq_some h
  split at hsome
  · rename_i hcond
    obtain ⟨htype, habove⟩ := Dnssec.dnameTest_iff.mp hcond
    split at hsome
    · rename_i target' htarget
      cases hsome
      exact ⟨r, hr, htype, rfl, habove, htarget⟩
    · cases hsome
  · cases hsome

theorem dnameMatch_eq_none_iff {records : List Record} {name : Name} :
    dnameMatch records name = none ↔ ∀ owner target, ¬ DnameAbove records name owner target := by
  constructor
  · rintro h owner target ⟨r, hr, htype, rfl, habove, htarget⟩
    have hnone := List.findSome?_eq_none_iff.mp h r hr
    rw [if_pos (Dnssec.dnameTest_iff.mpr ⟨htype, habove⟩), htarget] at hnone
    cases hnone
  · intro h
    cases hmatch : dnameMatch records name with
    | none => rfl
    | some found =>
        obtain ⟨owner, target, ttl⟩ := found
        exact absurd (dnameMatch_eq_some hmatch) (h owner target)

/-- A chain that is answered ends at a record of the section. -/
theorem followCnames_answered {P : Platform} {records : List Record} {rtype : RecordType}
    {turns : Nat} {seen : List Text} {current : Name}
    (h : followCnames P records rtype turns seen current = .answered) :
    ∃ target, Relation.ReflTransGen (CnameHop records) current target ∧
      hasRecord records target rtype = true := by
  induction turns generalizing seen current with
  | zero => cases h
  | succ turns ih =>
      simp only [followCnames] at h
      split at h
      · cases h
      · split at h
        · rename_i hrecord
          exact ⟨current, .refl, hrecord⟩
        · split at h
          · rename_i next hnext
            obtain ⟨target, hchain, hrecord⟩ := ih h
            exact ⟨target, hchain.head (cnameTargetAt_eq_some hnext), hrecord⟩
          · cases h

/-! ### The answer section -/

/-- The answer section settles the question by itself. -/
inductive AnswerSettles (P : Platform) (name : Name) (rtype : RecordType) (records : List Record) :
    Prop
  /-- A record of the type at the name or at the end of a CNAME chain. -/
  | record {target : Name} (hchain : Relation.ReflTransGen (CnameHop records) name target)
      (hrecord : hasRecord records target rtype = true)
  /-- A record of the type at the name a DNAME record substitutes. -/
  | substitution {owner target substituted : Name} (hdname : DnameAbove records name owner target)
      (hsubstitute : dnameSubstitute P name owner target = .ok substituted)
      (hrecord : hasRecord records substituted rtype = true)
  /-- A DNAME record whose substitution is too long. -/
  | yxDomain {owner target : Name} (hdname : DnameAbove records name owner target)
      (hsubstitute : dnameSubstitute P name owner target = .error .yxDomain)

/-- The first DNAME record redirects the name to itself. -/
def DnameToItself (P : Platform) (name : Name) (records : List Record) : Prop :=
  ∃ owner target ttl substituted, dnameMatch records name = some (owner, target, ttl) ∧
    dnameSubstitute P name owner target = .ok substituted ∧ substituted.path = name.path

theorem hasRecord_append {xs ys : List Record} {name : Name} {rtype : RecordType} :
    hasRecord (xs ++ ys) name rtype = (hasRecord xs name rtype || hasRecord ys name rtype) := by
  simp [hasRecord]

theorem judgeDname_cases {P : Platform} {name owner target : Name} {rtype : RecordType}
    {response : Message} {ttl : Nat}
    (hmatch : dnameMatch response.answers name = some (owner, target, ttl)) :
    (∃ m, judgeDname P name rtype response owner target ttl = .done (.ok m) ∧
      (AnswerSettles P name rtype response.answers ∨
        (rtype = .CNAME ∧ DnameToItself P name response.answers))) ∨
    (∃ e, judgeDname P name rtype response owner target ttl = .done (.error e)) ∨
    ∃ key next hop, judgeDname P name rtype response owner target ttl = .redirect key next hop := by
  have hdname := dnameMatch_eq_some hmatch
  unfold judgeDname
  split
  · rename_i substituted hsubstitute
    simp only
    generalize hhop : (if hasRecord response.answers name .CNAME = true then response
      else { response with
        answers := response.answers ++ [⟨name, .IN, ttl, .cname substituted⟩] }) = hop
    split
    · rename_i hrecord
      refine Or.inl ⟨hop, rfl, ?_⟩
      rw [← hhop] at hrecord
      split at hrecord
      · exact Or.inl (.substitution hdname hsubstitute hrecord)
      · -- The record may be the synthesized CNAME.
        rw [hasRecord_append, Bool.or_eq_true] at hrecord
        rcases hrecord with hrecord | hsynth
        · exact Or.inl (.substitution hdname hsubstitute hrecord)
        · simp only [hasRecord, List.any_cons, List.any_nil, Bool.or_false, Bool.and_eq_true,
            Name.beq_iff_path, decide_eq_true_eq] at hsynth
          exact Or.inr ⟨hsynth.2.symm, owner, target, ttl, substituted, hmatch, hsubstitute,
            hsynth.1.symm⟩
    · exact Or.inr (Or.inr ⟨_, _, _, rfl⟩)
  · rename_i hsubstitute
    exact Or.inl ⟨_, rfl, Or.inl (.yxDomain hdname hsubstitute)⟩
  · exact Or.inr (Or.inl ⟨_, rfl⟩)

/-- Every exit of the first half: nothing for this question, a final answer, or an alias. -/
theorem judgeAnswers_cases (P : Platform) (name : Name) (rtype : RecordType) (response : Message) :
    (judgeAnswers P name rtype response = none ∧ hasRecord response.answers name rtype = false ∧
      ¬ HasAlias response.answers name) ∨
    (∃ m, judgeAnswers P name rtype response = some (.done (.ok m)) ∧
      (AnswerSettles P name rtype response.answers ∨
        (rtype = .CNAME ∧ DnameToItself P name response.answers))) ∨
    (HasAlias response.answers name ∧
      ((∃ e, judgeAnswers P name rtype response = some (.done (.error e))) ∨
        ∃ key next hop, judgeAnswers P name rtype response = some (.redirect key next hop))) := by
  unfold judgeAnswers
  split
  · rename_i hempty
    have hnil : response.answers = [] := List.isEmpty_iff.mp hempty
    refine Or.inl ⟨rfl, by simp [hnil, hasRecord], ?_⟩
    rintro (⟨target, r, hr, -⟩ | ⟨owner, target, r, hr, -⟩) <;> simp [hnil] at hr
  · split
    · rename_i hrecord
      exact Or.inr (Or.inl ⟨response, rfl, Or.inl (.record .refl hrecord)⟩)
    · rename_i hrecord
      split
      · rename_i firstTarget hfirst
        have hhop := cnameTargetAt_eq_some hfirst
        split
        · exact Or.inr (Or.inr ⟨Or.inl ⟨firstTarget, hhop⟩, Or.inl ⟨_, rfl⟩⟩)
        · rename_i hanswered
          obtain ⟨target, hchain, htarget⟩ := followCnames_answered hanswered
          exact Or.inr (Or.inl ⟨response, rfl, Or.inl (.record (hchain.head hhop) htarget)⟩)
        · exact Or.inr (Or.inr ⟨Or.inl ⟨firstTarget, hhop⟩, Or.inr ⟨_, _, _, rfl⟩⟩)
      · rename_i hnoCname
        split
        · rename_i owner target ttl hmatch
          have halias : HasAlias response.answers name :=
            Or.inr ⟨owner, target, dnameMatch_eq_some hmatch⟩
          rcases @judgeDname_cases P name owner target rtype response ttl hmatch with
            ⟨m, heq, hsettles⟩ | ⟨e, heq⟩ | ⟨key, next, hop, heq⟩
          · exact Or.inr (Or.inl ⟨m, congrArg some heq, hsettles⟩)
          · exact Or.inr (Or.inr ⟨halias, Or.inl ⟨e, congrArg some heq⟩⟩)
          · exact Or.inr (Or.inr ⟨halias, Or.inr ⟨key, next, hop, congrArg some heq⟩⟩)
        · rename_i hnoDname
          refine Or.inl ⟨rfl, by simpa using hrecord, ?_⟩
          rintro (⟨target, hhop⟩ | ⟨owner, target, hdname⟩)
          · exact cnameTargetAt_eq_none_iff.mp hnoCname target hhop
          · exact dnameMatch_eq_none_iff.mp hnoDname owner target hdname

/-! ### The authority section -/

/-- An authority section whose NS records, if there are any, have one owner and name no nameserver. -/
structure BareAuthority (response : Message) : Prop where
  nonempty : response.nameServers ≠ []
  owner : ∃ zone : Name, ∀ r ∈ nsRecords response, r.name.path = zone.path
  unnamed : ∀ r ∈ nsRecords response, nsTarget r = none

/-- NS records that lead on to `zone`. -/
structure UsableDelegation (name : Name) (frame : Frame) (response : Message) (zone : Name) :
    Prop where
  owner : ∀ r ∈ nsRecords response, r.name.path = zone.path
  named : ∃ r ∈ nsRecords response, ∃ nsdname, nsTarget r = some nsdname
  onPath : zone.path <+: name.path
  inBailiwick : frame.bailiwick.path <+: zone.path
  progress : frame.lastZone.any (· == zone) = false

theorem any_owner_ne_iff {first : Record} {rest : List Record} :
    (rest.any fun r => r.name != first.name) = true ↔
      ¬ ∀ r ∈ first :: rest, r.name.path = first.name.path := by
  simp [Name.bne_iff_path]

theorem nsTargets_isEmpty_iff {records : List Record} :
    (records.filterMap nsTarget).isEmpty = true ↔ ∀ r ∈ records, nsTarget r = none := by
  rw [List.isEmpty_iff, List.filterMap_eq_nil_iff]

/-- The checks of an owner: above the name, and inside the bailiwick. -/
theorem referral_inside_iff {bailiwick zone name : Name} :
    (!(zone.zoneOf name || zone == name) ||
        !(bailiwick.isRoot || bailiwick.zoneOf zone || bailiwick == zone)) = true ↔
      ¬ (zone.path <+: name.path ∧ bailiwick.path <+: zone.path) := by
  have honPath : (zone.zoneOf name || zone == name) = true ↔ zone.path <+: name.path := by
    rw [Bool.or_eq_true, Name.zoneOf_iff, Name.beq_iff_path]
    exact or_iff_left_of_imp fun hsame => hsame ▸ List.prefix_refl _
  have hbailiwick : (bailiwick.isRoot || bailiwick.zoneOf zone || bailiwick == zone) = true ↔
      bailiwick.path <+: zone.path := by
    rw [Bool.or_eq_true, Bool.or_eq_true, Name.zoneOf_iff, Name.beq_iff_path, Name.isRoot_iff_path]
    constructor
    · rintro ((hroot | hzone) | hsame)
      · rw [hroot]
        exact List.nil_prefix
      · exact hzone
      · rw [hsame]
    · exact fun hzone => Or.inl (Or.inr hzone)
  rw [Bool.or_eq_true, Bool.not_eq_true', Bool.not_eq_true', ← Bool.not_eq_true, ← Bool.not_eq_true,
    honPath, hbailiwick, not_and_or]

/-- Every exit of the second half. -/
theorem judgeReferral_cases (name : Name) (frame : Frame) (response : Message) :
    (∃ e, judgeReferral name frame response = .done (.error e)) ∨
    (judgeReferral name frame response = .done (.ok response) ∧ BareAuthority response) ∨
    ∃ zone nsNames, judgeReferral name frame response = .referral zone nsNames ∧
      UsableDelegation name frame response zone := by
  unfold judgeReferral
  split
  · exact Or.inl ⟨_, rfl⟩
  · rename_i hne
    have hne : response.nameServers ≠ [] := by simpa using hne
    split
    · rename_i hnil
      exact Or.inr (Or.inl ⟨rfl, hne, ⟨.root, by simp [hnil]⟩, by simp [hnil]⟩)
    · rename_i first rest hns
      simp only
      split
      · exact Or.inl ⟨_, rfl⟩
      · rename_i hconsistent
        have howner : ∀ r ∈ nsRecords response, r.name.path = first.name.path := by
          rw [hns]
          exact not_not.mp (mt any_owner_ne_iff.mpr hconsistent)
        rw [← hns]
        split
        · rename_i hunnamed
          exact Or.inr (Or.inl ⟨rfl, hne, ⟨first.name, howner⟩, nsTargets_isEmpty_iff.mp hunnamed⟩)
        · rename_i hnamed
          split
          · exact Or.inl ⟨_, rfl⟩
          · rename_i hnew
            split
            · exact Or.inl ⟨_, rfl⟩
            · rename_i hinside
              obtain ⟨honPath, hbailiwick⟩ := not_not.mp (mt referral_inside_iff.mpr hinside)
              have hnames : ∃ r ∈ nsRecords response, ∃ nsdname, nsTarget r = some nsdname := by
                by_contra hall
                refine hnamed (nsTargets_isEmpty_iff.mpr fun r hr => ?_)
                cases htarget : nsTarget r with
                | none => rfl
                | some nsdname => exact absurd ⟨r, hr, nsdname, htarget⟩ hall
              exact Or.inr (Or.inr ⟨first.name, _, rfl, howner, hnames, honPath, hbailiwick,
                by simpa using hnew⟩)

/-- A bare authority section is taken for an answer. -/
theorem judgeReferral_of_bare (name : Name) (frame : Frame) {response : Message}
    (h : BareAuthority response) : judgeReferral name frame response = .done (.ok response) := by
  obtain ⟨zone, howner⟩ := h.owner
  unfold judgeReferral
  rw [if_neg (by simpa using h.nonempty)]
  cases hns : nsRecords response with
  | nil => rfl
  | cons first rest =>
      rw [hns] at howner
      have hconsistent : ¬ (rest.any fun r => r.name != first.name) = true := by
        rw [any_owner_ne_iff, not_not]
        intro r hr
        rw [howner r hr, howner first List.mem_cons_self]
      have hunnamed : ((first :: rest).filterMap nsTarget).isEmpty = true := by
        rw [nsTargets_isEmpty_iff, ← hns]
        exact h.unnamed
      simp only [if_neg hconsistent, if_pos hunnamed]

/-- A CNAME question below a DNAME record that redirects the name to itself is answered by the
synthesized CNAME record. -/
theorem judgeAnswers_of_dnameToItself {P : Platform} {name : Name} {response : Message}
    (h : DnameToItself P name response.answers)
    (hnone : hasRecord response.answers name .CNAME = false) :
    ∃ m, judgeAnswers P name .CNAME response = some (.done (.ok m)) := by
  obtain ⟨owner, target, ttl, substituted, hmatch, hsubstitute, hself⟩ := h
  have hnonempty : ¬ response.answers.isEmpty = true := by
    intro hempty
    rw [List.isEmpty_iff.mp hempty] at hmatch
    cases hmatch
  have hnoCname : Dnssec.cnameTargetAt response.answers name = none := by
    refine cnameTargetAt_eq_none_iff.mpr ?_
    rintro next ⟨r, hr, hname, htype, -⟩
    have hrecord : hasRecord response.answers name .CNAME = true :=
      List.any_eq_true.mpr ⟨r, hr, by simp [Name.beq_iff_path, hname, htype]⟩
    rw [hnone] at hrecord
    cases hrecord
  have hsynth : hasRecord (response.answers ++ [⟨name, .IN, ttl, .cname substituted⟩]) substituted
      .CNAME = true := by
    rw [hasRecord_append, Bool.or_eq_true]
    right
    simp [hasRecord, Record.recordType, RData.recordType, Name.beq_iff_path, hself]
  refine ⟨{ response with
    answers := response.answers ++ [⟨name, .IN, ttl, .cname substituted⟩] }, ?_⟩
  unfold judgeAnswers
  simp only [if_neg hnonempty, hnone, Bool.false_eq_true, if_false, hnoCname, hmatch, judgeDname,
    hsubstitute, if_pos hsynth]

/-! ### The whole response -/

/-- The steps of a verdict in their order. -/
theorem judgeResponse_of_none {P : Platform} {name : Name} {rtype : RecordType} {response : Message}
    (frame : Frame) (hanswers : judgeAnswers P name rtype response = none) :
    judgeResponse P name rtype frame response =
      if hasAuthoritativeSoa name rtype response = true then .done (.ok response)
      else if response.responseCode = .nxDomain ∧ response.authoritative = true then
        .done (.ok response)
      else judgeReferral name frame response := by
  unfold judgeResponse
  rw [hanswers]

/-- Every verdict on a response, with what led to it. -/
inductive Exit (P : Platform) (name : Name) (rtype : RecordType) (frame : Frame)
    (response : Message) : Verdict → Prop
  | refused (e : RecursorError) : Exit P name rtype frame response (.done (.error e))
  | settled (m : Message) (h : AnswerSettles P name rtype response.answers) :
      Exit P name rtype frame response (.done (.ok m))
  | dnameToItself (m : Message) (hcname : rtype = .CNAME)
      (h : DnameToItself P name response.answers) : Exit P name rtype frame response (.done (.ok m))
  | soa (hnone : ¬ HasAlias response.answers name)
      (hsoa : hasAuthoritativeSoa name rtype response = true) :
      Exit P name rtype frame response (.done (.ok response))
  | nxDomain (hcode : response.responseCode = .nxDomain) (haa : response.authoritative = true) :
      Exit P name rtype frame response (.done (.ok response))
  | bare (hnone : ¬ HasAlias response.answers name) (h : BareAuthority response) :
      Exit P name rtype frame response (.done (.ok response))
  | followed (halias : HasAlias response.answers name) (key : Text) (next : Name) (hop : Message) :
      Exit P name rtype frame response (.redirect key next hop)
  | referral {zone : Name} (nsNames : List Name) (hanswers : judgeAnswers P name rtype response = none)
      (hsoa : hasAuthoritativeSoa name rtype response = false)
      (hdenied : ¬ (response.responseCode = .nxDomain ∧ response.authoritative = true))
      (h : UsableDelegation name frame response zone) :
      Exit P name rtype frame response (.referral zone nsNames)

theorem judgeResponse_exit (P : Platform) (name : Name) (rtype : RecordType) (frame : Frame)
    (response : Message) :
    Exit P name rtype frame response (judgeResponse P name rtype frame response) := by
  rcases judgeAnswers_cases P name rtype response with
    ⟨hanswers, -, hnone⟩ | ⟨m, hanswers, hsettled | ⟨hcname, hself⟩⟩ |
    ⟨halias, ⟨e, hanswers⟩ | ⟨key, next, hop, hanswers⟩⟩
  · rw [judgeResponse_of_none frame hanswers]
    split
    · rename_i hsoa
      exact .soa hnone hsoa
    · rename_i hsoa
      split
      · rename_i hnx
        exact .nxDomain hnx.1 hnx.2
      · rename_i hdenied
        rcases judgeReferral_cases name frame response with
          ⟨e, heq⟩ | ⟨heq, hbare⟩ | ⟨zone, nsNames, heq, husable⟩
        · rw [heq]
          exact .refused e
        · rw [heq]
          exact .bare hnone hbare
        · rw [heq]
          exact .referral nsNames hanswers (by simpa using hsoa) hdenied husable
  all_goals
    unfold judgeResponse
    rw [hanswers]
  · exact .settled m hsettled
  · exact .dnameToItself m hcname hself
  · exact .refused e
  · exact .followed halias key next hop

/-- A referral that is followed is usable, and nothing in the response is final. -/
theorem judgeResponse_referral {P : Platform} {name : Name} {rtype : RecordType} {frame : Frame}
    {response : Message} {zone : Name} {nsNames : List Name}
    (h : judgeResponse P name rtype frame response = .referral zone nsNames) :
    judgeAnswers P name rtype response = none ∧ hasAuthoritativeSoa name rtype response = false ∧
      ¬ (response.responseCode = .nxDomain ∧ response.authoritative = true) ∧
        UsableDelegation name frame response zone := by
  have hexit := judgeResponse_exit P name rtype frame response
  rw [h] at hexit
  cases hexit with
  | referral _ hanswers hsoa hdenied husable => exact ⟨hanswers, hsoa, hdenied, husable⟩

end Recursor
end UnifiedDns
