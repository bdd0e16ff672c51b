import UnifiedDns.Recursor.DelegationCache

/-!
# Which responses end a resolution

* `Acceptable` — a response that may end a resolution: it settles the question in its answer section, or
  denies it with an SOA record at or above the name, or with `NXDOMAIN` and AA.
* `AcceptsStrictly` — one step ends only with such a response, and a `NOERROR` response that is none and
  leads nowhere is an error.
* `AcceptedUnfounded` — the three ways a response is accepted beside that.
* `acceptsStrictly_iff` — a step is strict exactly when none of them is open.
-/

namespace UnifiedDns
namespace Recursor

/-- What a final response has to hold. -/
inductive Acceptable (P : Platform) (name : Name) (rtype : RecordType) (response : Message) : Prop
  | settled (h : AnswerSettles P name rtype response.answers)
  | soa {r : Record} (hmem : r ∈ response.nameServers) (hsoa : r.isSoa = true)
      (howner : r.name.path <+: name.path)
  | nxDomain (hcode : response.responseCode = .nxDomain) (haa : response.authoritative = true)

/-- One step of the loop on one response: it is returned only if it is acceptable, and when it says
`NOERROR`, is not acceptable and holds neither an alias of the name nor a usable delegation, the call
fails. -/
structure AcceptsStrictly (P : Platform) (name : Name) (rtype : RecordType) (frame : Frame)
    (response : Message) : Prop where
  returned : ∀ result, judgeResponse P name rtype frame response = .done (.ok result) →
    Acceptable P name rtype response
  rejected : response.responseCode = .noError → ¬ Acceptable P name rtype response →
    ¬ HasAlias response.answers name → (∀ zone, ¬ UsableDelegation name frame response zone) →
      ∃ e, judgeResponse P name rtype frame response = .done (.error e)

/-- What is accepted without a foundation. -/
inductive AcceptedUnfounded (P : Platform) (name : Name) (rtype : RecordType) (response : Message) :
    Prop
  /-- No alias, and an authority section that holds something but names no nameserver. -/
  | bareAuthority (hnone : ¬ HasAlias response.answers name) (hbare : BareAuthority response)
  /-- A DS question, no alias, and the first SOA record is below the name. -/
  | soaBelow (hnone : ¬ HasAlias response.answers name) (hds : rtype = .DS) {soa : Record}
      (hfirst : response.nameServers.find? Record.isSoa = some soa)
      (hbelow : name.path <+: soa.name.path)
  /-- A CNAME question below a DNAME record that redirects the name to itself. -/
  | dnameToItself (hcname : rtype = .CNAME) (h : DnameToItself P name response.answers)

/-- The check of the SOA record lets pass more than a zone of the name only for DS questions. -/
theorem hasAuthoritativeSoa_iff {name : Name} {rtype : RecordType} {response : Message} :
    hasAuthoritativeSoa name rtype response = true ↔
      ∃ soa, response.nameServers.find? Record.isSoa = some soa ∧
        (soa.name.path <+: name.path ∨ (rtype = .DS ∧ name.path <+: soa.name.path)) := by
  unfold hasAuthoritativeSoa
  cases response.nameServers.find? Record.isSoa with
  | none => simp
  | some soa =>
      simp only [Option.some.injEq, exists_eq_left', Bool.or_eq_true, Bool.and_eq_true,
        decide_eq_true_eq, Name.zoneOf_iff, Name.beq_iff_path]
      constructor
      · rintro ((habove | hsame) | ⟨hds, hbelow | habove⟩)
        · exact Or.inl habove
        · exact Or.inl (hsame ▸ List.prefix_refl _)
        · exact Or.inr ⟨hds, hbelow⟩
        · exact Or.inl habove
      · rintro (habove | ⟨hds, hbelow⟩)
        · exact Or.inl (Or.inl habove)
        · exact Or.inr ⟨hds, Or.inl hbelow⟩

section Steps

variable {P : Platform} {name : Name} {rtype : RecordType} {response : Message}

/-- Without an alias and a record of the name the answer section says nothing. -/
theorem judgeAnswers_eq_none (hrecord : ¬ AnswerSettles P name rtype response.answers)
    (hnone : ¬ HasAlias response.answers name) : judgeAnswers P name rtype response = none := by
  rcases judgeAnswers_cases P name rtype response with
    ⟨hanswers, -, -⟩ | ⟨m, hanswers, hsettles | ⟨-, hself⟩⟩ | ⟨halias, -⟩
  · exact hanswers
  · exact absurd hsettles hrecord
  · obtain ⟨owner, target, ttl, substituted, hmatch, -, -⟩ := hself
    exact absurd (Or.inr ⟨owner, target, dnameMatch_eq_some hmatch⟩) hnone
  · exact absurd halias hnone

/-- A step that returns a response has found it acceptable, or one of the other ways was open. -/
theorem judgeResponse_ok {frame : Frame} {result : Message}
    (h : judgeResponse P name rtype frame response = .done (.ok result)) :
    Acceptable P name rtype response ∨ AcceptedUnfounded P name rtype response := by
  have hexit := judgeResponse_exit P name rtype frame response
  rw [h] at hexit
  cases hexit with
  | settled _ hsettles => exact Or.inl (.settled hsettles)
  | dnameToItself _ hcname hself => exact Or.inr (.dnameToItself hcname hself)
  | soa hnone hsoa =>
      obtain ⟨soa, hfirst, habove | ⟨hds, hbelow⟩⟩ := hasAuthoritativeSoa_iff.mp hsoa
      · exact Or.inl (.soa (List.mem_of_find?_eq_some hfirst) (List.find?_some hfirst) habove)
      · exact Or.inr (.soaBelow hnone hds hfirst hbelow)
  | nxDomain hcode haa => exact Or.inl (.nxDomain hcode haa)
  | bare hnone hbare => exact Or.inr (.bareAuthority hnone hbare)

/-- What is not acceptable is returned all the same when one of the other ways is open. -/
theorem judgeResponse_of_unfounded (frame : Frame) (hnot : ¬ Acceptable P name rtype response)
    (h : AcceptedUnfounded P name rtype response) :
    ∃ result, judgeResponse P name rtype frame response = .done (.ok result) := by
  have hsettles : ¬ AnswerSettles P name rtype response.answers := fun h => hnot (.settled h)
  cases h with
  | bareAuthority hnone hbare =>
      refine ⟨response, ?_⟩
      rw [judgeResponse_of_none frame (judgeAnswers_eq_none hsettles hnone)]
      split
      · rfl
      · split
        · rfl
        · exact judgeReferral_of_bare name frame hbare
  | soaBelow hnone hds hfirst hbelow =>
      have hsoa : hasAuthoritativeSoa name rtype response = true :=
        hasAuthoritativeSoa_iff.mpr ⟨_, hfirst, Or.inr ⟨hds, hbelow⟩⟩
      refine ⟨response, ?_⟩
      rw [judgeResponse_of_none frame (judgeAnswers_eq_none hsettles hnone), if_pos hsoa]
  | dnameToItself hcname hself =>
      subst hcname
      have hrecord : hasRecord response.answers name .CNAME = false := by
        rw [Bool.eq_false_iff]
        exact fun hrecord => hsettles (.record .refl hrecord)
      obtain ⟨m, hanswers⟩ := judgeAnswers_of_dnameToItself hself hrecord
      refine ⟨m, ?_⟩
      unfold judgeResponse
      rw [hanswers]

end Steps

/-- **Strict acceptance.**  For every name, type, state of the loop and response, a step of the loop
accepts strictly if and only if the response is acceptable or none of the three other ways to be accepted
is open to it. -/
theorem acceptsStrictly_iff (P : Platform) (name : Name) (rtype : RecordType) (frame : Frame)
    (response : Message) :
    AcceptsStrictly P name rtype frame response ↔
      (Acceptable P name rtype response ∨ ¬ AcceptedUnfounded P name rtype response) := by
  constructor
  · intro hstrict
    by_cases hacceptable : Acceptable P name rtype response
    · exact Or.inl hacceptable
    · refine Or.inr fun hunfounded => ?_
      obtain ⟨result, hresult⟩ := judgeResponse_of_unfounded frame hacceptable hunfounded
      exact hacceptable (hstrict.returned result hresult)
  · intro hcond
    have hreturned : ∀ result, judgeResponse P name rtype frame response = .done (.ok result) →
        Acceptable P name rtype response := by
      intro result hresult
      rcases judgeResponse_ok hresult with hacceptable | hunfounded
      · exact hacceptable
      · exact hcond.resolve_right (not_not.mpr hunfounded)
    refine ⟨hreturned, ?_⟩
    intro _ hnot hnone hunusable
    have hexit := judgeResponse_exit P name rtype frame response
    cases hverdict : judgeResponse P name rtype frame response with
    | done result =>
        cases result with
        | ok result => exact absurd (hreturned result hverdict) hnot
        | error e => exact ⟨e, rfl⟩
    | redirect key target hop =>
        rw [hverdict] at hexit
        cases hexit with
        | followed halias => exact absurd halias hnone
    | referral zone nsNames =>
        rw [hverdict] at hexit
        cases hexit with
        | referral _ _ _ _ husable => exact absurd husable (hunusable zone)

/-- An empty authoritative answer of which the authority section holds an SOA record of `d.` only. -/
def foreignSoa : Message :=
  { Message.new with
    authoritative := true
    nameServers := [⟨⟨[[100]], by simp [ValidLabels, wireLength]⟩, .IN, 300, .soa []⟩] }

/-- It is returned for a name below `c.` -/
theorem foreign_soa_accepted :
    ¬ ∀ (P : Platform) (name : Name) (rtype : RecordType) (frame : Frame) (response : Message),
      AcceptsStrictly P name rtype frame response := by
  intro hclaim
  have hacceptable : Acceptable .plain leafZone .A foreignSoa :=
    (hclaim .plain leafZone .A .fromRoot foreignSoa).returned foreignSoa rfl
  cases hacceptable with
  | settled hsettles =>
      cases hsettles with
      | record _ hrecord => cases hrecord
      | substitution hdname _ _ =>
          obtain ⟨r, hr, -⟩ := hdname
          cases hr
      | yxDomain hdname _ =>
          obtain ⟨r, hr, -⟩ := hdname
          cases hr
  | soa hmem _ howner =>
      rw [List.mem_singleton.mp hmem] at howner
      exact absurd howner (by decide)
  | nxDomain hcode _ => cases hcode

end Recursor
end UnifiedDns
