import UnifiedDns.Recursor.Passes
import UnifiedDns.Recursor.StrictAcceptance

/-!
# A DS question stays on the parent side

* `AcceptedOnSoa` — the exit of a step that rests on an SOA record.
* `ParentSide` — a pass asks the root servers or the servers of a proper ancestor, and does not end on an
  SOA record below the name.
* `SelfReferral`, `SoaBelow` — the two responses that lead the loop to the child side.
* `ds_asked_of_parent` — a call none of whose passes gets such a response stays on the parent side.
-/

namespace UnifiedDns
namespace Recursor

/-- The step returns the response because of this SOA record. -/
def AcceptedOnSoa (P : Platform) (name : Name) (rtype : RecordType) (response : Message)
    (soa : Record) : Prop :=
  judgeAnswers P name rtype response = none ∧
    response.nameServers.find? Record.isSoa = some soa ∧
      hasAuthoritativeSoa name rtype response = true

theorem AcceptedOnSoa.final {P : Platform} {name : Name} {rtype : RecordType} {response : Message}
    {soa : Record} (h : AcceptedOnSoa P name rtype response soa) (frame : Frame) :
    judgeResponse P name rtype frame response = .done (.ok response) := by
  rw [judgeResponse_of_none frame h.1, if_pos h.2.2]

/-- Where the servers of a pass come from, in a call that was started in `start`: the root servers, the
cache entry of a proper ancestor, or the last referral, to a proper ancestor.  The zone is the one the
loop remembers. -/
inductive AskedOfParent (env : REnv) (name : Name) (start : RState) (pass : Pass) : Prop
  | root (hservers : pass.frame.currentServers = rootServers) (hcached : pass.frame.cachedFrom = none)
      (hlast : pass.frame.lastZone = none)
  | cached {zone : Name} (habove : zone.StrictlyAbove name)
      (hserves : Serves env start.delegationCache zone pass.frame.currentServers)
      (hcached : pass.frame.cachedFrom = some zone) (hlast : pass.frame.lastZone = none)
  | referred {zone : Name} (habove : zone.StrictlyAbove name) {w : Referral}
      (hwritten : pass.state.referrals.head? = some w) (hzone : w.zone = zone)
      (hservers : w.servers = pass.frame.currentServers)
      (hcached : pass.frame.cachedFrom = none) (hlast : pass.frame.lastZone = some zone)

theorem AskedOfParent.zone_not_below {env : REnv} {name : Name} {start : RState} {pass : Pass}
    (h : AskedOfParent env name start pass) {zone : Name}
    (hzone : pass.frame.cachedFrom = some zone ∨ pass.frame.lastZone = some zone) :
    ¬ name.path <+: zone.path := by
  have habove : zone.StrictlyAbove name := by
    cases h with
    | root _ hcached hlast => simp [hcached, hlast] at hzone
    | cached habove _ hcached hlast =>
        simp only [hcached, hlast, Option.some.injEq, reduceCtorEq, or_false] at hzone
        exact hzone ▸ habove
    | referred habove _ _ _ hcached hlast =>
        simp only [hcached, hlast, Option.some.injEq, reduceCtorEq, false_or] at hzone
        exact hzone ▸ habove
  exact fun hbelow => habove.2 (habove.1.eq_of_length_le hbelow.length_le)

/-- A pass of a DS question on the parent side. -/
structure ParentSide (env : REnv) (name : Name) (start : RState) (pass : Pass) : Prop where
  asked : AskedOfParent env name start pass
  /-- The servers of a delegation owned by the name or by a name below it are not asked. -/
  notBelow : ∀ zone, pass.frame.cachedFrom = some zone ∨ pass.frame.lastZone = some zone →
    ¬ name.path <+: zone.path
  /-- The response is not accepted on an SOA record below the name. -/
  soa : ∀ response, pass.reply env name .DS = some response → ∀ soa,
    AcceptedOnSoa env.platform name .DS response soa → ¬ name.StrictlyAbove soa.name

/-! ### What leads to the child side -/

/-- The answer section holds no DS record of the name and no alias of it. -/
def NothingAnswered (name : Name) (response : Message) : Prop :=
  hasRecord response.answers name .DS = false ∧ ¬ HasAlias response.answers name

/-- Nothing in the response is final, and its NS records lead on to the name itself. -/
structure SelfReferral (name : Name) (frame : Frame) (response : Message) : Prop where
  answered : NothingAnswered name response
  noSoa : hasAuthoritativeSoa name .DS response = false
  notDenied : ¬ (response.responseCode = .nxDomain ∧ response.authoritative = true)
  delegation : UsableDelegation name frame response name

/-- Nothing is answered, and the first SOA record is below the name. -/
structure SoaBelow (name : Name) (response : Message) : Prop where
  answered : NothingAnswered name response
  below : ∃ soa, response.nameServers.find? Record.isSoa = some soa ∧ name.StrictlyAbove soa.name

/-- A response that keeps the loop on the parent side. -/
structure KeepsToParent (name : Name) (frame : Frame) (response : Message) : Prop where
  noSelfReferral : ¬ SelfReferral name frame response
  noSoaBelow : ¬ SoaBelow name response

theorem nothingAnswered_of_none {P : Platform} {name : Name} {response : Message}
    (h : judgeAnswers P name .DS response = none) : NothingAnswered name response := by
  rcases judgeAnswers_cases P name .DS response with
    ⟨-, hrecord, hnone⟩ | ⟨m, hanswers, -⟩ | ⟨-, ⟨e, hanswers⟩ | ⟨key, next, hop, hanswers⟩⟩
  · exact ⟨hrecord, hnone⟩
  all_goals
    rw [hanswers] at h
    cases h

/-! ### The passes -/

/-- The search for a cached start of a DS question comes to proper ancestors only. -/
theorem delegationStart_above {name zone : Name} (hname : name.path ≠ [])
    (h : zone ∈ (delegationStart name .DS).ancestors) : zone.StrictlyAbove name := by
  have hzone := Name.mem_ancestors h
  rw [delegationStart, if_pos rfl, Name.zoneOf_iff] at hzone
  refine ⟨hzone.trans (Name.path_baseName_isPrefix name), fun hself => ?_⟩
  -- The parent would be below the name.
  rw [hself] at hzone
  have hbase := Name.path_baseName_isPrefix name
  exact Name.path_baseName_ne hname (hbase.eq_of_length_le hzone.length_le)

theorem startFrame_parent (env : REnv) {name : Name} (hname : name.path ≠ []) (s : RState) :
    AskedOfParent env name s ⟨(startFrame env name .DS s).1, (startFrame env name .DS s).2⟩ := by
  rcases startFrame_cases env name .DS s with hroot | ⟨zone, ips, hzone, hserves, hcached⟩
  · rw [hroot]
    exact .root rfl rfl rfl
  · rw [hcached]
    exact .cached (delegationStart_above hname hzone) hserves rfl rfl

/-- One turn keeps to the parent side unless its response is a referral to the name. -/
theorem turn_parent {env : REnv} {recurse : Resolve} {name : Name} {start : RState} {pass : Pass}
    {next : Frame} {s' : RState}
    (hkeeps : ∀ response, pass.reply env name .DS = some response →
      KeepsToParent name pass.frame response)
    (hturn : turn env recurse name .DS pass.frame pass.state = (.next next, s')) :
    AskedOfParent env name start ⟨next, s'⟩ := by
  rcases turn_next hturn with ⟨-, rfl⟩ |
    ⟨response, zone, nsNames, ips, w, hreply, hverdict, rfl, hwritten, hzone, hservers⟩
  · exact .root rfl rfl rfl
  · obtain ⟨hanswers, hsoa, hdenied, husable⟩ := judgeResponse_referral hverdict
    refine .referred ⟨husable.onPath, fun hself => ?_⟩ hwritten hzone hservers rfl rfl
    have hdelegation : UsableDelegation name pass.frame response name := by
      refine ⟨fun r hr => (husable.owner r hr).trans hself, husable.named, List.prefix_refl _, ?_, ?_⟩
      · rw [← hself]
        exact husable.inBailiwick
      · have hprogress := husable.progress
        cases hlast : pass.frame.lastZone with
        | none => rfl
        | some last =>
            rw [hlast] at hprogress
            simpa [Name.beq_eq_false_iff, hself] using hprogress
    exact (hkeeps response hreply).noSelfReferral
      ⟨nothingAnswered_of_none hanswers, hsoa, hdenied, hdelegation⟩

/-- **DS is asked of the parent side.**  In every call for the DS records of a name below the root, at any
depth of nesting, from any state of the delegation cache and for every behaviour of the servers: if no
pass gets a referral to the name itself, nor an SOA record strictly below the name with nothing answered,
every pass asks the root servers or the servers of a proper ancestor, and none ends on an SOA record
strictly below the name. -/
theorem ds_asked_of_parent {env : REnv} {levels : Nat} {name : Name} (hname : name.path ≠ [])
    {s : RState}
    (hkeeps : ∀ pass ∈ framePasses env levels name .DS s, ∀ response,
      pass.reply env name .DS = some response → KeepsToParent name pass.frame response) :
    ∀ pass ∈ framePasses env levels name .DS s, ParentSide env name s pass := by
  have hasked : ∀ pass ∈ framePasses env levels name .DS s, AskedOfParent env name s pass :=
    turnsPasses_invariant (startFrame_parent env hname s) fun pass hpass next s' _ hturn =>
      turn_parent (hkeeps pass hpass) hturn
  intro pass hpass
  refine ⟨hasked pass hpass, fun zone hzone => (hasked pass hpass).zone_not_below hzone, ?_⟩
  intro response hreply soa haccepted hbelow
  exact (hkeeps pass hpass response hreply).noSoaBelow
    ⟨nothingAnswered_of_none haccepted.1, soa, haccepted.2.1, hbelow⟩

/-! ### Two servers of the parent -/

/-- A response that answers, or whose authority section holds neither an SOA record nor a record of the
name. -/
theorem keepsToParent_of_authority {name : Name} {frame : Frame} {response : Message}
    (h : hasRecord response.answers name .DS = true ∨
      ∀ r ∈ response.nameServers, r.isSoa = false ∧ r.name.path ≠ name.path) :
    KeepsToParent name frame response := by
  constructor
  · rintro ⟨⟨hrecord, -⟩, -, -, hdelegation⟩
    rcases h with hanswered | hauthority
    · rw [hrecord] at hanswered
      cases hanswered
    · obtain ⟨r, hr, -⟩ := hdelegation.named
      exact (hauthority r (List.mem_filter.mp hr).1).2 (hdelegation.owner r hr)
  · rintro ⟨⟨hrecord, -⟩, soa, hfirst, -⟩
    rcases h with hanswered | hauthority
    · rw [hrecord] at hanswered
      cases hanswered
    · have hsoa := (hauthority soa (List.mem_of_find?_eq_some hfirst)).1
      rw [List.find?_some hfirst] at hsoa
      cases hsoa

/-- The DS record of a zone. -/
def dsAnswer (name : Name) : Message :=
  { Message.new with answers := [⟨name, .IN, 300, .ds ⟨1, 8, 2, []⟩⟩] }

/-- The root servers refer to the server of `c.`, which answers for the DS records of `e.c.` -/
def dsEnv : REnv where
  platform := .plain
  clock _ := 0
  reply _ servers name _ :=
    if servers = rootServers then some (referralTo parentZone parentZone ⟨1, 1, 1, 1⟩)
    else if servers = [ip4 1 1 1 1] then some (dsAnswer name)
    else none

/-- Both passes for the DS records of `e.c.` are on the parent side. -/
theorem ds_asked_of_parent_leaf :
    (framePasses dsEnv maxDepth leafZone .DS .init).length = 2 ∧
      ∀ pass ∈ framePasses dsEnv maxDepth leafZone .DS .init,
        ParentSide dsEnv leafZone .init pass := by
  refine ⟨by decide +kernel, ds_asked_of_parent (by decide) fun pass hpass response hreply => ?_⟩
  have hall : ((framePasses dsEnv maxDepth leafZone .DS .init).all fun pass =>
      (pass.reply dsEnv leafZone .DS).all fun response =>
        hasRecord response.answers leafZone .DS ||
          response.nameServers.all fun r => !r.isSoa && decide (r.name.path ≠ leafZone.path)) =
        true := by
    decide +kernel
  have hcond := List.all_eq_true.mp hall pass hpass
  rw [hreply, Option.all_some] at hcond
  simp only [Bool.or_eq_true, List.all_eq_true, Bool.and_eq_true, Bool.not_eq_true',
    decide_eq_true_eq] at hcond
  exact keepsToParent_of_authority hcond

/-- The server of `c.` refers to the server of `e.c.` for the DS records of `e.c.`, which is asked. -/
theorem ds_asked_of_child :
    ¬ ∀ (env : REnv) (levels : Nat) (name : Name) (s : RState), name.path ≠ [] →
        ∀ pass ∈ framePasses env levels name .DS s, ParentSide env name s pass := by
  intro hclaim
  have hany : ((framePasses leafEnv maxDepth leafZone .DS .init).any fun pass =>
      decide (pass.frame.lastZone.map Name.path = some leafZone.path)) = true := by
    decide +kernel
  obtain ⟨pass, hpass, hlast⟩ := List.any_eq_true.mp hany
  obtain ⟨zone, hzone, hself⟩ := Option.map_eq_some_iff.mp (of_decide_eq_true hlast)
  have hside := hclaim leafEnv maxDepth leafZone .init (by decide) pass hpass
  exact hside.notBelow zone (Or.inr hzone) (hself ▸ List.prefix_refl _)

end Recursor
end UnifiedDns
