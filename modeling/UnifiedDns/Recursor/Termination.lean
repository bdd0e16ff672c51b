import UnifiedDns.Recursor.Resolver

/-!
# Resolution comes to an end

`resolve_internal` counts its depth upwards and calls itself for aliases and nameserver addresses; inside
a response it follows CNAME records until a target comes up again.  Neither recursion has a counter that
runs down, so the semantics here has none either.

* `CnameLoop` — the loop inside a response, with the number of its turns.
* `CnameLoop.turns_le`, `exists_cnameLoop` — it ends, after at most one turn more than there are CNAME
  records: every turn but the last comes to a CNAME target that has not been seen.
* `Task`, `Runs` — the calls and loops of a resolution as they call each other, with a trace of what each
  frame did.
* `Runs.result_eq` — a run has the result of the model.
* `Runs.bounded` — what every frame of a run keeps to.
* `resolveInternal_returns` — every call has a run.
-/

namespace UnifiedDns
namespace Recursor

open Dnssec (cnameTargetAt)

/-! ### The CNAME loop inside a response -/

section Cnames

variable (P : Platform) (records : List Record) (rtype : RecordType)

/-- The loop from a target, with the keys seen, the number of turns and the end. -/
inductive CnameLoop : List Text → Name → Nat → CnameEnd → Prop
  | seen {seen : List Text} {current : Name} :
      P.nameKey current ∈ seen → CnameLoop seen current 1 .loop
  | answered {seen : List Text} {current : Name} :
      P.nameKey current ∉ seen → hasRecord records current rtype = true →
      CnameLoop seen current 1 .answered
  | stop {seen : List Text} {current : Name} :
      P.nameKey current ∉ seen → hasRecord records current rtype = false →
      cnameTargetAt records current = none → CnameLoop seen current 1 (.target current)
  | follow {seen : List Text} {current next : Name} {turns : Nat} {last : CnameEnd} :
      P.nameKey current ∉ seen → hasRecord records current rtype = false →
      cnameTargetAt records current = some next →
      CnameLoop (P.nameKey current :: seen) next turns last →
      CnameLoop seen current (turns + 1) last

/-- The CNAME records of a section. -/
def cnameRecords : List Record := records.filter fun r => decide (r.recordType = .CNAME)

/-- The CNAME records whose targets have not been seen. -/
def unseenCnames (seen : List Text) : List Record :=
  (cnameRecords records).filter fun r => (r.cname?.map P.nameKey).all fun key => !seen.contains key

variable {P records rtype}

/-- A target is the target of a CNAME record of the section. -/
theorem mem_cnameRecords_of_target {current next : Name}
    (h : cnameTargetAt records current = some next) :
    ∃ r ∈ cnameRecords records, r.cname? = some next := by
  obtain ⟨r, hr, hsome⟩ := List.exists_of_findSome?_eq_some h
  obtain ⟨-, htype, hcname⟩ := Dnssec.cnameOf_eq_some.mp hsome
  exact ⟨r, List.mem_filter.mpr ⟨hr, decide_eq_true htype⟩, hcname⟩

/-- A new target leaves fewer CNAME records unseen. -/
theorem length_unseenCnames_lt {seen : List Text} {current : Name}
    (htarget : ∃ r ∈ cnameRecords records, r.cname? = some current)
    (hnew : P.nameKey current ∉ seen) :
    (unseenCnames P records (P.nameKey current :: seen)).length <
      (unseenCnames P records seen).length := by
  have hfilter : unseenCnames P records (P.nameKey current :: seen) =
      (unseenCnames P records seen).filter fun r =>
        (r.cname?.map P.nameKey).all fun key => !decide (key = P.nameKey current) := by
    simp only [unseenCnames, List.filter_filter]
    refine List.filter_congr fun r _ => ?_
    cases r.cname? <;> simp
  obtain ⟨r, hr, hcname⟩ := htarget
  rw [hfilter, List.length_filter_lt_length_iff_exists]
  exact ⟨r, List.mem_filter.mpr ⟨hr, by simp [hcname, hnew]⟩, by simp [hcname]⟩

theorem length_unseenCnames_le (seen : List Text) :
    (unseenCnames P records seen).length ≤ (cnameRecords records).length :=
  List.length_filter_le _ _

/-- The loop takes at most one turn more than there are CNAME records with an unseen target. -/
theorem CnameLoop.turns_le {seen : List Text} {current : Name} {turns : Nat} {last : CnameEnd}
    (h : CnameLoop P records rtype seen current turns last)
    (htarget : ∃ r ∈ cnameRecords records, r.cname? = some current) :
    turns ≤ (unseenCnames P records seen).length + 1 := by
  induction h with
  | seen => exact Nat.succ_le_succ (Nat.zero_le _)
  | answered => exact Nat.succ_le_succ (Nat.zero_le _)
  | stop => exact Nat.succ_le_succ (Nat.zero_le _)
  | follow hnew _ hnext _ ih =>
      have hrest := ih (mem_cnameRecords_of_target hnext)
      have hless := length_unseenCnames_lt htarget hnew
      omega

/-- The loop ends from every target of the section. -/
theorem exists_cnameLoop (seen : List Text) (current : Name)
    (htarget : ∃ r ∈ cnameRecords records, r.cname? = some current) :
    ∃ turns last, CnameLoop P records rtype seen current turns last := by
  -- Every turn that goes on leaves fewer CNAME targets unseen.
  induction hleft : (unseenCnames P records seen).length using Nat.strong_induction_on
    generalizing seen current with
  | _ left ih =>
      by_cases hseen : P.nameKey current ∈ seen
      · exact ⟨1, .loop, .seen hseen⟩
      · cases hanswered : hasRecord records current rtype with
        | true => exact ⟨1, .answered, .answered hseen hanswered⟩
        | false =>
            cases hnext : cnameTargetAt records current with
            | none => exact ⟨1, .target current, .stop hseen hanswered hnext⟩
            | some next =>
                have hless := length_unseenCnames_lt htarget hseen
                obtain ⟨turns, last, hrest⟩ := ih _ (hleft ▸ hless) (P.nameKey current :: seen) next
                  (mem_cnameRecords_of_target hnext) rfl
                exact ⟨turns + 1, last, .follow hseen hanswered hnext hrest⟩

/-- With enough turns the model's loop ends as the loop does. -/
theorem CnameLoop.followCnames_eq {seen : List Text} {current : Name} {turns : Nat} {last : CnameEnd}
    (h : CnameLoop P records rtype seen current turns last) {limit : Nat} (hlimit : turns ≤ limit) :
    followCnames P records rtype limit seen current = last := by
  induction h generalizing limit with
  | seen hseen =>
      obtain ⟨limit, rfl⟩ := Nat.exists_eq_add_of_le' hlimit
      simp [followCnames, hseen]
  | answered hnew hanswered =>
      obtain ⟨limit, rfl⟩ := Nat.exists_eq_add_of_le' hlimit
      simp [followCnames, hnew, hanswered]
  | stop hnew hanswered hnext =>
      obtain ⟨limit, rfl⟩ := Nat.exists_eq_add_of_le' hlimit
      simp [followCnames, hnew, hanswered, hnext]
  | @follow seen current next turns last hnew hanswered hnext _ ih =>
      obtain ⟨limit, rfl⟩ := Nat.exists_eq_add_of_le' hlimit
      simp only [followCnames, List.contains_iff_mem, hnew, hanswered, hnext, if_false,
        Bool.false_eq_true]
      exact ih (Nat.le_add_left _ _)

end Cnames

/-! ### Judging a response -/

/-- The CNAME loop is entered from this target. -/
structure EntersLoop (name : Name) (rtype : RecordType) (response : Message) (firstTarget : Name) :
    Prop where
  answers : response.answers.isEmpty = false
  unanswered : hasRecord response.answers name rtype = false
  target : cnameTargetAt response.answers name = some firstTarget

/-- What the end of the CNAME loop means. -/
def cnameVerdict (P : Platform) (response : Message) : CnameEnd → Verdict
  | .loop => .done (.error .noProgress)
  | .answered => .done (.ok response)
  | .target current => .redirect (asciiText "cname:" ++ P.nameKey current) current response

/-- How a response is judged, with the turns of the CNAME loop. -/
inductive Judges (P : Platform) (name : Name) (rtype : RecordType) (frame : Frame)
    (response : Message) : Nat → Verdict → Prop
  | direct : (∀ firstTarget, ¬ EntersLoop name rtype response firstTarget) →
      Judges P name rtype frame response 0 (judgeResponse P name rtype frame response)
  | chased {firstTarget : Name} {turns : Nat} {last : CnameEnd} :
      EntersLoop name rtype response firstTarget →
      CnameLoop P response.answers rtype [P.nameKey name] firstTarget turns last →
      Judges P name rtype frame response turns (cnameVerdict P response last)

section Judgement

variable {P : Platform} {name : Name} {rtype : RecordType} {frame : Frame} {response : Message}

theorem EntersLoop.exists_record {firstTarget : Name}
    (h : EntersLoop name rtype response firstTarget) :
    ∃ r ∈ cnameRecords response.answers, r.cname? = some firstTarget :=
  mem_cnameRecords_of_target h.target

theorem Judges.turns_le {turns : Nat} {verdict : Verdict}
    (h : Judges P name rtype frame response turns verdict) :
    turns ≤ (cnameRecords response.answers).length + 1 := by
  cases h with
  | direct => exact Nat.zero_le _
  | chased henters hloop =>
      exact (hloop.turns_le henters.exists_record).trans
        (Nat.succ_le_succ (length_unseenCnames_le _))

/-- The judgement is the model's. -/
theorem Judges.eq {turns : Nat} {verdict : Verdict}
    (h : Judges P name rtype frame response turns verdict) :
    judgeResponse P name rtype frame response = verdict := by
  have hturns := h.turns_le
  cases h with
  | direct => rfl
  | chased henters hloop =>
      have hlimit : turns ≤ response.answers.length + 2 :=
        hturns.trans (Nat.succ_le_succ ((List.length_filter_le _ _).trans (Nat.le_succ _)))
      have hend := hloop.followCnames_eq hlimit
      simp only [judgeResponse, judgeAnswers, henters.answers, henters.unanswered, henters.target,
        hend, Bool.false_eq_true, if_false]
      rename_i last
      cases last <;> rfl

theorem exists_judges (P : Platform) (name : Name) (rtype : RecordType) (frame : Frame)
    (response : Message) :
    ∃ turns, Judges P name rtype frame response turns (judgeResponse P name rtype frame response) := by
  by_cases henters : ∃ firstTarget, EntersLoop name rtype response firstTarget
  · obtain ⟨firstTarget, henters⟩ := henters
    obtain ⟨turns, last, hloop⟩ := @exists_cnameLoop P response.answers rtype [P.nameKey name]
      firstTarget henters.exists_record
    have hjudges : Judges P name rtype frame response turns (cnameVerdict P response last) :=
      .chased henters hloop
    exact ⟨turns, hjudges.eq ▸ hjudges⟩
  · exact ⟨0, .direct fun firstTarget h => henters ⟨firstTarget, h⟩⟩

end Judgement

/-! ### Runs -/

/-- What a step of a frame did. -/
structure StepReport where
  /-- The cached delegation was purged, to start over from the root. -/
  purged : Bool
  cnameTurns : Nat
  cnameRecords : Nat
  /-- The nested resolutions of nameserver addresses. -/
  lookups : Nat
  /-- The nested resolutions of alias targets. -/
  aliases : Nat

/-- A frame with its steps; each asks one set of servers. -/
structure FrameReport where
  depth : Nat
  steps : List StepReport

/-- What a part of a resolution did. -/
structure Trace where
  /-- The steps of the frame it is part of. -/
  steps : List StepReport
  /-- The nested resolutions it started for nameservers. -/
  started : Nat
  /-- The frames it is made of or has started. -/
  frames : List FrameReport

/-- The parts of a resolution: a call, the loop of a frame with the steps that are left, the addresses of one
nameserver and of the nameservers that are left. -/
inductive Task
  | call (depth : Nat) (name : Name) (rtype : RecordType) (s : RState)
  | loop (depth : Nat) (name : Name) (rtype : RecordType) (left : Nat) (frame : Frame) (s : RState)
  | lookup (depth : Nat) (nsName : Name) (s : RState)
  | lookups (depth : Nat) (nsNames : List Name) (ips : List IpAddr) (s : RState)

/-- What a part results in. -/
def Task.Result : Task → Type
  | .call _ _ _ _ => Except RecursorError Message × RState
  | .loop _ _ _ _ _ _ => Except RecursorError Message × RState
  | .lookup _ _ _ => List IpAddr × RState
  | .lookups _ _ _ _ => List IpAddr × RState

/-- A step that did not start anything. -/
def StepReport.plain (turns records : Nat) : StepReport := ⟨false, turns, records, 0, 0⟩

/-- The answer to an alias target merged with the hop to it. -/
def mergeResult (name : Name) (rtype : RecordType) (hop : Message) :
    Except RecursorError Message → Except RecursorError Message
  | .ok resp => .ok (mergeRedirectionResponse name rtype hop resp)
  | .error e => .error e

/-- The safe addresses of an answer; a failure gives none. -/
def answerAddresses (rtype : RecordType) : Except RecursorError Message → List IpAddr
  | .ok resp =>
      filterSafeIps ((resp.answers.filter fun r => decide (r.recordType = rtype)).filterMap addressOf)
  | .error _ => []

/-- The glue of a referral. -/
def referralGlue (frame : Frame) (zone : Name) (nsNames : List Name) (response : Message) :
    List IpAddr :=
  filterSafeIps ((glueRecords frame.bailiwick zone nsNames response).filterMap addressOf)

/-- The key under which a nameserver is visited. -/
def nameserverKey (env : REnv) (nsName : Name) : Text :=
  asciiText "ns:resolve:" ++ env.platform.nameKey nsName

/-- The parts of a resolution as they call each other. -/
inductive Runs (env : REnv) : (task : Task) → Trace → task.Result → Prop
  /-- `depth > MAX_DEPTH` is checked first. -/
  | tooDeep {depth : Nat} {name : Name} {rtype : RecordType} {s : RState} :
      maxDepth < depth →
      Runs env (.call depth name rtype s) ⟨[], 0, [⟨depth, []⟩]⟩ (Except.error .depthExceeded, s)
  | frame {depth : Nat} {name : Name} {rtype : RecordType} {s s₁ : RState} {frame : Frame}
      {trace : Trace} {result : Except RecursorError Message × RState} :
      depth ≤ maxDepth → startFrame env name rtype s = (frame, s₁) →
      Runs env (.loop depth name rtype maxSteps frame s₁) trace result →
      Runs env (.call depth name rtype s) ⟨[], 0, ⟨depth, trace.steps⟩ :: trace.frames⟩ result
  | stepLimit {depth : Nat} {name : Name} {rtype : RecordType} {frame : Frame} {s : RState} :
      Runs env (.loop depth name rtype 0 frame s) ⟨[], 0, []⟩ (Except.error .stepLimitExceeded, s)
  /-- No cached server answers: purge, and start over from the root. -/
  | purge {depth left : Nat} {name : Name} {rtype : RecordType} {frame : Frame} {s s₁ : RState}
      {trace : Trace} {result : Except RecursorError Message × RState} :
      queryServersWithFallback env frame.currentServers name rtype s = (none, s₁) →
      frame.usingCached = true →
      Runs env (.loop depth name rtype left .fromRoot (purgeDelegationFor env name rtype s₁)) trace
        result →
      Runs env (.loop depth name rtype (left + 1) frame s)
        ⟨⟨true, 0, 0, 0, 0⟩ :: trace.steps, 0, trace.frames⟩ result
  | failed {depth left : Nat} {name : Name} {rtype : RecordType} {frame : Frame} {s s₁ : RState} :
      queryServersWithFallback env frame.currentServers name rtype s = (none, s₁) →
      frame.usingCached = false →
      Runs env (.loop depth name rtype (left + 1) frame s) ⟨[.plain 0 0], 0, []⟩
        (Except.error .allNameserversFailed, s₁)
  | done {depth left turns : Nat} {name : Name} {rtype : RecordType} {frame : Frame}
      {s s₁ : RState} {response : Message} {result : Except RecursorError Message} :
      queryServersWithFallback env frame.currentServers name rtype s = (some response, s₁) →
      Judges env.platform name rtype frame response turns (.done result) →
      Runs env (.loop depth name rtype (left + 1) frame s)
        ⟨[.plain turns (cnameRecords response.answers).length], 0, []⟩ (result, s₁)
  /-- The target of an alias has been visited. -/
  | visitedTarget {depth left turns : Nat} {name target : Name} {rtype : RecordType} {frame : Frame}
      {s s₁ : RState} {response hop : Message} {key : Text} :
      queryServersWithFallback env frame.currentServers name rtype s = (some response, s₁) →
      Judges env.platform name rtype frame response turns (.redirect key target hop) →
      key ∈ s₁.visited →
      Runs env (.loop depth name rtype (left + 1) frame s)
        ⟨[.plain turns (cnameRecords response.answers).length], 0, []⟩ (Except.error .noProgress, s₁)
  | redirected {depth left turns : Nat} {name target : Name} {rtype : RecordType} {frame : Frame}
      {s s₁ s₂ : RState} {response hop : Message} {key : Text} {trace : Trace}
      {result : Except RecursorError Message} :
      queryServersWithFallback env frame.currentServers name rtype s = (some response, s₁) →
      Judges env.platform name rtype frame response turns (.redirect key target hop) →
      key ∉ s₁.visited →
      Runs env (.call (depth + 1) target rtype (s₁.visit key)) trace (result, s₂) →
      Runs env (.loop depth name rtype (left + 1) frame s)
        ⟨[⟨false, turns, (cnameRecords response.answers).length, 0, 1⟩], 0, trace.frames⟩
        (mergeResult name rtype hop result, s₂)
  | glue {depth left turns : Nat} {name zone : Name} {rtype : RecordType} {frame : Frame}
      {s s₁ : RState} {response : Message} {nsNames : List Name} {trace : Trace}
      {result : Except RecursorError Message × RState} :
      queryServersWithFallback env frame.currentServers name rtype s = (some response, s₁) →
      Judges env.platform name rtype frame response turns (.referral zone nsNames) →
      referralGlue frame zone nsNames response ≠ [] →
      Runs env (.loop depth name rtype left
        (.fromReferral zone (referralGlue frame zone nsNames response))
        (writeDelegation env ⟨frame, s.delegationCache, response, zone, nsNames,
          referralGlue frame zone nsNames response⟩ s₁)) trace result →
      Runs env (.loop depth name rtype (left + 1) frame s)
        ⟨.plain turns (cnameRecords response.answers).length :: trace.steps, 0, trace.frames⟩ result
  /-- Without glue the addresses of the first four nameservers are resolved. -/
  | resolved {depth left turns : Nat} {name zone : Name} {rtype : RecordType} {frame : Frame}
      {s s₁ s₂ : RState} {response : Message} {nsNames : List Name} {ips : List IpAddr}
      {inner trace : Trace} {result : Except RecursorError Message × RState} :
      queryServersWithFallback env frame.currentServers name rtype s = (some response, s₁) →
      Judges env.platform name rtype frame response turns (.referral zone nsNames) →
      referralGlue frame zone nsNames response = [] →
      Runs env (.lookups depth (nsNames.take 4) [] s₁) inner (ips, s₂) →
      ips.eraseDups ≠ [] →
      Runs env (.loop depth name rtype left (.fromReferral zone ips.eraseDups)
        (writeDelegation env ⟨frame, s.delegationCache, response, zone, nsNames, ips.eraseDups⟩
          s₂)) trace result →
      Runs env (.loop depth name rtype (left + 1) frame s)
        ⟨⟨false, turns, (cnameRecords response.answers).length, inner.started, 0⟩ :: trace.steps, 0,
          inner.frames ++ trace.frames⟩ result
  | unresolved {depth left turns : Nat} {name zone : Name} {rtype : RecordType} {frame : Frame}
      {s s₁ s₂ : RState} {response : Message} {nsNames : List Name} {ips : List IpAddr}
      {inner : Trace} :
      queryServersWithFallback env frame.currentServers name rtype s = (some response, s₁) →
      Judges env.platform name rtype frame response turns (.referral zone nsNames) →
      referralGlue frame zone nsNames response = [] →
      Runs env (.lookups depth (nsNames.take 4) [] s₁) inner (ips, s₂) →
      ips.eraseDups = [] →
      Runs env (.loop depth name rtype (left + 1) frame s)
        ⟨[⟨false, turns, (cnameRecords response.answers).length, inner.started, 0⟩], 0, inner.frames⟩
        (Except.error .glueResolutionFailed, s₂)
  | visitedNameserver {depth : Nat} {nsName : Name} {s : RState} :
      nameserverKey env nsName ∈ s.visited →
      Runs env (.lookup depth nsName s) ⟨[], 0, []⟩ ([], s)
  /-- One nested call for the IPv4 addresses of a nameserver and one for the IPv6 addresses. -/
  | nameserver {depth : Nat} {nsName : Name} {s s₁ s₂ : RState} {trace₁ trace₂ : Trace}
      {v4 v6 : Except RecursorError Message} :
      nameserverKey env nsName ∉ s.visited →
      Runs env (.call (depth + 1) nsName .A (s.visit (nameserverKey env nsName))) trace₁ (v4, s₁) →
      Runs env (.call (depth + 1) nsName .AAAA s₁) trace₂ (v6, s₂) →
      Runs env (.lookup depth nsName s) ⟨[], 2, trace₁.frames ++ trace₂.frames⟩
        (answerAddresses .A v4 ++ answerAddresses .AAAA v6, s₂)
  | noNameservers {depth : Nat} {ips : List IpAddr} {s : RState} :
      Runs env (.lookups depth [] ips s) ⟨[], 0, []⟩ (ips, s)
  | enough {depth : Nat} {nsName : Name} {rest : List Name} {ips more : List IpAddr}
      {s s₁ : RState} {trace : Trace} :
      Runs env (.lookup depth nsName s) trace (more, s₁) → 4 ≤ (ips ++ more).length →
      Runs env (.lookups depth (nsName :: rest) ips s) ⟨[], trace.started, trace.frames⟩
        (ips ++ more, s₁)
  | more {depth : Nat} {nsName : Name} {rest : List Name} {ips more : List IpAddr}
      {s s₁ : RState} {trace₁ trace₂ : Trace} {result : List IpAddr × RState} :
      Runs env (.lookup depth nsName s) trace₁ (more, s₁) → ¬ 4 ≤ (ips ++ more).length →
      Runs env (.lookups depth rest (ips ++ more) s₁) trace₂ result →
      Runs env (.lookups depth (nsName :: rest) ips s)
        ⟨[], trace₁.started + trace₂.started, trace₁.frames ++ trace₂.frames⟩ result

/-- The same part in the model, with the levels of nesting that are left at its depth. -/
def Task.eval (env : REnv) : (task : Task) → task.Result
  | .call depth name rtype s => resolveInternal env (maxDepth + 1 - depth) name rtype s
  | .loop depth name rtype left frame s =>
      turns env (resolveInternal env (maxDepth - depth)) name rtype left frame s
  | .lookup depth nsName s =>
      resolveNameserver env (resolveInternal env (maxDepth - depth)) nsName s
  | .lookups depth nsNames ips s =>
      resolveNameservers env (resolveInternal env (maxDepth - depth)) nsNames ips s

section Model

variable {env : REnv}

theorem resolveAddresses_eq {recurse : Resolve} {nsName : Name} {rtype : RecordType} {s s₁ : RState}
    {result : Except RecursorError Message} (h : recurse nsName rtype s = (result, s₁)) :
    resolveAddresses recurse nsName rtype s = (answerAddresses rtype result, s₁) := by
  simp only [resolveAddresses, h]
  cases result <;> rfl

theorem takeRedirect_eq {recurse : Resolve} {name target : Name} {rtype : RecordType} {key : Text}
    {hop : Message} {s s₁ : RState} {result : Except RecursorError Message} (hnew : key ∉ s.visited)
    (h : recurse target rtype (s.visit key) = (result, s₁)) :
    takeRedirect recurse name rtype key target hop s = (mergeResult name rtype hop result, s₁) := by
  simp only [takeRedirect, List.contains_iff_mem, hnew, if_false, h]
  cases result <;> rfl

theorem referralServers_glue {recurse : Resolve} {frame : Frame} {zone : Name} {nsNames : List Name}
    {response : Message} {s : RState} (h : referralGlue frame zone nsNames response ≠ []) :
    referralServers env recurse frame.bailiwick zone nsNames response s =
      (referralGlue frame zone nsNames response, s) := by
  have hglue : (referralGlue frame zone nsNames response).isEmpty = false :=
    List.isEmpty_eq_false_iff.mpr h
  rw [referralServers, ← referralGlue]
  simp only [hglue, Bool.false_eq_true, if_false]

theorem referralServers_resolved {recurse : Resolve} {frame : Frame} {zone : Name}
    {nsNames : List Name} {response : Message} {s s₁ : RState} {ips : List IpAddr}
    (h : referralGlue frame zone nsNames response = [])
    (hips : resolveNameservers env recurse (nsNames.take 4) [] s = (ips, s₁)) :
    referralServers env recurse frame.bailiwick zone nsNames response s = (ips.eraseDups, s₁) := by
  rw [referralServers, ← referralGlue]
  simp only [h, List.isEmpty_nil, if_true, hips]

/-- A run has the result of the model. -/
theorem Runs.result_eq {task : Task} {trace : Trace} {result : task.Result}
    (h : Runs env task trace result) : task.eval env = result := by
  induction h with
  | @tooDeep depth name rtype s hdeep =>
      have hlevels : maxDepth + 1 - depth = 0 := Nat.sub_eq_zero_of_le hdeep
      simp only [Task.eval, hlevels, resolveInternal]
      rfl
  | @frame depth name rtype s s₁ frame trace result hdepth hstart _ ih =>
      have hlevels : maxDepth + 1 - depth = maxDepth - depth + 1 := Nat.succ_sub hdepth
      simp only [Task.eval, hlevels, resolveInternal, hstart] at ih ⊢
      exact ih
  | stepLimit => rfl
  | purge hquery hcached _ ih =>
      simp only [Task.eval, turns, turn, hquery, hcached, if_true] at ih ⊢
      exact ih
  | failed hquery hcached =>
      simp only [Task.eval, turns, turn, hquery, hcached, Bool.false_eq_true, if_false]
      rfl
  | done hquery hjudges =>
      simp only [Task.eval, turns, turn, hquery, hjudges.eq]
      rfl
  | visitedTarget hquery hjudges hvisited =>
      simp only [Task.eval, turns, turn, hquery, hjudges.eq, takeRedirect, List.contains_iff_mem,
        hvisited, if_true]
      rfl
  | redirected hquery hjudges hnew _ ih =>
      simp only [Task.eval, Nat.add_sub_add_right] at ih
      simp only [Task.eval, turns, turn, hquery, hjudges.eq, takeRedirect_eq hnew ih]
      rfl
  | glue hquery hjudges hglue _ ih =>
      have hnonempty := List.isEmpty_eq_false_iff.mpr hglue
      simp only [Task.eval] at ih ⊢
      simp only [turns, turn, hquery, hjudges.eq, takeReferral, referralServers_glue hglue, hnonempty,
        Bool.false_eq_true, if_false]
      exact ih
  | resolved hquery hjudges hglue _ hips _ ihLookups ih =>
      have hnonempty := List.isEmpty_eq_false_iff.mpr hips
      simp only [Task.eval] at ih ihLookups ⊢
      simp only [turns, turn, hquery, hjudges.eq, takeReferral,
        referralServers_resolved hglue ihLookups, hnonempty, Bool.false_eq_true, if_false]
      exact ih
  | unresolved hquery hjudges hglue _ hips ihLookups =>
      simp only [Task.eval] at ihLookups ⊢
      simp only [turns, turn, hquery, hjudges.eq, takeReferral,
        referralServers_resolved hglue ihLookups, hips, List.isEmpty_nil, if_true]
      rfl
  | visitedNameserver hvisited =>
      rw [nameserverKey] at hvisited
      simp only [Task.eval, resolveNameserver, List.contains_iff_mem, hvisited, if_true]
      rfl
  | nameserver hnew _ _ ihV4 ihV6 =>
      rw [nameserverKey] at hnew ihV4
      simp only [Task.eval, Nat.add_sub_add_right] at ihV4 ihV6
      simp only [Task.eval, resolveNameserver, List.contains_iff_mem, hnew, if_false,
        resolveAddresses_eq ihV4, resolveAddresses_eq ihV6]
      rfl
  | noNameservers => rfl
  | enough _ henough ih =>
      simp only [Task.eval] at ih ⊢
      simp only [resolveNameservers, ih, henough, if_true]
      rfl
  | more _ henough _ ihFirst ih =>
      simp only [Task.eval] at ihFirst ih ⊢
      simp only [resolveNameservers, ihFirst, henough, if_false]
      exact ih

end Model

/-! ### What every frame keeps to -/

/-- At most eight nested resolutions for nameservers or one for an alias, and at most one turn of the CNAME
loop more than there are CNAME records. -/
structure StepReport.Bounded (step : StepReport) : Prop where
  cnames : step.cnameTurns ≤ step.cnameRecords + 1
  nested : (step.lookups ≤ 8 ∧ step.aliases = 0) ∨ (step.lookups = 0 ∧ step.aliases ≤ 1)

/-- The steps that purged the delegation cache. -/
def purges (steps : List StepReport) : List StepReport := steps.filter StepReport.purged

/-- The bounds of one frame; `deepest` bounds its depth. -/
structure FrameReport.Bounded (deepest : Nat) (frame : FrameReport) : Prop where
  depth : frame.depth ≤ deepest
  steps : frame.steps.length ≤ maxSteps
  bounded : ∀ step ∈ frame.steps, step.Bounded
  purged : (purges frame.steps).length ≤ 1

/-- The bounds of the steps that are left to a loop. -/
structure LoopBounded (left : Nat) (usingCached : Bool) (steps : List StepReport) : Prop where
  length : steps.length ≤ left
  bounded : ∀ step ∈ steps, step.Bounded
  purged : (purges steps).length ≤ if usingCached then 1 else 0

/-- Frames down to this depth or, above it, down to the depth that is too deep. -/
def FramesBounded (depth : Nat) (frames : List FrameReport) : Prop :=
  ∀ frame ∈ frames, frame.Bounded (max depth (maxDepth + 1))

/-- The bounds of a part of a resolution. -/
def Task.Bounded (trace : Trace) : Task → Prop
  | .call depth _ _ _ => FramesBounded depth trace.frames
  | .loop depth _ _ left frame _ =>
      LoopBounded left frame.usingCached trace.steps ∧ FramesBounded (depth + 1) trace.frames
  | .lookup depth _ _ => trace.started ≤ 2 ∧ FramesBounded (depth + 1) trace.frames
  | .lookups depth nsNames _ _ =>
      trace.started ≤ 2 * nsNames.length ∧ FramesBounded (depth + 1) trace.frames

section Bounds

variable {env : REnv}

theorem StepReport.plain_bounded {turns records : Nat} (h : turns ≤ records + 1) :
    (StepReport.plain turns records).Bounded :=
  ⟨h, Or.inl ⟨Nat.zero_le _, rfl⟩⟩

/-- The first four nameservers take at most eight nested resolutions. -/
theorem started_le_eight {started : Nat} {nsNames : List Name}
    (h : started ≤ 2 * (nsNames.take 4).length) : started ≤ 8 := by
  have hfour := List.length_take_le 4 nsNames
  omega

theorem LoopBounded.nil (left : Nat) (usingCached : Bool) : LoopBounded left usingCached [] :=
  ⟨Nat.zero_le _, fun _ hstep => absurd hstep List.not_mem_nil, Nat.zero_le _⟩

/-- A step that keeps to its bounds and does not purge; the loop goes on with servers that are not cached. -/
theorem LoopBounded.step {left : Nat} {usingCached : Bool} {step : StepReport}
    {steps : List StepReport} (hstep : step.Bounded) (hkept : step.purged = false)
    (h : LoopBounded left false steps) : LoopBounded (left + 1) usingCached (step :: steps) where
  length := Nat.succ_le_succ h.length
  bounded := List.forall_mem_cons.mpr ⟨hstep, h.bounded⟩
  purged := by
    rw [purges, List.filter_cons_of_neg (by simp [hkept])]
    exact h.purged.trans (Nat.zero_le _)

/-- A purge is possible with cached servers only, and the loop goes on with the root servers. -/
theorem LoopBounded.purge {left : Nat} {steps : List StepReport} (h : LoopBounded left false steps) :
    LoopBounded (left + 1) true (⟨true, 0, 0, 0, 0⟩ :: steps) where
  length := Nat.succ_le_succ h.length
  bounded := List.forall_mem_cons.mpr ⟨⟨Nat.zero_le _, Or.inl ⟨Nat.zero_le _, rfl⟩⟩, h.bounded⟩
  purged := Nat.succ_le_succ h.purged

theorem FramesBounded.nil (depth : Nat) : FramesBounded depth [] :=
  fun _ hframe => absurd hframe List.not_mem_nil

theorem FramesBounded.append {depth : Nat} {frames frames' : List FrameReport}
    (h : FramesBounded depth frames) (h' : FramesBounded depth frames') :
    FramesBounded depth (frames ++ frames') :=
  List.forall_mem_append.mpr ⟨h, h'⟩

/-- Every part of a run keeps to its bounds. -/
theorem Runs.bounded {task : Task} {trace : Trace} {result : task.Result}
    (h : Runs env task trace result) : task.Bounded trace := by
  induction h with
  | tooDeep =>
      refine List.forall_mem_singleton.mpr ⟨le_max_left _ _, Nat.zero_le _, ?_, Nat.zero_le _⟩
      exact fun _ hstep => absurd hstep List.not_mem_nil
  | @frame depth _ _ _ _ frame _ _ hdepth _ _ ih =>
      obtain ⟨hloop, hframes⟩ := ih
      -- A frame that runs is not too deep, so its nested calls are at most one level too deep.
      have hdeepest : max (depth + 1) (maxDepth + 1) ≤ max depth (maxDepth + 1) := by omega
      refine List.forall_mem_cons.mpr ⟨⟨le_max_left _ _, hloop.length, hloop.bounded, ?_⟩, ?_⟩
      · refine hloop.purged.trans ?_
        split <;> decide
      · intro inner hinner
        have hbounded := hframes inner hinner
        exact ⟨hbounded.depth.trans hdeepest, hbounded.steps, hbounded.bounded, hbounded.purged⟩
  | stepLimit => exact ⟨.nil _ _, .nil _⟩
  | purge _ hcached _ ih =>
      obtain ⟨hloop, hframes⟩ := ih
      refine ⟨?_, hframes⟩
      rw [hcached]
      exact hloop.purge
  | failed => exact ⟨.step (StepReport.plain_bounded (Nat.zero_le _)) rfl (.nil _ _), .nil _⟩
  | done _ hjudges =>
      exact ⟨.step (StepReport.plain_bounded hjudges.turns_le) rfl (.nil _ _), .nil _⟩
  | visitedTarget _ hjudges =>
      exact ⟨.step (StepReport.plain_bounded hjudges.turns_le) rfl (.nil _ _), .nil _⟩
  | redirected _ hjudges _ _ ih =>
      exact ⟨.step ⟨hjudges.turns_le, Or.inr ⟨rfl, Nat.le_refl 1⟩⟩ rfl (.nil _ _), ih⟩
  | glue _ hjudges _ _ ih =>
      exact ⟨.step (StepReport.plain_bounded hjudges.turns_le) rfl ih.1, ih.2⟩
  | resolved _ hjudges _ _ _ _ ihLookups ih =>
      have hstarted := started_le_eight ihLookups.1
      exact ⟨.step ⟨hjudges.turns_le, Or.inl ⟨hstarted, rfl⟩⟩ rfl ih.1, ihLookups.2.append ih.2⟩
  | unresolved _ hjudges _ _ _ ihLookups =>
      have hstarted := started_le_eight ihLookups.1
      exact ⟨.step ⟨hjudges.turns_le, Or.inl ⟨hstarted, rfl⟩⟩ rfl (.nil _ _), ihLookups.2⟩
  | visitedNameserver => exact ⟨Nat.zero_le _, .nil _⟩
  | nameserver _ _ _ ihV4 ihV6 => exact ⟨Nat.le_refl 2, ihV4.append ihV6⟩
  | noNameservers => exact ⟨Nat.zero_le _, .nil _⟩
  | enough _ _ ih =>
      refine ⟨ih.1.trans ?_, ih.2⟩
      rw [List.length_cons]
      omega
  | more _ _ _ ihFirst ih =>
      refine ⟨?_, ihFirst.2.append ih.2⟩
      have hfirst := ihFirst.1
      have hrest := ih.1
      simp only [List.length_cons]
      omega

end Bounds

/-! ### Every call returns -/

section Returns

variable {env : REnv} {depth : Nat}

/-- Every call at the next depth has a run. -/
abbrev CallsReturn (env : REnv) (depth : Nat) : Prop :=
  ∀ name rtype s, ∃ trace result, Runs env (.call depth name rtype s) trace result

theorem lookup_returns (hcalls : CallsReturn env (depth + 1)) (nsName : Name) (s : RState) :
    ∃ trace result, Runs env (.lookup depth nsName s) trace result := by
  by_cases hvisited : nameserverKey env nsName ∈ s.visited
  · exact ⟨_, _, .visitedNameserver hvisited⟩
  · obtain ⟨_, ⟨v4, s₁⟩, hv4⟩ := hcalls nsName .A (s.visit (nameserverKey env nsName))
    obtain ⟨_, ⟨v6, s₂⟩, hv6⟩ := hcalls nsName .AAAA s₁
    exact ⟨_, _, .nameserver hvisited hv4 hv6⟩

theorem lookups_return (hcalls : CallsReturn env (depth + 1)) (nsNames : List Name)
    (ips : List IpAddr) (s : RState) :
    ∃ trace result, Runs env (.lookups depth nsNames ips s) trace result := by
  induction nsNames generalizing ips s with
  | nil => exact ⟨_, _, .noNameservers⟩
  | cons nsName rest ih =>
      obtain ⟨_, ⟨more, s₁⟩, hfirst⟩ := lookup_returns hcalls nsName s
      by_cases henough : 4 ≤ (ips ++ more).length
      · exact ⟨_, _, .enough hfirst henough⟩
      · obtain ⟨_, _, hrest⟩ := ih (ips ++ more) s₁
        exact ⟨_, _, .more hfirst henough hrest⟩

theorem loop_returns (hcalls : CallsReturn env (depth + 1)) (name : Name) (rtype : RecordType)
    (left : Nat) (frame : Frame) (s : RState) :
    ∃ trace result, Runs env (.loop depth name rtype left frame s) trace result := by
  induction left generalizing frame s with
  | zero => exact ⟨_, _, .stepLimit⟩
  | succ left ih =>
      rcases hquery : queryServersWithFallback env frame.currentServers name rtype s with
        ⟨_ | response, s₁⟩
      · cases hcached : frame.usingCached with
        | true =>
            obtain ⟨_, _, hrest⟩ := ih .fromRoot (purgeDelegationFor env name rtype s₁)
            exact ⟨_, _, .purge hquery hcached hrest⟩
        | false => exact ⟨_, _, .failed hquery hcached⟩
      · obtain ⟨turns, hjudges⟩ := exists_judges env.platform name rtype frame response
        cases hverdict : judgeResponse env.platform name rtype frame response with
        | done result =>
            rw [hverdict] at hjudges
            exact ⟨_, _, .done hquery hjudges⟩
        | redirect key target hop =>
            rw [hverdict] at hjudges
            by_cases hvisited : key ∈ s₁.visited
            · exact ⟨_, _, .visitedTarget hquery hjudges hvisited⟩
            · obtain ⟨_, ⟨result, s₂⟩, hcall⟩ := hcalls target rtype (s₁.visit key)
              exact ⟨_, _, .redirected hquery hjudges hvisited hcall⟩
        | referral zone nsNames =>
            rw [hverdict] at hjudges
            by_cases hglue : referralGlue frame zone nsNames response = []
            · obtain ⟨_, ⟨ips, s₂⟩, hlookups⟩ := lookups_return hcalls (nsNames.take 4) [] s₁
              by_cases hips : ips.eraseDups = []
              · exact ⟨_, _, .unresolved hquery hjudges hglue hlookups hips⟩
              · obtain ⟨_, _, hrest⟩ := ih (.fromReferral zone ips.eraseDups)
                  (writeDelegation env ⟨frame, s.delegationCache, response, zone, nsNames,
                    ips.eraseDups⟩ s₂)
                exact ⟨_, _, .resolved hquery hjudges hglue hlookups hips hrest⟩
            · obtain ⟨_, _, hrest⟩ := ih (.fromReferral zone
                  (referralGlue frame zone nsNames response))
                (writeDelegation env ⟨frame, s.delegationCache, response, zone, nsNames,
                  referralGlue frame zone nsNames response⟩ s₁)
              exact ⟨_, _, .glue hquery hjudges hglue hrest⟩

/-- The deeper a call, the fewer levels are below it, and the calls that are too deep return at once. -/
theorem calls_return (levels : Nat) (hlevels : maxDepth + 1 ≤ depth + levels) :
    CallsReturn env depth := by
  -- The induction is on the levels up to the depth that is too deep, not on the state.
  induction levels generalizing depth with
  | zero => exact fun name rtype s => ⟨_, _, .tooDeep hlevels⟩
  | succ levels ih =>
      intro name rtype s
      by_cases hdepth : depth ≤ maxDepth
      · have hcalls : CallsReturn env (depth + 1) := ih (by omega)
        -- The loop runs down its steps; whatever it calls returns one level deeper.
        obtain ⟨_, _, hloop⟩ := loop_returns hcalls name rtype maxSteps
          (startFrame env name rtype s).1 (startFrame env name rtype s).2
        exact ⟨_, _, .frame hdepth rfl hloop⟩
      · exact ⟨_, _, .tooDeep (Nat.lt_of_not_le hdepth)⟩

end Returns

/-- Every call of `resolve_internal` returns, whatever the servers answer, and returns what the model
computes; its frames are at most `MAX_DEPTH + 1` deep, and each keeps to its bounds. -/
theorem resolveInternal_returns (env : REnv) (name : Name) (rtype : RecordType) (s : RState) :
    (∃ trace result, Runs env (.call 0 name rtype s) trace result) ∧
      ∀ trace result, Runs env (.call 0 name rtype s) trace result →
        result = resolveInternal env (maxDepth + 1) name rtype s ∧
          ∀ frame ∈ trace.frames, frame.Bounded (maxDepth + 1) :=
  ⟨calls_return (maxDepth + 1) (Nat.le_add_left _ _) name rtype s,
    fun _ _ hrun => ⟨hrun.result_eq.symm, hrun.bounded⟩⟩

end Recursor
end UnifiedDns
