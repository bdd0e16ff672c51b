import UnifiedDns.Recursor.DelegationCache
import UnifiedDns.Recursor.World

/-!
# What honest servers make the resolver say

Whatever is asked, in whatever order: an answer the resolver comes to is the answer of the name space.

* `HonestEnv` — the servers of a zone reply as its servers do, and servers that are gone do not reply.
* `CacheHonest` — the delegation cache holds servers of the zones it names, or servers that are gone.
* `Route` — the aliases a message follows, each one an alias of the name space.
* `judgeResponse_true`, `turn_true`, `resolveInternal_true` — one reply, one turn, the nested calls.
* `HonestRun` — the states any questions lead to, each over honest servers.
* `honest_answers` — in every run, every answer is right.
-/

namespace UnifiedDns
namespace Recursor

open Dnssec (cnameTargetAt)

/-- The servers reply as the servers of the world do, each time as they like. -/
structure HonestEnv (W : World) (env : REnv) : Prop where
  answers : ∀ {z : Path} {ips : List IpAddr}, W.Authorities z ips →
    ∀ (tick : Nat) (name : Name) (rtype : RecordType), z <+: questionPath name.path rtype →
      ∃ m, env.reply tick ips name rtype = some m ∧ W.HonestReply z name rtype m
  silent : ∀ {ips : List IpAddr}, W.Silent ips → ∀ (tick : Nat) (name : Name) (rtype : RecordType),
    env.reply tick ips name rtype = none

/-- What is cached for a zone are servers of the zone, or servers that are gone. -/
def CacheHonest (W : World) (P : Platform) (cache : TextMap DelegationEntry) : Prop :=
  ∀ (zone : Name) (entry : DelegationEntry), cache (P.nameKey zone) = some entry →
    W.Authorities zone.path entry.servers ∨ W.Silent entry.servers

/-- An answer to the question, whichever way its aliases go. -/
def World.TrueAnswer (W : World) (rtype : RecordType) (p : Path) (m : Message) : Prop :=
  ∃ targets, W.Leads rtype p targets ∧ W.Answered rtype p targets m

/-- A call that brings an answer brings a true one, and leaves a good cache. -/
def TrueResult (W : World) (P : Platform) (name : Name) (rtype : RecordType)
    (result : Except RecursorError Message × RState) : Prop :=
  (∀ m, result.1 = .ok m → W.TrueAnswer rtype name.path m) ∧ CacheHonest W P result.2.delegationCache

/-- The nested calls bring true answers. -/
def NestedTrue (W : World) (P : Platform) (recurse : Resolve) : Prop :=
  ∀ name rtype s, CacheHonest W P s.delegationCache → TrueResult W P name rtype (recurse name rtype s)

section Merge

variable {W : World}

/-- What is pushed is there afterwards, itself or a record equal to it. -/
theorem gives_foldl_pushNew (new records : List Record) {r : Record} (h : r ∈ new ∨ r ∈ records) :
    World.Gives (new.foldl pushNew records) r.name.path r.data := by
  induction new generalizing records r with
  | nil => exact ⟨r, h.resolve_left List.not_mem_nil, rfl, rfl⟩
  | cons rec rest ih =>
      rw [List.foldl_cons]
      have hrecords : ∀ r ∈ records, r ∈ pushNew records rec := by
        intro r hr
        unfold pushNew
        split
        · exact hr
        · exact List.mem_append_left _ hr
      rcases h with hnew | hold
      · rcases List.mem_cons.mp hnew with rfl | hrest
        · cases hdup : records.any (· == r) with
          | false =>
              refine ih _ (Or.inr ?_)
              rw [pushNew, if_neg (by simp [hdup])]
              exact List.mem_append_right _ List.mem_cons_self
          | true =>
              obtain ⟨r', hr', hsame⟩ := List.any_eq_true.mp hdup
              have hparts := Bool.and_eq_true_iff.mp hsame
              have hname := Name.beq_iff_path.mp (Bool.and_eq_true_iff.mp hparts.1).1
              obtain ⟨r'', hmem, hname', hfolded⟩ := ih _ (Or.inr (hrecords r' hr'))
              exact ⟨r'', hmem, hname'.trans hname,
                hfolded.trans (RData.folded_of_beq hparts.2)⟩
        · exact ih _ (Or.inl hrest)
      · exact ih _ (Or.inr (hrecords r hold))

/-- The answer to the target of an alias, merged with the reply that led there, answers the question. -/
theorem World.Answered.merge {rtype : RecordType} {name stop : Name} {targets rest : List Path}
    {hop m : Message} (h : W.Answered rtype stop.path rest m) (hheld : W.Held hop.answers)
    (hreaches : Reaches hop.answers name.path targets stop.path rest) :
    W.Answered rtype name.path targets (mergeRedirectionResponse name rtype hop m) := by
  have hgives : ∀ records : List Record, (∀ r ∈ records, r ∈ m.answers ∨ r ∈ hop.answers) →
      ∀ p data, World.Gives records p data →
        World.Gives (mergeRedirectionResponse name rtype hop m).answers p data := by
    rintro records hmem p data ⟨r, hr, rfl, hfolded⟩
    obtain ⟨r', hr', hname, hfolded'⟩ := gives_foldl_pushNew m.answers hop.answers (hmem r hr)
    exact ⟨r', hr', hname, hfolded'.trans hfolded⟩
  have hlinks : ∀ records : List Record, (∀ r ∈ records, r ∈ m.answers ∨ r ∈ hop.answers) →
      ∀ p q, World.Links records p q →
        World.Links (mergeRedirectionResponse name rtype hop m).answers p q := by
    rintro records hmem p q ⟨target, hgive, hpath⟩
    exact ⟨target, hgives records hmem p _ hgive, hpath⟩
  have hlast := hreaches.getLastD_eq
  constructor
  · apply hreaches.isChain (hlinks _ fun r hr => Or.inr hr)
    exact h.aliases.imp (hlinks _ fun r hr => Or.inl hr)
  · obtain ⟨added, hadded, hsub⟩ := foldl_pushNew m.answers hop.answers
    intro r hr
    have hmem : r ∈ m.answers.foldl pushNew hop.answers := hr
    rw [hadded] at hmem
    rcases List.mem_append.mp hmem with hhop | hnew
    · exact hheld r hhop
    · exact h.held r (hsub r hnew)
  · rw [hlast]
    exact fun data hdata => hgives _ (fun r hr => Or.inl hr) _ _ (h.given data hdata)
  · rw [hlast]
    exact h.code
  · rw [hlast]
    intro hempty
    obtain ⟨soa, hsoa, his⟩ := h.soa hempty
    obtain ⟨added, hadded, -⟩ :=
      foldl_pushNew (hop.nameServers.filter isProofRecord) m.nameServers
    refine ⟨soa, ?_, his⟩
    show soa ∈ (hop.nameServers.filter isProofRecord).foldl pushNew m.nameServers
    rw [hadded]
    exact List.mem_append_left _ hsoa

end Merge

section Asking

variable {W : World} {env : REnv} {recurse : Resolve} {name : Name} {rtype : RecordType}
  {frame : Frame} {s : RState} {z : Path}

/-! ### Asking -/

theorem World.HonestReply.code {m : Message} (h : W.HonestReply z name rtype m) :
    m.responseCode = .noError ∨ m.responseCode = .nxDomain := by
  cases h with
  | referral h _ => exact Or.inl h.code
  | records htrue _ _ => exact htrue.code.imp id And.left
  | redirected htrue _ _ => exact htrue.code.imp id And.left
  | denial _ _ _ hcode _ _ =>
      rw [hcode]
      split
      · exact Or.inl rfl
      · exact Or.inr rfl

theorem query_authorities (henv : HonestEnv W env) (hips : W.Authorities z frame.currentServers)
    (hz : z <+: questionPath name.path rtype) :
    ∃ m, queryServersWithFallback env frame.currentServers name rtype s =
      (some m, { s with tick := s.tick + 1 }) ∧ W.HonestReply z name rtype m := by
  obtain ⟨m, hreply, hhonest⟩ := henv.answers hips s.tick name rtype hz
  obtain ⟨ip, hip, -⟩ := hips.live
  have hnonempty : ¬ frame.currentServers.isEmpty = true := by
    rw [List.isEmpty_iff]
    exact List.ne_nil_of_mem hip
  refine ⟨m, ?_, hhonest⟩
  simp only [queryServersWithFallback, if_neg hnonempty, hreply, if_pos hhonest.code]

theorem query_silent (henv : HonestEnv W env) (hips : W.Silent frame.currentServers) :
    ∃ s', queryServersWithFallback env frame.currentServers name rtype s = (none, s') ∧
      s'.delegationCache = s.delegationCache ∧ s'.visited = s.visited := by
  unfold queryServersWithFallback
  split
  · exact ⟨s, rfl, rfl, rfl⟩
  · refine ⟨{ s with tick := s.tick + 1 }, ?_, rfl, rfl⟩
    rw [henv.silent hips]

/-! ### Following a referral -/

/-- The glue of an honest referral are servers of the zone, whatever the loop takes for its bailiwick. -/
theorem glue_refers {m : Message} {zone : Name} {bailiwick : Name} (h : W.Refers z zone.path m)
    (hbailiwick : bailiwick.path <+: z) :
    filterSafeIps ((glueRecords bailiwick zone ((nsRecords m).filterMap nsTarget) m).filterMap
        addressOf) ≠ [] ∧
      W.Authorities zone.path (filterSafeIps ((glueRecords bailiwick zone
        ((nsRecords m).filterMap nsTarget) m).filterMap addressOf)) := by
  have hlisted : ∀ add : Record, (((nsRecords m).filterMap nsTarget).any (· == add.name)) = true ↔
      ∃ r ∈ nsRecords m, ∃ nsdname, nsTarget r = some nsdname ∧ nsdname.path = add.name.path := by
    intro add
    simp only [List.any_eq_true, List.mem_filterMap, Name.beq_iff_path]
    constructor
    · rintro ⟨nsdname, ⟨r, hr, htarget⟩, hpath⟩
      exact ⟨r, hr, nsdname, htarget, hpath⟩
    · rintro ⟨r, hr, nsdname, htarget, hpath⟩
      exact ⟨nsdname, ⟨r, hr, htarget⟩, hpath⟩
  have hglue : ∀ ip, ip ∈ filterSafeIps ((glueRecords bailiwick zone
      ((nsRecords m).filterMap nsTarget) m).filterMap addressOf) → W.serves zone.path ip := by
    intro ip hip
    obtain ⟨hmem, hsafe⟩ := List.mem_filter.mp hip
    obtain ⟨add, hadd, haddress⟩ := List.mem_filterMap.mp hmem
    obtain ⟨hadditional, hcond⟩ := List.mem_filter.mp hadd
    exact h.serves add ip
      ⟨hadditional, (hlisted add).mp (Bool.and_eq_true_iff.mp hcond).1, haddress, hsafe⟩
  obtain ⟨add, ip, ⟨hadditional, hnamed, haddress, hsafe⟩, hlive, hinside⟩ := h.live
  have hip : ip ∈ filterSafeIps ((glueRecords bailiwick zone
      ((nsRecords m).filterMap nsTarget) m).filterMap addressOf) := by
    refine List.mem_filter.mpr ⟨List.mem_filterMap.mpr ⟨add, List.mem_filter.mpr ⟨hadditional, ?_⟩,
      haddress⟩, hsafe⟩
    rw [Bool.and_eq_true, hlisted add]
    refine ⟨hnamed, ?_⟩
    simp only [Bool.or_eq_true, Name.zoneOf_iff]
    rcases hinside with hz | hzone
    · exact Or.inl (Or.inl (Or.inl (Or.inr (hbailiwick.trans hz))))
    · exact Or.inl (Or.inr hzone)
  exact ⟨List.ne_nil_of_mem hip, h.apex, hglue, ip, hip, hlive⟩

/-- An honest referral leads to servers of the zone. -/
theorem referralServers_refers {m : Message} {zone : Name} {bailiwick : Name}
    (h : W.Refers z zone.path m) (hbailiwick : bailiwick.path <+: z) :
    ∃ ips, referralServers env recurse bailiwick zone ((nsRecords m).filterMap nsTarget) m s = (ips, s) ∧
      ips ≠ [] ∧ W.Authorities zone.path ips := by
  obtain ⟨hnonempty, hauthorities⟩ := glue_refers h hbailiwick
  refine ⟨_, ?_, hnonempty, hauthorities⟩
  unfold referralServers
  simp only
  rw [if_neg]
  rw [List.isEmpty_iff]
  exact hnonempty

theorem CacheHonest.insert {P : Platform} (hfaithful : P.NameKeyFaithful)
    {cache : TextMap DelegationEntry} (h : CacheHonest W P cache) {zone : Name}
    {entry : DelegationEntry} (hips : W.Authorities zone.path entry.servers) :
    CacheHonest W P (cache.insert (P.nameKey zone) entry) := by
  intro zone' entry' hentry
  rcases TextMap.insert_eq_some hentry with ⟨hkey, rfl⟩ | hold
  · rw [(hfaithful zone' zone).mp hkey]
    exact Or.inl hips
  · exact h zone' entry' hold

theorem CacheHonest.purge {P : Platform} {cache : TextMap DelegationEntry}
    (h : CacheHonest W P cache) (names : List Name) : CacheHonest W P (purgeFrom P names cache) :=
  fun zone entry hentry => h zone entry (purgeFrom_eq_some hentry)

theorem Frame.fromRoot_at (W : World) : Frame.fromRoot.At W [] where
  authorities := ⟨W.apex_root, W.root_serves, W.root_live⟩
  bailiwick := List.nil_prefix
  progress zone h := by cases h

/-- Cached servers have a zone above the question, or they are gone. -/
theorem CacheHonest.start {P : Platform} {cache : TextMap DelegationEntry} (h : CacheHonest W P cache)
    {zone : Name} {entry : DelegationEntry} (hmem : zone ∈ (delegationStart name rtype).ancestors)
    (hentry : cache (P.nameKey zone) = some entry) :
    (∃ z, (Frame.fromCache zone entry.servers).At W z ∧ z <+: questionPath name.path rtype) ∨
      W.Silent entry.servers := by
  refine (h zone entry hentry).imp (fun hauthorities => ⟨zone.path, ⟨hauthorities, List.nil_prefix, ?_⟩, ?_⟩) id
  · intro zone' h
    cases h
  · rw [← path_delegationStart]
    exact Name.zoneOf_iff.mp (Name.mem_ancestors hmem)

/-- A call starts from the root, from servers of a zone above the question, or from servers that are gone. -/
theorem startFrame_honest (s : RState) (hcache : CacheHonest W env.platform s.delegationCache) :
    (∃ z, (startFrame env name rtype s).1.At W z ∧ z <+: questionPath name.path rtype) ∨
      W.Silent (startFrame env name rtype s).1.currentServers ∧
        (startFrame env name rtype s).1.usingCached = true := by
  rcases startFrame_cases env name rtype s with hroot | ⟨zone, ips, hmem, ⟨entry, hentry, rfl⟩, hcached⟩
  · rw [hroot]
    exact Or.inl ⟨[], Frame.fromRoot_at W, List.nil_prefix⟩
  · rw [hcached]
    exact (hcache.start hmem hentry).imp id fun hsilent => ⟨hsilent, rfl⟩

end Asking

/-! ### One reply -/

/-- Aliases of the name space that a section gives lead from one name to another. -/
inductive Route (W : World) (rtype : RecordType) (records : List Record) : Path → Path → Prop
  | refl (p : Path) : Route W rtype records p p
  | step {p q e : Path} (hhop : W.Hop rtype p q) (hlink : World.Links records p q)
      (hrest : Route W rtype records q e) : Route W rtype records p e

section Reply

variable {W : World} {P : Platform} {name : Name} {rtype : RecordType} {frame : Frame} {m : Message}
  {z : Path}

theorem Route.reaches {records : List Record} {p e : Path} {rest : List Path}
    (h : Route W rtype records p e) (hrest : W.Leads rtype e rest) :
    ∃ targets, W.Leads rtype p targets ∧ Reaches records p targets e rest := by
  induction h with
  | refl p => exact ⟨rest, hrest, .refl p rest⟩
  | step hhop hlink _ ih =>
      obtain ⟨targets, hleads, hreaches⟩ := ih hrest
      exact ⟨_, .hop hhop hleads, .step hlink hreaches⟩

/-- The loop over the aliases of a true section stays on them. -/
theorem followCnames_route (htrue : W.TrueAnswers rtype m) {turns : Nat} {seen : List Text}
    {current : Name} :
    (followCnames P m.answers rtype turns seen current = .answered →
      ∃ r ∈ m.answers, Route W rtype m.answers current.path r.name.path ∧ r.recordType = rtype) ∧
    ∀ stop, followCnames P m.answers rtype turns seen current = .target stop →
      Route W rtype m.answers current.path stop.path := by
  induction turns generalizing seen current with
  | zero => exact ⟨fun h => (by cases h), fun stop h => (by cases h)⟩
  | succ turns ih =>
      simp only [followCnames]
      split
      · exact ⟨fun h => (by cases h), fun stop h => (by cases h)⟩
      · split
        · rename_i hrecord
          obtain ⟨r, hr, hname, htype⟩ := mem_of_hasRecord hrecord
          refine ⟨fun _ => ⟨r, hr, ?_, htype⟩, fun stop h => (by cases h)⟩
          rw [hname]
          exact .refl _
        · rename_i hrecord
          split
          · rename_i next hnext
            obtain ⟨hhop, hlink⟩ := hop_of_target htrue (Bool.eq_false_iff.mpr hrecord) hnext
            obtain ⟨hanswered, htarget⟩ := @ih (P.nameKey current :: seen) next
            constructor
            · intro h
              obtain ⟨r, hr, hroute, htype⟩ := hanswered h
              exact ⟨r, hr, .step hhop hlink hroute, htype⟩
            · exact fun stop h => .step hhop hlink (htarget stop h)
          · refine ⟨fun h => (by cases h), fun stop h => ?_⟩
            cases h
            exact .refl _

/-- Where a section has records of the type, the aliases end. -/
theorem leads_of_record (htrue : W.TrueAnswers rtype m) {r : Record} (hr : r ∈ m.answers)
    (htype : r.recordType = rtype) : W.Leads rtype r.name.path [] := by
  refine .ends ?_
  rintro q ⟨hempty, -⟩
  have hheld := htrue.held r hr
  rw [htype, hempty] at hheld
  cases hheld

theorem trueAnswer_of_route (htrue : W.TrueAnswers rtype m) {p : Path} {r : Record}
    (hr : r ∈ m.answers) (htype : r.recordType = rtype)
    (hroute : Route W rtype m.answers p r.name.path) : W.TrueAnswer rtype p m := by
  obtain ⟨targets, hleads, hreaches⟩ := hroute.reaches (leads_of_record htrue hr htype)
  exact ⟨targets, hleads, answered_of_reaches htrue hreaches ⟨r, hr, rfl, htype⟩⟩

/-- What the loop makes of an honest reply, whatever was asked. -/
inductive TrueVerdict (W : World) (name : Name) (rtype : RecordType) (z : Path) (m : Message) :
    Verdict → Prop
  | done (h : W.TrueAnswer rtype name.path m) : TrueVerdict W name rtype z m (.done (.ok m))
  | failed (error : RecursorError) : TrueVerdict W name rtype z m (.done (.error error))
  | redirect (key : Text) {stop : Name} (hheld : W.Held m.answers)
      (hroute : Route W rtype m.answers name.path stop.path) :
      TrueVerdict W name rtype z m (.redirect key stop m)
  | referral {zone : Name} (h : W.Refers z zone.path m)
      (honPath : zone.path <+: questionPath name.path rtype) :
      TrueVerdict W name rtype z m (.referral zone ((nsRecords m).filterMap nsTarget))

theorem trueVerdict_redirected (frame : Frame) (htrue : W.TrueAnswers rtype m) {q : Path}
    (hhop : W.Hop rtype name.path q) (hlink : World.Links m.answers name.path q) :
    TrueVerdict W name rtype z m (judgeResponse P name rtype frame m) := by
  obtain ⟨hnonempty, hnone, first, hfirst⟩ := entersLoop_of_hop htrue hhop hlink
  obtain ⟨hhop', hlink'⟩ := hop_of_target htrue hnone hfirst
  obtain ⟨hanswered, htarget⟩ := @followCnames_route W P rtype m htrue (m.answers.length + 2)
    [P.nameKey name] first
  simp only [judgeResponse, judgeAnswers, hnonempty, hnone, hfirst, Bool.false_eq_true, if_false]
  cases hend : followCnames P m.answers rtype (m.answers.length + 2) [P.nameKey name] first with
  | loop => exact .failed _
  | answered =>
      obtain ⟨r, hr, hroute, htype⟩ := hanswered hend
      exact .done (trueAnswer_of_route htrue hr htype (.step hhop' hlink' hroute))
  | target stop => exact .redirect _ htrue.held (.step hhop' hlink' (htarget stop hend))

theorem judgeResponse_true (P : Platform) (hframe : frame.At W z)
    (hreply : W.HonestReply z name rtype m) :
    TrueVerdict W name rtype z m (judgeResponse P name rtype frame m) := by
  cases hreply with
  | referral h honPath =>
      obtain ⟨zone, rfl, hreferral⟩ := judgeResponse_refers P hframe h honPath
      rw [hreferral]
      exact .referral h honPath
  | records htrue hheld hgiven =>
      have hrecord := hasRecord_of_given hheld hgiven
      obtain ⟨r, hr, hname, htype⟩ := mem_of_hasRecord hrecord
      rw [judgeResponse_hasRecord P frame hrecord]
      refine .done (trueAnswer_of_route htrue hr htype ?_)
      rw [hname]
      exact .refl _
  | redirected htrue hhop hlink => exact trueVerdict_redirected frame htrue hhop hlink
  | denial hnone hempty hanswers hcode hsoa hzone =>
      obtain ⟨hverdict, hanswered⟩ := answered_of_denial P frame hempty hanswers hcode hsoa hzone
      rw [hverdict]
      exact .done ⟨[], .ends hnone, hanswered⟩

end Reply

/-! ### One turn -/

section Turn

variable {W : World} {env : REnv} {recurse : Resolve} {name : Name} {rtype : RecordType}
  {frame : Frame} {s : RState} {z : Path}

/-- The loop asks servers of a zone above the question, or servers that are gone. -/
def Frame.Good (W : World) (name : Name) (rtype : RecordType) (frame : Frame) : Prop :=
  (∃ z, frame.At W z ∧ z <+: questionPath name.path rtype) ∨ W.Silent frame.currentServers

theorem Frame.fromRoot_good (W : World) (name : Name) (rtype : RecordType) :
    Frame.fromRoot.Good W name rtype :=
  Or.inl ⟨[], Frame.fromRoot_at W, List.nil_prefix⟩

/-- A turn ends the call with a true result, or goes on with servers it may ask. -/
inductive TrueTurn (W : World) (P : Platform) (name : Name) (rtype : RecordType) : Turn × RState → Prop
  | done {result : Except RecursorError Message} {s : RState}
      (h : TrueResult W P name rtype (result, s)) : TrueTurn W P name rtype (.done result, s)
  | next {frame : Frame} {s : RState} (hframe : frame.Good W name rtype)
      (hcache : CacheHonest W P s.delegationCache) : TrueTurn W P name rtype (.next frame, s)

theorem takeRedirect_true (hrecurse : NestedTrue W env.platform recurse)
    (hcache : CacheHonest W env.platform s.delegationCache) {key : Text} {stop : Name} {hop : Message}
    (hheld : W.Held hop.answers) (hroute : Route W rtype hop.answers name.path stop.path) :
    TrueResult W env.platform name rtype (takeRedirect recurse name rtype key stop hop s) := by
  obtain ⟨htrue, hcache'⟩ := hrecurse stop rtype (s.visit key) hcache
  unfold takeRedirect
  split
  · exact ⟨fun m h => (by cases h), hcache⟩
  · split
    · rename_i m s' heq
      rw [heq] at htrue hcache'
      refine ⟨fun merged h => ?_, hcache'⟩
      cases h
      obtain ⟨rest, hleads, hanswered⟩ := htrue m rfl
      obtain ⟨targets, hleads', hreaches⟩ := hroute.reaches hleads
      exact ⟨targets, hleads', hanswered.merge hheld hreaches⟩
    · rename_i heq
      rw [heq] at hcache'
      exact ⟨fun m h => (by cases h), hcache'⟩

theorem turn_true (hfaithful : env.platform.NameKeyFaithful) (henv : HonestEnv W env)
    (hrecurse : NestedTrue W env.platform recurse)
    (hcache : CacheHonest W env.platform s.delegationCache) (hframe : frame.Good W name rtype) :
    TrueTurn W env.platform name rtype (turn env recurse name rtype frame s) := by
  unfold turn
  rcases hframe with ⟨z, hframe, hz⟩ | hsilent
  · obtain ⟨m, hquery, hreply⟩ := @query_authorities W env name rtype frame s z henv hframe.authorities hz
    have hverdict := judgeResponse_true env.platform hframe hreply
    simp only [hquery]
    generalize judgeResponse env.platform name rtype frame m = verdict at hverdict
    cases hverdict with
    | done h =>
        refine .done ⟨fun m' h' => ?_, hcache⟩
        cases h'
        exact h
    | failed error => exact .done ⟨fun m h => (by cases h), hcache⟩
    | redirect key hheld hroute =>
        exact .done (takeRedirect_true (s := { s with tick := s.tick + 1 }) hrecurse hcache hheld hroute)
    | @referral zone h honPath =>
        obtain ⟨ips, hips, hnonempty, hauthorities⟩ := @referralServers_refers W env recurse
          { s with tick := s.tick + 1 } z m zone frame.bailiwick h hframe.bailiwick
        simp only [takeReferral, hips, if_neg (mt List.isEmpty_iff.mp hnonempty)]
        refine .next (Or.inl ⟨zone.path, ⟨hauthorities, List.prefix_rfl, ?_⟩, honPath⟩)
          (hcache.insert hfaithful hauthorities)
        intro zone' hzone'
        rw [← Option.some.inj hzone']
  · obtain ⟨s', hquery, hsame, -⟩ := @query_silent W env name rtype frame s henv hsilent
    have hcache' : CacheHonest W env.platform s'.delegationCache := by rwa [hsame]
    simp only [hquery]
    split
    · exact .next (Frame.fromRoot_good W name rtype)
        (hcache'.purge (delegationStart name rtype).ancestors)
    · exact .done ⟨fun m h => (by cases h), hcache'⟩

/-! ### The loop and the nested calls -/

theorem turns_true (hfaithful : env.platform.NameKeyFaithful) (henv : HonestEnv W env)
    (hrecurse : NestedTrue W env.platform recurse) (left : Nat)
    (hcache : CacheHonest W env.platform s.delegationCache) (hframe : frame.Good W name rtype) :
    TrueResult W env.platform name rtype (turns env recurse name rtype left frame s) := by
  induction left generalizing frame s with
  | zero => exact ⟨fun m h => (by cases h), hcache⟩
  | succ left ih =>
      have hturn := turn_true hfaithful henv hrecurse hcache hframe
      unfold turns
      generalize turn env recurse name rtype frame s = outcome at hturn
      cases hturn with
      | done h => exact h
      | next hframe' hcache' => exact ih hcache' hframe'

theorem resolveInternal_true (hfaithful : env.platform.NameKeyFaithful) (henv : HonestEnv W env)
    (levels : Nat) : NestedTrue W env.platform (resolveInternal env levels) := by
  induction levels with
  | zero => exact fun name rtype s hcache => ⟨fun m h => (by cases h), hcache⟩
  | succ levels ih =>
      intro name rtype s hcache
      obtain ⟨-, -, hsame⟩ := startFrame_spec env name rtype s
      have hgood : (startFrame env name rtype s).1.Good W name rtype :=
        (startFrame_honest s hcache).imp id And.left
      unfold resolveInternal
      simp only
      refine turns_true hfaithful henv ih maxSteps ?_ hgood
      rwa [hsame]

end Turn

/-! ### Runs -/

/-- Runs from a good cache, with any questions, over servers that are honest each time. -/
inductive HonestRun (W : World) (P : Platform) : RState → Prop
  | start {s : RState} (h : CacheHonest W P s.delegationCache) : HonestRun W P s
  | resolve {env : REnv} (henv : HonestEnv W env) (hplatform : env.platform = P) (name : Name)
      (rtype : RecordType) {s : RState} (h : HonestRun W P s) :
      HonestRun W P (resolve env name rtype s).2

section Runs

variable {W : World} {env : REnv}

theorem resolve_true (hfaithful : env.platform.NameKeyFaithful) (henv : HonestEnv W env) (name : Name)
    (rtype : RecordType) {s : RState} (hcache : CacheHonest W env.platform s.delegationCache) :
    TrueResult W env.platform name rtype (resolve env name rtype s) :=
  resolveInternal_true hfaithful henv (maxDepth + 1) name rtype { s with visited := [] } hcache

theorem HonestRun.cacheHonest {P : Platform} (hfaithful : P.NameKeyFaithful) {s : RState}
    (h : HonestRun W P s) : CacheHonest W P s.delegationCache := by
  induction h with
  | start h => exact h
  | resolve henv hplatform name rtype _ ih =>
      subst hplatform
      exact (resolve_true hfaithful henv name rtype ih).2

end Runs

/-! Two zones: the root, and `c.` with the server 1.1.1.1.  The name `n.e.c.` is an alias of `x.e.c.`, which
has an address. -/

def smallLookup (p : Path) (t : RecordType) : List RData :=
  if p = leafServer.path ∧ t = .CNAME then [.cname belowLeaf]
  else if p = belowLeaf.path ∧ t = .A then [.a ⟨9, 9, 9, 9⟩]
  else []

theorem mem_smallLookup {p : Path} {t : RecordType} {data : RData} (h : data ∈ smallLookup p t) :
    (p = leafServer.path ∧ t = .CNAME ∧ data = .cname belowLeaf) ∨
      p = belowLeaf.path ∧ t = .A ∧ data = .a ⟨9, 9, 9, 9⟩ := by
  unfold smallLookup at h
  split at h
  · rename_i hcond
    exact Or.inl ⟨hcond.1, hcond.2, List.mem_singleton.mp h⟩
  · split at h
    · rename_i hcond
      exact Or.inr ⟨hcond.1, hcond.2, List.mem_singleton.mp h⟩
    · cases h

def smallWorld : World where
  lookup := smallLookup
  present p := p.isPrefixOf leafServer.path || p.isPrefixOf belowLeaf.path
  isApex p := decide (p = []) || decide (p = parentZone.path)
  serves p ip := (p = [] ∧ ip ∈ rootServers) ∨ (p = parentZone.path ∧ ip = ip4 1 1 1 1)
  live ip := ip ∈ rootServers ∨ ip = ip4 1 1 1 1
  typed h := by
    rcases mem_smallLookup h with ⟨-, rfl, rfl⟩ | ⟨-, rfl, rfl⟩ <;> rfl
  present_of_lookup h := by
    rcases mem_smallLookup h with ⟨rfl, -, -⟩ | ⟨rfl, -, -⟩ <;> simp
  alias_unique ha hb := by
    rcases mem_smallLookup ha with ⟨-, -, ha⟩ | ⟨-, htype, -⟩
    · rcases mem_smallLookup hb with ⟨-, -, hb⟩ | ⟨-, htype, -⟩
      · rw [RData.cname.inj ha, RData.cname.inj hb]
      · cases htype
    · cases htype
  apex_root := rfl
  root_serves ip hip := Or.inl ⟨rfl, hip⟩
  root_live := ⟨ip4 198 41 0 4, List.mem_cons_self, Or.inl List.mem_cons_self⟩

def smallReferral (name : Name) (rtype : RecordType) : Message :=
  { referralTo parentZone leafServer ⟨1, 1, 1, 1⟩ with
    messageType := .response
    queries := [⟨name, rtype, .IN⟩] }

/-- The root servers refer to `c.`; everything else is looked up. -/
def smallRootReply (name : Name) (rtype : RecordType) : Message :=
  if parentZone.path.isPrefixOf (questionPath name.path rtype) then smallReferral name rtype
  else smallWorld.authoritativeReply .root name rtype

def smallEnv : REnv where
  platform := .plain
  clock _ := 0
  reply _ servers name rtype :=
    if servers.any fun ip => decide (ip ∈ rootServers) then some (smallRootReply name rtype)
    else if servers.any fun ip => decide (ip = ip4 1 1 1 1) then
      some (smallWorld.authoritativeReply parentZone name rtype)
    else none

theorem smallReferral_refers (name : Name) (rtype : RecordType) :
    smallWorld.Refers [] parentZone.path (smallReferral name rtype) where
  apex := rfl
  below := ⟨List.nil_prefix, by decide⟩
  code := rfl
  answers := rfl
  noSoa r hr := by
    rw [List.mem_singleton.mp hr]
    rfl
  owner r hr := by
    rw [List.mem_singleton.mp (List.mem_of_mem_filter hr)]
  serves add ip h := by
    obtain ⟨hadd, -, haddress, -⟩ := h
    rw [List.mem_singleton.mp hadd] at haddress
    exact Or.inr ⟨rfl, (Option.some.inj haddress).symm⟩
  live := by
    refine ⟨⟨leafServer, .IN, 300, .a ⟨1, 1, 1, 1⟩⟩, ip4 1 1 1 1, ⟨List.mem_singleton_self _, ?_, rfl,
      by decide⟩, Or.inr rfl, Or.inl List.nil_prefix⟩
    exact ⟨⟨parentZone, .IN, 300, .ns leafServer⟩, List.mem_singleton_self _, leafServer, rfl, rfl⟩

theorem smallRootReply_honest (name : Name) (rtype : RecordType) :
    smallWorld.HonestReply [] name rtype (smallRootReply name rtype) := by
  unfold smallRootReply
  split
  · rename_i hinside
    exact .referral (smallReferral_refers name rtype) (List.isPrefixOf_iff_prefix.mp hinside)
  · exact smallWorld.authoritativeReply_honest rtype List.nil_prefix

theorem smallEnv_honest : HonestEnv smallWorld smallEnv where
  answers := by
    intro z ips hips tick name rtype hz
    obtain ⟨ip, hip, hlive⟩ := hips.live
    rcases hips.serves ip hip with ⟨rfl, hroot⟩ | ⟨rfl, rfl⟩
    · have hany : (ips.any fun ip => decide (ip ∈ rootServers)) = true :=
        List.any_eq_true.mpr ⟨ip, hip, decide_eq_true hroot⟩
      exact ⟨_, if_pos hany, smallRootReply_honest name rtype⟩
    · have hnone : ¬ (ips.any fun ip => decide (ip ∈ rootServers)) = true := by
        rw [List.any_eq_true]
        rintro ⟨ip', hip', hroot⟩
        rcases hips.serves ip' hip' with ⟨hpath, -⟩ | ⟨-, rfl⟩
        · cases hpath
        · revert hroot
          decide
      have hany : (ips.any fun ip => decide (ip = ip4 1 1 1 1)) = true :=
        List.any_eq_true.mpr ⟨_, hip, decide_eq_true rfl⟩
      refine ⟨_, (if_neg hnone).trans (if_pos hany), ?_⟩
      exact smallWorld.authoritativeReply_honest rtype (hz.trans (questionPath_isPrefix _ _))
  silent := by
    intro ips hsilent tick name rtype
    have hroot : ¬ (ips.any fun ip => decide (ip ∈ rootServers)) = true := by
      rw [List.any_eq_true]
      rintro ⟨ip, hip, hmem⟩
      exact hsilent ip hip (Or.inl (of_decide_eq_true hmem))
    have hparent : ¬ (ips.any fun ip => decide (ip = ip4 1 1 1 1)) = true := by
      rw [List.any_eq_true]
      rintro ⟨ip, hip, hsame⟩
      exact hsilent ip hip (Or.inr (of_decide_eq_true hsame))
    exact (if_neg hroot).trans (if_neg hparent)

/-- The servers cached for `e.c.` are gone. -/
def staleState : RState :=
  { RState.init with
    delegationCache := TextMap.empty.insert (Platform.plain.nameKey leafZone) ⟨[ip4 2 2 2 2], 300⟩ }

theorem staleState_honest : CacheHonest smallWorld .plain staleState.delegationCache := by
  intro zone entry hentry
  rcases TextMap.insert_eq_some hentry with ⟨-, rfl⟩ | hold
  · right
    intro ip hip
    rw [List.mem_singleton.mp hip]
    rintro (hroot | hsame)
    · revert hroot
      decide
    · revert hsame
      decide
  · cases hold

end Recursor
end UnifiedDns
