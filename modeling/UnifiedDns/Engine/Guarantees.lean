import UnifiedDns.Engine.CacheIdentity
import UnifiedDns.Engine.Replies
import UnifiedDns.Lib.Runs

/-!
# What the resolver guarantees, the replies guarantee

Between the resolver and a client stand the cache, stale entries and their revalidation, the cache file,
restarts and pre-warming.  None of them makes anything up: the server refines a server that asks the resolver
for every request and tailors the result.

* `Guarantee` — what is known of the results of a backend, with the invariant of its state that it takes.
* `SameContent` — the parts of a message that a client response is made of.
* `EntryFrom`, `TableFrom` — entries made of results for their question.
* `RepliedFrom` — an outcome made of a result for the question of the request, or of a failure.
* `ServiceInvariant`, `nodeStep_from` — what every event keeps.
* `guaranteed_replies` — every reply of every run is made so.
* `replies_from_results` — in particular of the messages that the backend has returned.
-/

namespace UnifiedDns
namespace Engine

open Dnssec (DnssecStatus)

variable {W U R : Type}

/-- What a backend guarantees when what comes from outside is `allowed`. -/
structure Guarantee (backend : Backend U R) (allowed : U → Prop) where
  inv : R → Prop
  /-- The message and its status may be the result for the question. -/
  found : Query → Message → DnssecStatus → Prop
  /-- There may be no result for the question. -/
  failed : Query → Prop
  init : inv backend.init
  keeps : ∀ {u name rtype r}, allowed u → inv r → inv (backend.work u name rtype r).2
  found_of_work : ∀ {u name rtype r msg status}, allowed u → inv r →
    (backend.work u name rtype r).1 = some (some (msg, status)) → found ⟨name, rtype, .IN⟩ msg status
  failed_of_work : ∀ {u name rtype r}, allowed u → inv r →
    (backend.work u name rtype r).1 = some none → failed ⟨name, rtype, .IN⟩
  found_congr : ∀ {q q' : Query} {msg status}, q.name.path = q'.name.path →
    q.queryType = q'.queryType → found q msg status → found q' msg status
  failed_congr : ∀ {q q' : Query}, q.name.path = q'.name.path → q.queryType = q'.queryType →
    failed q → failed q'

/-- The parts of a message that a client response is made of are the same. -/
structure SameContent (a b : Message) : Prop where
  code : a.responseCode = b.responseCode
  answers : a.answers = b.answers
  nameServers : a.nameServers = b.nameServers
  additionals : a.additionals = b.additionals

theorem SameContent.response {a b : Message} (h : SameContent a b) (qtype : RecordType)
    (status : DnssecStatus) (freshness : CacheFreshness) (cachedAt : Nat) (req : Message)
    (maxPayload : Nat) (dnssecOk : Bool) (now : Nat) :
    constructClientResponse a qtype status freshness cachedAt req maxPayload dnssecOk now =
      constructClientResponse b qtype status freshness cachedAt req maxPayload dnssecOk now := by
  simp only [constructClientResponse, h.code, h.answers, h.nameServers, h.additionals]

section Guarantees

variable {backend : Backend U R} {allowed : U → Prop} (G : Guarantee backend allowed)
  (env : ServerEnv W)

/-- The entry holds a result for a question with this key. -/
def EntryFrom (key : Text) (entry : CacheEntry W) : Prop :=
  ∃ query msg written, queryKey env query = key ∧ G.found query msg entry.dnssecStatus ∧
    SameContent written msg ∧ env.encode written = some entry.rawWire

def TableFrom (entries : TextMap (CacheEntry W)) : Prop :=
  ∀ key entry, entries key = some entry → EntryFrom G env key entry

/-- The outcome of a request is made of a result for its question, or of a failure: there is no result, the
result is bogus and the request wants it checked, or its tailored form cannot be encoded. -/
inductive RepliedFrom (message : Message) (query : Query) : ProcessOutcome W → Prop
  | answered {msg : Message} {status : DnssecStatus} {freshness : CacheFreshness} {cachedAt now : Nat}
      {wire : W} (hfound : G.found query msg status)
      (hwire : env.encode (constructClientResponse msg query.queryType status freshness cachedAt message
        (clientEdns message).1 (clientEdns message).2 now) = some wire) :
      RepliedFrom message query (.success wire)
  | unresolved (hfailed : G.failed query) :
      RepliedFrom message query (.servFail (env.encode (servfailResponse message.id query)))
  | withheld {msg : Message} (hfound : G.found query msg .bogus)
      (henforced : env.dnssecEnforce = true) (hchecked : message.checkingDisabled = false) :
      RepliedFrom message query (.servFail (env.encode (servfailResponse message.id query)))
  | unencodable {msg : Message} {status : DnssecStatus} {now : Nat} (hfound : G.found query msg status)
      (hnone : env.encode (constructClientResponse msg query.queryType status .fresh now message
        (clientEdns message).1 (clientEdns message).2 now) = none) :
      RepliedFrom message query (.servFail (env.encode (servfailResponse message.id query)))
  | challenged :
      RepliedFrom message query (.truncated (env.encode (truncatedResponse message.id query)))
  | dropped : RepliedFrom message query .dropped

variable {G env}

/-! ### Tables -/

theorem TableFrom.empty : TableFrom G env TextMap.empty := by
  intro key entry h
  cases h

theorem TableFrom.insert {entries : TextMap (CacheEntry W)} {key : Text} {entry : CacheEntry W}
    (h : TableFrom G env entries) (hentry : EntryFrom G env key entry) :
    TableFrom G env (entries.insert key entry) := by
  intro k e hk
  rcases TextMap.insert_eq_some hk with ⟨rfl, rfl⟩ | hold
  · exact hentry
  · exact h k e hold

theorem TableFrom.unexpired {entries : TextMap (CacheEntry W)} (h : TableFrom G env entries) (now : Nat) :
    TableFrom G env (unexpired env now entries) :=
  fun key entry hentry => h key entry (unexpired_eq_some hentry)

/-- The cache, the cache file and what a save has collected. -/
structure TablesFrom (G : Guarantee backend allowed) (env : ServerEnv W) (s : ServerState W) : Prop where
  cache : TableFrom G env s.cache
  disk : TableFrom G env s.disk
  saving : ∀ now collected, s.saving = some (now, collected) → TableFrom G env collected

theorem insertResolved_from {query : Query} {msg written : Message} {status : DnssecStatus} {now : Nat}
    {s : ServerState W} (h : TablesFrom G env s) (hfound : G.found query msg status)
    (hsame : SameContent written msg) :
    TablesFrom G env (insertResolved env query written status now s) := by
  unfold insertResolved
  split
  · exact h
  · rename_i wire hwire
    exact ⟨h.cache.insert ⟨query, msg, written, rfl, hfound, hsame, hwire⟩, h.disk, h.saving⟩

theorem touchEntry_from {query : Query} {s : ServerState W} (h : TablesFrom G env s) :
    TablesFrom G env (touchEntry env query s) := by
  unfold touchEntry
  split
  · exact h
  · rename_i entry hentry
    exact ⟨h.cache.insert (h.cache _ entry hentry), h.disk, h.saving⟩

/-! ### The end of a task -/

/-- A task writes results for its question. -/
theorem finish_from {task : Task} {result : Option (Message × DnssecStatus)} {s : ServerState W}
    (h : TablesFrom G env s) (hresult : ∀ msg status, result = some (msg, status) →
      G.found task.query msg status) : TablesFrom G env (finish env task result s).2 := by
  cases task with
  | foreground req query now =>
      show TablesFrom G env (finishForeground env req query now result s).2
      rw [finishForeground_state]
      split
      · exact h
      · rename_i msg status
        split
        · exact insertResolved_from h (hresult msg status rfl) ⟨rfl, rfl, rfl, rfl⟩
        · exact h
  | revalidation query =>
      have hbody : TablesFrom G env (applyRevalidation env query result s) := by
        unfold applyRevalidation
        split
        · exact h
        · rename_i msg status
          split
          · exact h
          · split
            · exact insertResolved_from h (hresult msg status rfl) ⟨rfl, rfl, rfl, rfl⟩
            · exact touchEntry_from h
      exact ⟨hbody.cache, hbody.disk, hbody.saving⟩
  | prewarm query =>
      show TablesFrom G env (finishPrewarm env query result s)
      unfold finishPrewarm
      split
      · exact h
      · rename_i msg status
        split
        · exact h
        · split
          · exact h
          · exact insertResolved_from h (hresult msg status rfl) ⟨rfl, rfl, rfl, rfl⟩

/-- A request that missed the cache is replied to with the result, or with the failure. -/
theorem finishForeground_from {req : Request} {query : Query} {now : Nat}
    {result : Option (Message × DnssecStatus)} {s : ServerState W}
    (hresult : ∀ msg status, result = some (msg, status) → G.found query msg status)
    (hnone : result = none → G.failed query) :
    RepliedFrom G env req.message query (finishForeground env req query now result s).1 := by
  unfold finishForeground
  simp only
  split
  · exact .unresolved (hnone rfl)
  · rename_i msg status
    have hfound := hresult msg status rfl
    split
    · rename_i hwithheld
      obtain ⟨rfl, henforced, hchecked⟩ := hwithheld
      exact .withheld hfound henforced hchecked
    · split
      · rename_i hunencodable
        exact .unencodable hfound hunencodable
      · rename_i wire hwire
        split
        · exact .challenged
        · exact .answered hfound hwire

/-! ### A request -/

/-- A reply from an entry is made of a result for the question of the request. -/
theorem serveEntry_from (hlossless : env.Lossless) {known : RecordType → Prop}
    (hformat : KeyFormat env.platform known) {req : Request} {query : Query}
    (hknown : known query.queryType) {entry : CacheEntry W} {s s' : ServerState W}
    {outcome : ProcessOutcome W} (hentry : EntryFrom G env (queryKey env query) entry)
    (h : serveEntry env req query entry s = some (outcome, s')) :
    RepliedFrom G env req.message query outcome := by
  obtain ⟨origin, msg, written, hkey, hfound, hsame, hwire⟩ := hentry
  obtain ⟨hname, htype⟩ := cacheKey_eq hformat hkey
  have htype' : origin.queryType = query.queryType :=
    htype.resolve_right fun hunknown => hunknown.2 hknown
  have hfound' := G.found_congr hname htype' hfound
  unfold serveEntry at h
  simp only [hlossless written entry.rawWire hwire, hsame.response] at h
  split at h
  · cases h
  · rename_i response hresponse
    split at h
    · cases h
      exact .challenged
    · cases h
      exact .answered hfound' hresponse

theorem lookupCache_from (hlossless : env.Lossless) {known : RecordType → Prop}
    (hformat : KeyFormat env.platform known) {req : Request} {query : Query}
    (hknown : known query.queryType) {s : ServerState W} {outcome : ProcessOutcome W}
    (htable : TableFrom G env s.cache) (h : (lookupCache env req query s).1 = some outcome) :
    RepliedFrom G env req.message query outcome := by
  unfold lookupCache at h
  split at h
  · cases h
  · rename_i entry hentry
    simp only at h
    split at h
    · cases h
    · split at h
      · rename_i hserve
        cases h
        exact serveEntry_from hlossless hformat hknown (htable _ entry hentry) hserve
      · cases h

theorem receive_from (hlossless : env.Lossless) {known : RecordType → Prop}
    (hformat : KeyFormat env.platform known) {req : Request} {query : Query}
    (hknown : known query.queryType) (hquestion : req.message.queries = [query]) {s : ServerState W}
    {outcome : ProcessOutcome W} (htable : TableFrom G env s.cache)
    (h : (receive env req s).1 = some outcome) : RepliedFrom G env req.message query outcome := by
  unfold receive at h
  rw [hquestion] at h
  simp only at h
  split at h
  · cases h
    exact .challenged
  · cases h
    exact .dropped
  · exact lookupCache_from hlossless hformat hknown htable h

/-- A request leaves the tables alone. -/
theorem receive_tables (req : Request) (s : ServerState W) :
    (receive env req s).2.cache = s.cache ∧ (receive env req s).2.disk = s.disk ∧
      (receive env req s).2.saving = s.saving := by
  unfold receive
  split
  · split
    · exact ⟨rfl, rfl, rfl⟩
    · exact ⟨rfl, rfl, rfl⟩
    · rename_i query _ _ _
      unfold lookupCache
      split
      · exact ⟨rfl, rfl, rfl⟩
      · rename_i entry _
        simp only
        split
        · exact ⟨rfl, rfl, rfl⟩
        · have hspawn : ∀ served, (if entry.freshnessAt s.now env.maxStale = .stale then
              spawnRevalidation env query s else s) = served →
              served.cache = s.cache ∧ served.disk = s.disk ∧ served.saving = s.saving := by
            rintro served rfl
            split
            · unfold spawnRevalidation
              split
              · exact ⟨rfl, rfl, rfl⟩
              · exact ⟨rfl, rfl, rfl⟩
            · exact ⟨rfl, rfl, rfl⟩
          have hserved := hspawn _ rfl
          split
          · rename_i heq
            obtain ⟨log, rfl⟩ := serveEntry_state heq
            exact hserved
          · exact hserved
  · exact ⟨rfl, rfl, rfl⟩

end Guarantees

/-! ### Runs -/

section Runs

variable {env : NodeEnv W U R} {allowed : U → Prop} {G : Guarantee env.backend allowed}
  {known : RecordType → Prop}

/-- A waiting request asks one question. -/
def Task.Asks : Task → Prop
  | .foreground req query _ => req.message.queries = [query]
  | .revalidation _ => True
  | .prewarm _ => True

/-- The reply to one question of a known type. -/
def ReplyFrom (G : Guarantee env.backend allowed) (known : RecordType → Prop)
    (reply : ClientRequest × ProcessOutcome W) : Prop :=
  ∀ query, reply.1.message.queries = [query] → known query.queryType →
    RepliedFrom G env.server reply.1.message query reply.2

structure ServiceInvariant (G : Guarantee env.backend allowed) (known : RecordType → Prop)
    (s : NodeState W R) : Prop where
  tables : TablesFrom G env.server s.server
  backend : G.inv s.backend
  tasks : ∀ task ∈ s.server.tasks, task.Asks
  replies : ∀ reply ∈ s.replies, ReplyFrom G known reply

/-- What comes from outside during work is allowed. -/
def NodeEvent.Allowed (allowed : U → Prop) : NodeEvent U → Prop
  | .work _ upstream => allowed upstream
  | _ => True

theorem ServiceInvariant.init : ServiceInvariant G known (.init env) where
  tables := ⟨.empty, .empty, fun now collected h => by cases h⟩
  backend := G.init
  tasks := by
    intro task htask
    cases htask
  replies := by
    intro reply hreply
    cases hreply

theorem logReply_from (client : ClientRequest) (outcome : Option (ProcessOutcome W))
    {replies : List (ClientRequest × ProcessOutcome W)}
    (hreplies : ∀ reply ∈ replies, ReplyFrom G known reply)
    (houtcome : ∀ o, outcome = some o → ReplyFrom G known (client, o)) :
    ∀ reply ∈ logReply client outcome replies, ReplyFrom G known reply := by
  cases outcome with
  | none => exact hreplies
  | some o => exact List.forall_mem_cons.mpr ⟨houtcome o rfl, hreplies⟩

theorem receiveRequest_from (hlossless : env.server.Lossless)
    (hformat : KeyFormat env.server.platform known) {s : NodeState W R}
    (h : ServiceInvariant G known s) (client : ClientRequest) (nowMillis : Nat) :
    ServiceInvariant G known (receiveRequest env client nowMillis s) := by
  unfold receiveRequest
  split
  · rename_i query hquestion
    simp only
    generalize hrequest : (⟨client, (checkQuery env.limiter nowMillis client.protocol client.clientIp
      query.name query.queryType s.limiter).1⟩ : Request) = req
    have hasked : req.message.queries = [query] := by
      rw [← hrequest]
      exact hquestion
    have hclient : req.toClientRequest = client := by rw [← hrequest]
    obtain ⟨hcache, hdisk, hsaving⟩ := @receive_tables W env.server req s.server
    refine ⟨⟨?_, ?_, ?_⟩, h.backend, fun task htask => ?_,
      logReply_from client _ h.replies fun o ho => ?_⟩
    · show TableFrom G env.server (receive env.server req s.server).2.cache
      rw [hcache]
      exact h.tables.cache
    · show TableFrom G env.server (receive env.server req s.server).2.disk
      rw [hdisk]
      exact h.tables.disk
    · show ∀ now collected, (receive env.server req s.server).2.saving = _ → _
      rw [hsaving]
      exact h.tables.saving
    · rcases receive_tasks hasked s.server task htask with hold | rfl | ⟨-, rfl⟩
      · exact h.tasks task hold
      · trivial
      · exact hasked
    · intro query' hquestion' hknown
      rw [← hclient] at hquestion' ⊢
      exact receive_from hlossless hformat hknown hquestion' h.tables.cache ho
  · rename_i hquestions
    refine ⟨h.tables, h.backend, h.tasks,
      logReply_from client (some .malformed) h.replies fun o _ => ?_⟩
    intro query hquestion
    exact absurd hquestion (hquestions query)

theorem workOn_from {s : NodeState W R} (h : ServiceInvariant G known s) (index : Nat) {upstream : U}
    (hallowed : allowed upstream) : ServiceInvariant G known (workOn env index upstream s) := by
  unfold workOn
  split
  · exact h
  · rename_i task htask
    have hkeeps := @Guarantee.keeps U R env.backend allowed G upstream task.query.name
      task.query.queryType s.backend hallowed h.backend
    split
    · rename_i heq
      rw [heq] at hkeeps
      exact ⟨h.tables, hkeeps, h.tasks, h.replies⟩
    · rename_i result backend heq
      rw [heq] at hkeeps
      have hwork := congrArg Prod.fst heq
      have hfound : ∀ msg status, result = some (msg, status) → G.found task.query msg status := by
        rintro msg status rfl
        refine G.found_congr ?_ ?_ (G.found_of_work hallowed h.backend hwork)
        · rfl
        · rfl
      have hasks : task.Asks := h.tasks task (List.mem_of_getElem? htask)
      obtain ⟨hcache, hdisk, hsaving⟩ := @finish_from W U R env.backend allowed G env.server task result
        { s.server with tasks := s.server.tasks.eraseIdx index }
        ⟨h.tables.cache, h.tables.disk, h.tables.saving⟩ hfound
      refine ⟨⟨hcache, hdisk, hsaving⟩, hkeeps, fun waiting hwaiting => ?_, ?_⟩
      · simp only [finish_tasks] at hwaiting
        exact h.tasks waiting (List.mem_of_mem_eraseIdx hwaiting)
      · cases task with
        | foreground req query now =>
            refine logReply_from req.toClientRequest (some _) h.replies fun o ho => ?_
            intro query' hquestion' _
            obtain rfl : query = query' := List.singleton_injective (hasks.symm.trans hquestion')
            rw [← Option.some.inj ho]
            refine finishForeground_from hfound fun hnone => ?_
            rw [hnone] at hwork
            refine G.failed_congr ?_ ?_ (G.failed_of_work hallowed h.backend hwork)
            · rfl
            · rfl
        | revalidation query => exact h.replies
        | prewarm query => exact h.replies

/-- Every event keeps the invariant. -/
theorem nodeStep_from (hlossless : env.server.Lossless) (hformat : KeyFormat env.server.platform known)
    {s : NodeState W R} (h : ServiceInvariant G known s) {event : NodeEvent U}
    (hallowed : event.Allowed allowed) : ServiceInvariant G known (nodeStep env s event) := by
  obtain ⟨⟨hcache, hdisk, hsaving⟩, hbackend, htasks, hreplies⟩ := h
  cases event with
  | wait seconds => exact ⟨⟨hcache, hdisk, hsaving⟩, hbackend, htasks, hreplies⟩
  | receive client nowMillis =>
      exact receiveRequest_from hlossless hformat ⟨⟨hcache, hdisk, hsaving⟩, hbackend, htasks, hreplies⟩
        client nowMillis
  | work index upstream =>
      exact workOn_from ⟨⟨hcache, hdisk, hsaving⟩, hbackend, htasks, hreplies⟩ index hallowed
  | prewarm name rtype =>
      simp only [nodeStep, onServer, step]
      split
      · exact ⟨⟨hcache, hdisk, hsaving⟩, hbackend, htasks, hreplies⟩
      · refine ⟨⟨hcache, hdisk, hsaving⟩, hbackend, fun task htask => ?_, hreplies⟩
        rcases List.mem_append.mp htask with hold | hnew
        · exact htasks task hold
        · rw [List.mem_singleton.mp hnew]
          trivial
  | cleanup nowMillis maxAgeMillis => exact ⟨⟨hcache, hdisk, hsaving⟩, hbackend, htasks, hreplies⟩
  | saveStart =>
      refine ⟨⟨hcache, hdisk, fun now collected h => ?_⟩, hbackend, htasks, hreplies⟩
      cases h
      exact .empty
  | saveItem key =>
      simp only [nodeStep, onServer, step, saveItem]
      split
      · exact ⟨⟨hcache, hdisk, hsaving⟩, hbackend, htasks, hreplies⟩
      · rename_i started collected hcollected
        split
        · exact ⟨⟨hcache, hdisk, hsaving⟩, hbackend, htasks, hreplies⟩
        · rename_i entry hentry
          refine ⟨⟨hcache, hdisk, fun now table htable => ?_⟩, hbackend, htasks, hreplies⟩
          cases htable
          exact (hsaving started collected hcollected).insert
            (hcache key entry (unexpired_eq_some hentry))
  | saveEnd outcome =>
      simp only [nodeStep, onServer, step, saveEnd]
      split
      · exact ⟨⟨hcache, hdisk, hsaving⟩, hbackend, htasks, hreplies⟩
      · rename_i started collected hcollected
        refine ⟨⟨hcache, ?_, fun now table htable => by cases htable⟩, hbackend, htasks, hreplies⟩
        cases outcome with
        | kept => exact hdisk
        | swapped => exact hsaving started collected hcollected
        | truncated => exact .empty
  | restart =>
      refine ⟨⟨hdisk.unexpired s.server.now, hdisk, fun now table htable => by cases htable⟩, G.init,
        fun task htask => ?_, hreplies⟩
      cases htask

/-- What the resolver guarantees, the replies guarantee: in every run, whatever comes between its events,
the reply to one question of a type that the library knows is a result of the resolver for that question,
tailored to the request, or a challenge, or a drop; a SERVFAIL means that the resolver failed, that a `bogus`
result was withheld, or that a message could not be encoded. -/
theorem guaranteed_replies (hlossless : env.server.Lossless)
    (hformat : KeyFormat env.server.platform known) {events : List (NodeEvent U)}
    (hallowed : ∀ event ∈ events, event.Allowed allowed) :
    ∀ reply ∈ (nodeRun env events).replies, ∀ query, reply.1.message.queries = [query] →
      known query.queryType → RepliedFrom G env.server reply.1.message query reply.2 := by
  have hrun : ServiceInvariant G known (nodeRun env events) :=
    @Along.invariant _ _ (nodeStep env) (fun _ event => event.Allowed allowed) (ServiceInvariant G known)
      (fun s event h hevent => nodeStep_from hlossless hformat h hevent) _ ServiceInvariant.init _
      (Along.of_forall hallowed _)
  exact hrun.replies

end Runs

/-! ### The results themselves -/

/-- Every backend guarantees that its results are its results, up to the letter case of the question. -/
def Backend.results (backend : Backend U R) : Guarantee backend fun _ => True where
  inv _ := True
  found query msg status := ∃ upstream name r, name.path = query.name.path ∧
    (backend.work upstream name query.queryType r).1 = some (some (msg, status))
  failed query := ∃ upstream name r, name.path = query.name.path ∧
    (backend.work upstream name query.queryType r).1 = some none
  init := trivial
  keeps _ _ := trivial
  found_of_work _ _ h := ⟨_, _, _, rfl, h⟩
  failed_of_work _ _ h := ⟨_, _, _, rfl, h⟩
  found_congr := by
    rintro q q' msg status hname htype ⟨upstream, name, r, hpath, hwork⟩
    rw [htype] at hwork
    exact ⟨upstream, name, r, hpath.trans hname, hwork⟩
  failed_congr := by
    rintro q q' hname htype ⟨upstream, name, r, hpath, hwork⟩
    rw [htype] at hwork
    exact ⟨upstream, name, r, hpath.trans hname, hwork⟩

/-- **The server makes nothing up.**  In every run, over any backend: the reply to one question of a type that
the library knows is a challenge, a drop, a SERVFAIL for a reason, or the tailored form of a message that the
backend returned for the same question, whether it comes from the resolver, the cache, the cache file, a
revalidation or pre-warming. -/
theorem replies_from_results {env : NodeEnv W U R} {known : RecordType → Prop}
    (hlossless : env.server.Lossless) (hformat : KeyFormat env.server.platform known)
    (events : List (NodeEvent U)) :
    ∀ reply ∈ (nodeRun env events).replies, ∀ query, reply.1.message.queries = [query] →
      known query.queryType →
        RepliedFrom env.backend.results env.server reply.1.message query reply.2 := by
  refine guaranteed_replies hlossless hformat fun event _ => ?_
  cases event <;> trivial

/-- Two replies to `e.c.`, the second one from the cache. -/
theorem replies_from_results_leaf :
    (nodeRun sampleNode (leafEvents flaggedClient)).replies.length = 2 ∧
      ∀ reply ∈ (nodeRun sampleNode (leafEvents flaggedClient)).replies, ∀ query,
        reply.1.message.queries = [query] → plainKnown query.queryType →
          RepliedFrom sampleNode.backend.results sampleNode.server reply.1.message query reply.2 :=
  ⟨by decide +kernel, replies_from_results sampleServer_lossless plain_keyFormat
    (leafEvents flaggedClient)⟩

end Engine
end UnifiedDns
