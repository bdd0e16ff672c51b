import UnifiedDns.Engine.ClientFlags

/-!
# One call of `process_dns_query`

From the octets of a request to the outcome.  What happens elsewhere while the request waits for the
resolver does not matter to its outcome, so a call is a function of the octets and of its circumstances.

* `Circumstances`, `processDnsQuery` — the call.
* `nodeRun_replies` — every reply of a run of the machine is the outcome of such a call.
-/

namespace UnifiedDns
namespace Engine

open Dnssec (DnssecStatus)

/-- What a call finds: the shared state when it begins, and what the resolver and the validator will
return if it comes to them. -/
structure Circumstances (W : Type) where
  protocol : Protocol
  clientIp : IpAddr
  nowMillis : Nat
  limiter : RateLimiter
  server : ServerState W
  result : Option (Message × DnssecStatus)

variable {W U R : Type}

/-- What the rate limiter says of a question. -/
def Circumstances.verdict (config : LimiterConfig) (c : Circumstances W) (query : Query) : RrlAction :=
  (checkQuery config c.nowMillis c.protocol c.clientIp query.name query.queryType c.limiter).1

/-- The request with the verdict on its question. -/
def Circumstances.request (config : LimiterConfig) (c : Circumstances W) (message : Message)
    (query : Query) : Request :=
  ⟨⟨message, c.protocol, c.clientIp⟩, c.verdict config query⟩

/-- `process_dns_query`. -/
def processDnsQuery (env : ServerEnv W) (config : LimiterConfig) (c : Circumstances W) (reqWire : W) :
    ProcessOutcome W :=
  match env.decode reqWire with
  | none => .malformed
  | some message =>
      match message.queries with
      | [query] =>
          let req := c.request config message query
          match receive env req c.server with
          | (some outcome, _) => outcome
          | (none, s) => (finishForeground env req query c.server.now c.result s).1
      | _ => .malformed

/-- The octets an outcome sends; the empty buffer is no message. -/
def ProcessOutcome.wire : ProcessOutcome W → Option W
  | .success wire => some wire
  | .servFail wire => wire
  | .truncated wire => wire
  | .dropped => none
  | .malformed => none

/-! ### Calls in a run -/

section Calls

variable {env : ServerEnv W}

/-- A waiting request has come through the first half of a call. -/
def Task.Called (env : ServerEnv W) (config : LimiterConfig) : Task → Prop
  | .foreground req query now =>
      ∃ c : Circumstances W, req = c.request config req.message query ∧ req.message.queries = [query] ∧
        c.server.now = now ∧ (receive env req c.server).1 = none
  | .revalidation _ => True
  | .prewarm _ => True

/-- The reply is the outcome of a call on the octets of its request. -/
def Called (env : ServerEnv W) (config : LimiterConfig)
    (reply : ClientRequest × ProcessOutcome W) : Prop :=
  ∃ c : Circumstances W, c.protocol = reply.1.protocol ∧ c.clientIp = reply.1.clientIp ∧
    ∀ wire, env.decode wire = some reply.1.message → processDnsQuery env config c wire = reply.2

theorem spawnRevalidation_tasks (query : Query) (s : ServerState W) :
    ∀ task ∈ (spawnRevalidation env query s).tasks, task ∈ s.tasks ∨ task = .revalidation query := by
  intro task htask
  unfold spawnRevalidation at htask
  split at htask
  · exact Or.inl htask
  · rcases List.mem_append.mp htask with hold | hnew
    · exact Or.inl hold
    · exact Or.inr (List.mem_singleton.mp hnew)

theorem spawnRevalidation_now (query : Query) (s : ServerState W) :
    (spawnRevalidation env query s).now = s.now := by
  unfold spawnRevalidation
  split <;> rfl

/-- Serving an entry changes nothing but the log. -/
theorem serveEntry_state {req : Request} {query : Query} {entry : CacheEntry W}
    {s s' : ServerState W} {outcome : ProcessOutcome W}
    (h : serveEntry env req query entry s = some (outcome, s')) :
    ∃ log, s' = { s with cacheReplies := log } := by
  unfold serveEntry at h
  split at h
  · cases h
  · simp only at h
    split at h
    · cases h
    · split at h
      · cases h
        exact ⟨_, rfl⟩
      · cases h
        exact ⟨_, rfl⟩

theorem serveEntry_tasks {req : Request} {query : Query} {entry : CacheEntry W}
    {s s' : ServerState W} {outcome : ProcessOutcome W}
    (h : serveEntry env req query entry s = some (outcome, s')) : s'.tasks = s.tasks := by
  obtain ⟨log, rfl⟩ := serveEntry_state h
  rfl

/-- A lookup adds a revalidation at most, and the request itself when it brings no outcome. -/
theorem lookupCache_tasks (req : Request) (query : Query) (s : ServerState W) :
    ∀ task ∈ (lookupCache env req query s).2.tasks, task ∈ s.tasks ∨ task = .revalidation query ∨
      ((lookupCache env req query s).1 = none ∧ task = .foreground req query s.now) := by
  have hmiss : ∀ task ∈ (missCache req query s).tasks,
      task ∈ s.tasks ∨ task = .foreground req query s.now := by
    intro task htask
    rcases List.mem_append.mp htask with hold | hnew
    · exact Or.inl hold
    · exact Or.inr (List.mem_singleton.mp hnew)
  unfold lookupCache
  split
  · intro task htask
    exact (hmiss task htask).imp id fun h => Or.inr ⟨rfl, h⟩
  · rename_i entry _
    simp only
    split
    · intro task htask
      exact (hmiss task htask).imp id fun h => Or.inr ⟨rfl, h⟩
    · -- The state in which the entry is served.
      generalize hserved : (if entry.freshnessAt s.now env.maxStale = .stale then
        spawnRevalidation env query s else s) = served
      have hold : ∀ task ∈ served.tasks, task ∈ s.tasks ∨ task = .revalidation query := by
        rw [← hserved]
        split
        · exact spawnRevalidation_tasks query s
        · exact fun task htask => Or.inl htask
      have hnow : served.now = s.now := by
        rw [← hserved]
        split
        · exact spawnRevalidation_now query s
        · rfl
      split
      · rename_i heq
        rw [serveEntry_tasks heq]
        exact fun task htask => (hold task htask).imp id Or.inl
      · intro task htask
        rcases List.mem_append.mp htask with hbefore | hnew
        · exact (hold task hbefore).imp id Or.inl
        · exact Or.inr (Or.inr ⟨rfl, hnow ▸ List.mem_singleton.mp hnew⟩)

theorem receive_tasks {req : Request} {query : Query} (hquestion : req.message.queries = [query])
    (s : ServerState W) :
    ∀ task ∈ (receive env req s).2.tasks, task ∈ s.tasks ∨ task = .revalidation query ∨
      ((receive env req s).1 = none ∧ task = .foreground req query s.now) := by
  unfold receive
  rw [hquestion]
  simp only
  split
  · exact fun task htask => Or.inl htask
  · exact fun task htask => Or.inl htask
  · exact lookupCache_tasks req query s

theorem insertResolved_tasks (query : Query) (msg : Message) (status : DnssecStatus) (now : Nat)
    (s : ServerState W) : (insertResolved env query msg status now s).tasks = s.tasks := by
  unfold insertResolved
  split <;> rfl

/-- The end of a task leaves the tasks that wait alone. -/
theorem finish_tasks (task : Task) (result : Option (Message × DnssecStatus)) (s : ServerState W) :
    (finish env task result s).2.tasks = s.tasks := by
  cases task with
  | foreground req query now =>
      show (finishForeground env req query now result s).2.tasks = s.tasks
      rw [finishForeground_state]
      split
      · rfl
      · split
        · exact insertResolved_tasks query _ _ now s
        · rfl
  | revalidation query =>
      show (applyRevalidation env query result s).tasks = s.tasks
      unfold applyRevalidation
      split
      · rfl
      · split
        · rfl
        · split
          · exact insertResolved_tasks query _ _ s.now s
          · unfold touchEntry
            split <;> rfl
  | prewarm query =>
      show (finishPrewarm env query result s).tasks = s.tasks
      unfold finishPrewarm
      split
      · rfl
      · split
        · rfl
        · split
          · rfl
          · exact insertResolved_tasks query _ _ s.now s

end Calls

section Runs

variable {env : NodeEnv W U R}

/-- The replies are outcomes of calls, and the waiting requests are in the middle of one. -/
structure CalledNode (env : NodeEnv W U R) (s : NodeState W R) : Prop where
  tasks : ∀ task ∈ s.server.tasks, task.Called env.server env.limiter
  replies : ∀ reply ∈ s.replies, Called env.server env.limiter reply

/-- A request that gets its outcome at once, or is left in the middle of the call. -/
theorem receive_called (config : LimiterConfig) (env : ServerEnv W) {client : ClientRequest}
    {query : Query} (hquestion : client.message.queries = [query]) (c : Circumstances W)
    (hprotocol : c.protocol = client.protocol) (hclientIp : c.clientIp = client.clientIp) :
    (∀ outcome, (receive env (c.request config client.message query) c.server).1 = some outcome →
      Called env config (client, outcome)) ∧
    ((receive env (c.request config client.message query) c.server).1 = none →
      (Task.foreground (c.request config client.message query) query c.server.now).Called env config) := by
  refine ⟨fun outcome houtcome => ⟨c, hprotocol, hclientIp, fun wire hwire => ?_⟩,
    fun hnone => ⟨c, rfl, hquestion, rfl, hnone⟩⟩
  unfold processDnsQuery
  simp only [hwire, hquestion]
  split
  · rename_i heq
    rw [heq] at houtcome
    exact Option.some.inj houtcome
  · rename_i heq
    rw [heq] at houtcome
    cases houtcome

/-- The end of a waiting request is the second half of its call. -/
theorem finish_called (config : LimiterConfig) (env : ServerEnv W) {req : Request} {query : Query}
    {now : Nat} (h : (Task.foreground req query now).Called env config)
    (result : Option (Message × DnssecStatus)) (s : ServerState W) :
    Called env config (req.toClientRequest, (finishForeground env req query now result s).1) := by
  obtain ⟨c, hreq, hquestion, hnow, hwaits⟩ := h
  refine ⟨{ c with result := result }, ?_, ?_, ?_⟩
  · rw [hreq]
    rfl
  · rw [hreq]
    rfl
  · intro wire hwire
    have hsame : ({ c with result := result } : Circumstances W).request config req.message query =
        req := hreq.symm
    unfold processDnsQuery
    simp only [hwire, hquestion, hsame]
    split
    · rename_i heq
      rw [heq] at hwaits
      cases hwaits
    · rw [hnow]
      exact finishForeground_outcome req query now result _ s

theorem logReply_called {config : LimiterConfig} {server : ServerEnv W} (client : ClientRequest)
    (outcome : Option (ProcessOutcome W)) {replies : List (ClientRequest × ProcessOutcome W)}
    (hreplies : ∀ reply ∈ replies, Called server config reply)
    (houtcome : ∀ o, outcome = some o → Called server config (client, o)) :
    ∀ reply ∈ logReply client outcome replies, Called server config reply := by
  cases outcome with
  | none => exact hreplies
  | some o => exact List.forall_mem_cons.mpr ⟨houtcome o rfl, hreplies⟩

theorem receiveRequest_called {s : NodeState W R} (h : CalledNode env s) (client : ClientRequest)
    (nowMillis : Nat) : CalledNode env (receiveRequest env client nowMillis s) := by
  unfold receiveRequest
  split
  · rename_i query hquestion
    -- The circumstances are those of the state; no result is looked at yet.
    obtain ⟨houtcome, hwaits⟩ := receive_called env.limiter env.server hquestion
      ⟨client.protocol, client.clientIp, nowMillis, s.limiter, s.server, none⟩ rfl rfl
    constructor
    · intro task htask
      rcases receive_tasks hquestion s.server task htask with hold | rfl | ⟨hnone, rfl⟩
      · exact h.tasks task hold
      · trivial
      · exact hwaits hnone
    · exact logReply_called client _ h.replies houtcome
  · rename_i hquestions
    refine ⟨h.tasks, logReply_called client (some .malformed) h.replies ?_⟩
    rintro o ⟨⟩
    refine ⟨⟨client.protocol, client.clientIp, nowMillis, s.limiter, s.server, none⟩, rfl, rfl,
      fun wire hwire => ?_⟩
    unfold processDnsQuery
    simp only [hwire]

theorem workOn_called {s : NodeState W R} (h : CalledNode env s) (index : Nat) (upstream : U) :
    CalledNode env (workOn env index upstream s) := by
  unfold workOn
  split
  · exact h
  · rename_i task htask
    split
    · exact ⟨h.tasks, h.replies⟩
    · rename_i result _ _
      have hcalled : task.Called env.server env.limiter :=
        h.tasks task (List.mem_of_getElem? htask)
      constructor
      · simp only
        rw [finish_tasks]
        exact fun waiting hwaiting => h.tasks waiting (List.mem_of_mem_eraseIdx hwaiting)
      · cases task with
        | foreground req query now =>
            refine logReply_called req.toClientRequest (some _) h.replies ?_
            rintro o ⟨⟩
            exact finish_called env.limiter env.server hcalled result _
        | revalidation query => exact h.replies
        | prewarm query => exact h.replies

/-- A step of the server that adds at most pre-warming tasks. -/
theorem onServer_called {s : NodeState W R} (h : CalledNode env s) (event : Event)
    (htasks : ∀ task ∈ (step env.server event s.server).tasks,
      task ∈ s.server.tasks ∨ ∃ query, task = .prewarm query) :
    CalledNode env (onServer env event s) := by
  refine ⟨fun task htask => ?_, h.replies⟩
  rcases htasks task htask with hold | ⟨query, rfl⟩
  · exact h.tasks task hold
  · trivial

theorem nodeStep_called {s : NodeState W R} (h : CalledNode env s) (event : NodeEvent U) :
    CalledNode env (nodeStep env s event) := by
  cases event with
  | wait seconds => exact onServer_called h (.wait seconds) fun task htask => Or.inl htask
  | receive client nowMillis => exact receiveRequest_called h client nowMillis
  | work index upstream => exact workOn_called h index upstream
  | prewarm name rtype =>
      refine onServer_called h (.prewarm name rtype) fun task htask => ?_
      simp only [step] at htask
      split at htask
      · exact Or.inl htask
      · rcases List.mem_append.mp htask with hold | hnew
        · exact Or.inl hold
        · exact Or.inr ⟨_, List.mem_singleton.mp hnew⟩
  | cleanup nowMillis maxAgeMillis => exact ⟨h.tasks, h.replies⟩
  | saveStart => exact onServer_called h .saveStart fun task htask => Or.inl htask
  | saveItem key =>
      refine onServer_called h (.saveItem key) fun task htask => Or.inl ?_
      simp only [step, saveItem] at htask
      split at htask
      · exact htask
      · split at htask
        · exact htask
        · exact htask
  | saveEnd outcome =>
      refine onServer_called h (.saveEnd outcome) fun task htask => Or.inl ?_
      simp only [step, saveEnd] at htask
      split at htask
      · exact htask
      · exact htask
  | restart => exact ⟨fun task htask => absurd htask List.not_mem_nil, h.replies⟩

/-- Every reply of a run is the outcome of a call on its request. -/
theorem nodeRun_replies (env : NodeEnv W U R) (events : List (NodeEvent U)) :
    ∀ reply ∈ (nodeRun env events).replies, Called env.server env.limiter reply := by
  have hrun : ∀ (rest : List (NodeEvent U)) (s : NodeState W R), CalledNode env s →
      CalledNode env (rest.foldl (nodeStep env) s) := by
    intro rest
    induction rest with
    | nil => exact fun s h => h
    | cons event rest ih => exact fun s h => ih _ (nodeStep_called h event)
  have hinit : CalledNode env (.init env) :=
    ⟨fun task htask => absurd htask List.not_mem_nil,
      fun reply hreply => absurd hreply List.not_mem_nil⟩
  exact (hrun events _ hinit).replies

end Runs

end Engine
end UnifiedDns
