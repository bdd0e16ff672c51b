import Mathlib.Data.List.Forall2
import UnifiedDns.Engine.CacheSafety
import UnifiedDns.Engine.Node
import UnifiedDns.Recursor.DelegationCache

/-!
# What one client says of itself does not reach another

Two runs of the server get the same questions from the same addresses over the same transports, while the
rest of every request (identifier, flags, EDNS) may differ from run to run.

* `SameQuestion`, `SameEvent` — what the runs have in common.
* `SameServer`, `SameNode` — the states the runs are in: everything that is shared between clients is
  equal, and the waiting tasks and the replies are in step.
* `nodeRun_same` — the runs stay in such states.
-/

namespace UnifiedDns
namespace Engine

open Dnssec (DnssecStatus)

/-! ### Lists in step -/

section Lists

variable {α : Type} {rel : α → α → Prop} {xs ys : List α}

theorem forall₂_getElem? (h : List.Forall₂ rel xs ys) (i : Nat) :
    Option.Rel rel xs[i]? ys[i]? := by
  induction h generalizing i with
  | nil => exact .none
  | cons hhead _ ih =>
      cases i with
      | zero => exact .some hhead
      | succ i => exact ih i

theorem forall₂_eraseIdx (h : List.Forall₂ rel xs ys) (i : Nat) :
    List.Forall₂ rel (xs.eraseIdx i) (ys.eraseIdx i) := by
  induction h generalizing i with
  | nil => exact .nil
  | cons hhead htail ih =>
      cases i with
      | zero => exact htail
      | succ i => exact .cons hhead (ih i)

end Lists

/-! ### The two runs -/

variable {W U R : Type}

/-- Every message can be encoded. -/
def ServerEnv.Encodes (env : ServerEnv W) : Prop := ∀ msg, (env.encode msg).isSome

/-- Two requests with the same question, from one address over one transport. -/
structure SameQuestion (c₁ c₂ : ClientRequest) : Prop where
  protocol : c₁.protocol = c₂.protocol
  clientIp : c₁.clientIp = c₂.clientIp
  queries : c₁.message.queries = c₂.message.queries

/-- The events of the two runs: requests may differ beside the question. -/
inductive SameEvent : NodeEvent U → NodeEvent U → Prop
  | receive {c₁ c₂ : ClientRequest} (h : SameQuestion c₁ c₂) (nowMillis : Nat) :
      SameEvent (.receive c₁ nowMillis) (.receive c₂ nowMillis)
  | same (event : NodeEvent U) : SameEvent event event

/-- Two requests with the same question and the same verdict of the rate limiter. -/
structure SameRequest (r₁ r₂ : Request) : Prop where
  client : SameQuestion r₁.toClientRequest r₂.toClientRequest
  action : r₁.action = r₂.action

inductive SameTask : Task → Task → Prop
  | foreground {r₁ r₂ : Request} (h : SameRequest r₁ r₂) (query : Query) (now : Nat) :
      SameTask (.foreground r₁ query now) (.foreground r₂ query now)
  | revalidation (query : Query) : SameTask (.revalidation query) (.revalidation query)
  | prewarm (query : Query) : SameTask (.prewarm query) (.prewarm query)

/-- The outcomes of two requests: equal if the requests are. -/
structure SameOutcome (c₁ c₂ : ClientRequest) (o₁ o₂ : Option (ProcessOutcome W)) : Prop where
  isSome : o₁.isSome = o₂.isSome
  eq_of_eq : c₁ = c₂ → o₁ = o₂

/-- A logged reply of each run. -/
structure SameReply (a b : ClientRequest × ProcessOutcome W) : Prop where
  client : SameQuestion a.1 b.1
  eq_of_eq : a.1 = b.1 → a.2 = b.2

/-- The shared states of the two runs. -/
structure SameServer (s₁ s₂ : ServerState W) : Prop where
  now : s₁.now = s₂.now
  cache : s₁.cache = s₂.cache
  inFlight : s₁.inFlight = s₂.inFlight
  disk : s₁.disk = s₂.disk
  saving : s₁.saving = s₂.saving
  tasks : List.Forall₂ SameTask s₁.tasks s₂.tasks

structure SameNode (s₁ s₂ : NodeState W R) : Prop where
  server : SameServer s₁.server s₂.server
  limiter : s₁.limiter = s₂.limiter
  backend : s₁.backend = s₂.backend
  replies : List.Forall₂ SameReply s₁.replies s₂.replies

theorem SameRequest.eq {r₁ r₂ : Request} (h : SameRequest r₁ r₂)
    (hclient : r₁.toClientRequest = r₂.toClientRequest) : r₁ = r₂ := by
  cases r₁
  cases r₂
  cases hclient
  cases h.action
  rfl

theorem SameTask.query {t₁ t₂ : Task} (h : SameTask t₁ t₂) : t₁.query = t₂.query := by
  cases h with
  | foreground _ query now => rfl
  | revalidation query => rfl
  | prewarm query => rfl

theorem SameOutcome.some {c₁ c₂ : ClientRequest} {o₁ o₂ : ProcessOutcome W}
    (h : c₁ = c₂ → o₁ = o₂) : SameOutcome c₁ c₂ (some o₁) (some o₂) :=
  ⟨rfl, fun heq => congrArg _ (h heq)⟩

theorem SameOutcome.none {c₁ c₂ : ClientRequest} :
    SameOutcome (W := W) c₁ c₂ none none :=
  ⟨rfl, fun _ => rfl⟩

theorem logReply_same {c₁ c₂ : ClientRequest} {o₁ o₂ : Option (ProcessOutcome W)}
    {l₁ l₂ : List (ClientRequest × ProcessOutcome W)} (hclient : SameQuestion c₁ c₂)
    (houtcome : SameOutcome c₁ c₂ o₁ o₂) (h : List.Forall₂ SameReply l₁ l₂) :
    List.Forall₂ SameReply (logReply c₁ o₁ l₁) (logReply c₂ o₂ l₂) := by
  have hsome := houtcome.isSome
  cases o₁ with
  | none =>
      cases o₂ with
      | none => exact h
      | some o₂ => cases hsome
  | some o₁ =>
      cases o₂ with
      | none => cases hsome
      | some o₂ =>
          exact .cons ⟨hclient, fun heq => Option.some.inj (houtcome.eq_of_eq heq)⟩ h

/-! ### Steps on equal questions -/

section Steps

variable {env : ServerEnv W} {s₁ s₂ : ServerState W}

theorem SameServer.addTask (h : SameServer s₁ s₂) {t₁ t₂ : Task} (htask : SameTask t₁ t₂) :
    SameServer { s₁ with tasks := s₁.tasks ++ [t₁] } { s₂ with tasks := s₂.tasks ++ [t₂] } :=
  { h with tasks := List.rel_append h.tasks (.cons htask .nil) }

theorem insertResolved_same (h : SameServer s₁ s₂) (query : Query) (msg : Message)
    (status : DnssecStatus) (now : Nat) :
    SameServer (insertResolved env query msg status now s₁)
      (insertResolved env query msg status now s₂) := by
  unfold insertResolved
  cases env.encode msg with
  | none => exact h
  | some wire => exact { h with cache := congrArg (TextMap.insert · _ _) h.cache }

theorem missCache_same {r₁ r₂ : Request} (hreq : SameRequest r₁ r₂) (query : Query)
    (h : SameServer s₁ s₂) : SameServer (missCache r₁ query s₁) (missCache r₂ query s₂) := by
  have htask : SameTask (.foreground r₁ query s₁.now) (.foreground r₂ query s₂.now) := by
    rw [h.now]
    exact .foreground hreq query s₂.now
  exact h.addTask htask

theorem spawnRevalidation_same (query : Query) (h : SameServer s₁ s₂) :
    SameServer (spawnRevalidation env query s₁) (spawnRevalidation env query s₂) := by
  unfold spawnRevalidation
  rw [h.inFlight]
  cases s₂.inFlight (queryKey env query) with
  | some _ => exact h
  | none => exact { h.addTask (.revalidation query) with inFlight := rfl }

/-- Whether an entry is served depends on its octets alone, and serving it changes nothing but the log. -/
theorem serveEntry_cases (hencodes : env.Encodes) (req : Request) (query : Query)
    (entry : CacheEntry W) (s : ServerState W) :
    (env.decode entry.rawWire = none ∧ serveEntry env req query entry s = none) ∨
      ∃ msg outcome log, env.decode entry.rawWire = some msg ∧
        serveEntry env req query entry s = some (outcome, { s with cacheReplies := log }) := by
  unfold serveEntry
  split
  · exact Or.inl ⟨by assumption, rfl⟩
  · rename_i msg hmsg
    refine Or.inr ?_
    simp only
    split
    · rename_i hnone
      have hsome := hencodes (constructClientResponse msg query.queryType entry.dnssecStatus
        (entry.freshnessAt s.now env.maxStale) entry.cachedAt req.message (clientEdns req.message).1
        (clientEdns req.message).2 s.now)
      rw [hnone] at hsome
      cases hsome
    · split
      · exact ⟨msg, _, s.cacheReplies, hmsg, rfl⟩
      · exact ⟨msg, _, _, hmsg, rfl⟩

/-- The outcome depends on the request, the entry and the time. -/
theorem serveEntry_outcome (hnow : s₁.now = s₂.now) (req : Request) (query : Query)
    (entry : CacheEntry W) :
    (serveEntry env req query entry s₁).map Prod.fst =
      (serveEntry env req query entry s₂).map Prod.fst := by
  unfold serveEntry
  rw [hnow]
  cases env.decode entry.rawWire with
  | none => rfl
  | some msg =>
      simp only
      split
      · rfl
      · split <;> rfl

/-- The end of the cache hit path. -/
def serveOrMiss (env : ServerEnv W) (req : Request) (query : Query) (entry : CacheEntry W)
    (s : ServerState W) : Option (ProcessOutcome W) × ServerState W :=
  match serveEntry env req query entry s with
  | some (outcome, s) => (some outcome, s)
  | none => (none, missCache req query s)

theorem lookupCache_hit (req : Request) (query : Query) {entry : CacheEntry W} {s : ServerState W}
    (hentry : s.cache (queryKey env query) = some entry)
    (hfresh : entry.freshnessAt s.now env.maxStale ≠ .expired) :
    lookupCache env req query s = serveOrMiss env req query entry
      (if entry.freshnessAt s.now env.maxStale = .stale then spawnRevalidation env query s
        else s) := by
  unfold lookupCache
  simp only [hentry, if_neg hfresh]
  rfl

theorem serveOrMiss_same (hencodes : env.Encodes) {r₁ r₂ : Request} (hreq : SameRequest r₁ r₂)
    (query : Query) (entry : CacheEntry W) (h : SameServer s₁ s₂) :
    SameServer (serveOrMiss env r₁ query entry s₁).2 (serveOrMiss env r₂ query entry s₂).2 ∧
      SameOutcome r₁.toClientRequest r₂.toClientRequest (serveOrMiss env r₁ query entry s₁).1
        (serveOrMiss env r₂ query entry s₂).1 := by
  unfold serveOrMiss
  obtain ⟨hmsg₁, hserve₁⟩ | ⟨msg₁, o₁, log₁, hmsg₁, hserve₁⟩ :=
    serveEntry_cases hencodes r₁ query entry s₁ <;>
  obtain ⟨hmsg₂, hserve₂⟩ | ⟨msg₂, o₂, log₂, hmsg₂, hserve₂⟩ :=
    serveEntry_cases hencodes r₂ query entry s₂
  · rw [hserve₁, hserve₂]
    exact ⟨missCache_same hreq query h, .none⟩
  · cases hmsg₁.symm.trans hmsg₂
  · cases hmsg₁.symm.trans hmsg₂
  · rw [hserve₁, hserve₂]
    refine ⟨{ h with }, .some fun hclient => ?_⟩
    have houtcome : (serveEntry env r₁ query entry s₁).map Prod.fst =
        (serveEntry env r₁ query entry s₂).map Prod.fst := serveEntry_outcome h.now r₁ query entry
    rw [hserve₁, hreq.eq hclient, hserve₂] at houtcome
    exact Option.some.inj houtcome

theorem lookupCache_same (hencodes : env.Encodes) {r₁ r₂ : Request} (hreq : SameRequest r₁ r₂)
    (query : Query) (h : SameServer s₁ s₂) :
    SameServer (lookupCache env r₁ query s₁).2 (lookupCache env r₂ query s₂).2 ∧
      SameOutcome r₁.toClientRequest r₂.toClientRequest (lookupCache env r₁ query s₁).1
        (lookupCache env r₂ query s₂).1 := by
  have hmiss := missCache_same hreq query h
  cases hentry : s₁.cache (queryKey env query) with
  | none =>
      have hentry₂ : s₂.cache (queryKey env query) = none := h.cache ▸ hentry
      unfold lookupCache
      rw [hentry, hentry₂]
      exact ⟨hmiss, .none⟩
  | some entry =>
      have hentry₂ : s₂.cache (queryKey env query) = some entry := h.cache ▸ hentry
      by_cases hexpired : entry.freshnessAt s₁.now env.maxStale = .expired
      · have hexpired₂ : entry.freshnessAt s₂.now env.maxStale = .expired := h.now ▸ hexpired
        unfold lookupCache
        simp only [hentry, hentry₂, if_pos hexpired, if_pos hexpired₂]
        exact ⟨hmiss, .none⟩
      · have hexpired₂ : entry.freshnessAt s₂.now env.maxStale ≠ .expired := h.now ▸ hexpired
        rw [lookupCache_hit r₁ query hentry hexpired, lookupCache_hit r₂ query hentry₂ hexpired₂,
          h.now]
        by_cases hstale : entry.freshnessAt s₂.now env.maxStale = .stale
        · simp only [if_pos hstale]
          exact serveOrMiss_same hencodes hreq query entry (spawnRevalidation_same query h)
        · simp only [if_neg hstale]
          exact serveOrMiss_same hencodes hreq query entry h

theorem receive_same (hencodes : env.Encodes) {r₁ r₂ : Request} (hreq : SameRequest r₁ r₂)
    (h : SameServer s₁ s₂) :
    SameServer (receive env r₁ s₁).2 (receive env r₂ s₂).2 ∧
      SameOutcome r₁.toClientRequest r₂.toClientRequest (receive env r₁ s₁).1
        (receive env r₂ s₂).1 := by
  -- A reply that leaves the state alone is a function of the request.
  have hreply : ∀ reply : Request → ProcessOutcome W,
      SameOutcome r₁.toClientRequest r₂.toClientRequest (some (reply r₁)) (some (reply r₂)) :=
    fun reply => .some fun hclient => congrArg reply (hreq.eq hclient)
  unfold receive
  rw [hreq.client.queries, hreq.action]
  split
  · rename_i query _
    cases r₂.action with
    | truncate =>
        exact ⟨h, hreply fun r => .truncated (env.encode (truncatedResponse r.message.id query))⟩
    | drop => exact ⟨h, hreply fun _ => .dropped⟩
    | allow => exact lookupCache_same hencodes hreq query h
  · exact ⟨h, hreply fun _ => .malformed⟩

/-- What a foreground task leaves behind does not depend on its request: a `bogus` message is never
stored. -/
theorem finishForeground_state (req : Request) (query : Query) (now : Nat)
    (result : Option (Message × DnssecStatus)) (s : ServerState W) :
    (finishForeground env req query now result s).2 =
      match result with
      | none => s
      | some (msg, status) =>
          if isCacheable (canonicalResponse msg status) && isCacheableDnssec status then
            insertResolved env query (canonicalResponse msg status) status now s
          else s := by
  unfold finishForeground
  cases result with
  | none => rfl
  | some judged =>
      obtain ⟨msg, status⟩ := judged
      simp only
      split
      · rename_i hbogus
        obtain ⟨rfl, -⟩ := hbogus
        simp [isCacheableDnssec]
      · split
        · rfl
        · split <;> rfl

/-- The reply of a foreground task is made of its request and its result. -/
theorem finishForeground_outcome (req : Request) (query : Query) (now : Nat)
    (result : Option (Message × DnssecStatus)) (s₁ s₂ : ServerState W) :
    (finishForeground env req query now result s₁).1 =
      (finishForeground env req query now result s₂).1 := by
  unfold finishForeground
  cases result with
  | none => rfl
  | some judged =>
      obtain ⟨msg, status⟩ := judged
      simp only
      split
      · rfl
      · split
        · rfl
        · split <;> rfl

theorem applyRevalidation_same (query : Query) (result : Option (Message × DnssecStatus))
    (h : SameServer s₁ s₂) :
    SameServer (applyRevalidation env query result s₁) (applyRevalidation env query result s₂) := by
  unfold applyRevalidation
  cases result with
  | none => exact h
  | some judged =>
      obtain ⟨msg, status⟩ := judged
      simp only
      split
      · exact h
      · split
        · rw [h.now]
          exact insertResolved_same h query (canonicalResponse msg status) status s₂.now
        · unfold touchEntry
          rw [h.cache]
          cases s₂.cache (queryKey env query) with
          | none => exact h
          | some entry =>
              simp only [h.now]
              exact { h with now := rfl, cache := rfl }

theorem finishPrewarm_same (query : Query) (result : Option (Message × DnssecStatus))
    (h : SameServer s₁ s₂) :
    SameServer (finishPrewarm env query result s₁) (finishPrewarm env query result s₂) := by
  unfold finishPrewarm
  cases result with
  | none => exact h
  | some judged =>
      obtain ⟨msg, status⟩ := judged
      simp only
      split
      · exact h
      · split
        · exact h
        · rw [h.now]
          exact insertResolved_same h query (prewarmResponse msg status) status s₂.now

/-- The ends of two tasks in step: the states stay in step, and so do the replies. -/
theorem finish_same {t₁ t₂ : Task} (htask : SameTask t₁ t₂)
    (result : Option (Message × DnssecStatus)) (h : SameServer s₁ s₂)
    {l₁ l₂ : List (ClientRequest × ProcessOutcome W)} (hreplies : List.Forall₂ SameReply l₁ l₂) :
    SameServer (finish env t₁ result s₁).2 (finish env t₂ result s₂).2 ∧
      List.Forall₂ SameReply (logTask t₁ (finish env t₁ result s₁).1 l₁)
        (logTask t₂ (finish env t₂ result s₂).1 l₂) := by
  cases htask with
  | @foreground r₁ r₂ hreq query now =>
      constructor
      · show SameServer (finishForeground env r₁ query now result s₁).2
          (finishForeground env r₂ query now result s₂).2
        rw [finishForeground_state, finishForeground_state]
        cases result with
        | none => exact h
        | some judged =>
            simp only
            split
            · exact insertResolved_same h query _ _ now
            · exact h
      · refine logReply_same hreq.client (.some fun hclient => ?_) hreplies
        rw [hreq.eq hclient]
        exact finishForeground_outcome r₂ query now result s₁ s₂
  | revalidation query =>
      have happly : SameServer (applyRevalidation env query result s₁)
          (applyRevalidation env query result s₂) := applyRevalidation_same query result h
      exact ⟨{ happly with inFlight := congrArg (TextMap.remove · _) happly.inFlight }, hreplies⟩
  | prewarm query => exact ⟨finishPrewarm_same query result h, hreplies⟩

/-- Events that are no requests. -/
theorem wait_same (seconds : Nat) (h : SameServer s₁ s₂) :
    SameServer (step env (.wait seconds) s₁) (step env (.wait seconds) s₂) :=
  { h with now := congrArg (· + seconds) h.now }

theorem prewarm_same (name : Name) (rtype : RecordType) (h : SameServer s₁ s₂) :
    SameServer (step env (.prewarm name rtype) s₁) (step env (.prewarm name rtype) s₂) := by
  have hcache := congrFun h.cache (queryKey env ⟨name, rtype, .IN⟩)
  simp only [step, hcache]
  split
  · exact h
  · exact h.addTask (.prewarm _)

theorem saveItem_same (key : Text) (h : SameServer s₁ s₂) :
    SameServer (saveItem env key s₁) (saveItem env key s₂) := by
  unfold saveItem
  rw [h.saving, h.cache]
  cases s₂.saving with
  | none => exact h
  | some started =>
      simp only
      split
      · exact h
      · exact { h with cache := rfl, saving := rfl }

theorem saveEnd_same (outcome : SaveOutcome) (h : SameServer s₁ s₂) :
    SameServer (saveEnd outcome s₁) (saveEnd outcome s₂) := by
  unfold saveEnd
  rw [h.saving]
  cases s₂.saving with
  | none => exact h
  | some started =>
      simp only
      rw [h.disk]
      exact { h with disk := rfl, saving := rfl }

theorem restart_same (h : SameServer s₁ s₂) : SameServer (restart env s₁) (restart env s₂) := by
  unfold restart
  rw [h.now, h.disk]
  exact ⟨rfl, rfl, rfl, rfl, rfl, .nil⟩

end Steps

/-! ### Runs -/

section Runs

variable {env : NodeEnv W U R} {s₁ s₂ : NodeState W R}

theorem receiveRequest_same (hencodes : env.server.Encodes) {c₁ c₂ : ClientRequest}
    (hclient : SameQuestion c₁ c₂) (nowMillis : Nat) (h : SameNode s₁ s₂) :
    SameNode (receiveRequest env c₁ nowMillis s₁) (receiveRequest env c₂ nowMillis s₂) := by
  unfold receiveRequest
  rw [hclient.queries, hclient.protocol, hclient.clientIp, h.limiter]
  split
  · rename_i query _
    -- The verdict of the rate limiter is the same in both runs.
    generalize checkQuery env.limiter nowMillis c₂.protocol c₂.clientIp query.name query.queryType
      s₂.limiter = verdict
    obtain ⟨action, limiter⟩ := verdict
    have hreq : SameRequest ⟨c₁, action⟩ ⟨c₂, action⟩ := ⟨hclient, rfl⟩
    obtain ⟨hserver, houtcome⟩ := receive_same hencodes hreq h.server
    exact ⟨hserver, rfl, h.backend, logReply_same hclient houtcome h.replies⟩
  · have houtcome : SameOutcome (W := W) c₁ c₂ (some .malformed) (some .malformed) :=
      .some fun _ => rfl
    exact ⟨h.server, rfl, h.backend, logReply_same hclient houtcome h.replies⟩

theorem workOn_same (index : Nat) (upstream : U) (h : SameNode s₁ s₂) :
    SameNode (workOn env index upstream s₁) (workOn env index upstream s₂) := by
  have htasks := forall₂_getElem? h.server.tasks index
  unfold workOn
  cases hget₁ : s₁.server.tasks[index]? with
  | none =>
      cases hget₂ : s₂.server.tasks[index]? with
      | none => exact h
      | some t₂ => rw [hget₁, hget₂] at htasks; cases htasks
  | some t₁ =>
      cases hget₂ : s₂.server.tasks[index]? with
      | none => rw [hget₁, hget₂] at htasks; cases htasks
      | some t₂ =>
          rw [hget₁, hget₂] at htasks
          cases htasks with
          | some htask =>
              simp only
              rw [htask.query, h.backend]
              split
              · exact { h with backend := rfl }
              · rename_i result backend _
                have hrest : SameServer
                    { s₁.server with tasks := s₁.server.tasks.eraseIdx index }
                    { s₂.server with tasks := s₂.server.tasks.eraseIdx index } :=
                  { h.server with tasks := forall₂_eraseIdx h.server.tasks index }
                obtain ⟨hserver, hreplies⟩ :=
                  @finish_same W env.server _ _ _ _ htask result hrest _ _ h.replies
                exact ⟨hserver, h.limiter, rfl, hreplies⟩

theorem nodeStep_same (hencodes : env.server.Encodes) {e₁ e₂ : NodeEvent U}
    (hevent : SameEvent e₁ e₂) (h : SameNode s₁ s₂) :
    SameNode (nodeStep env s₁ e₁) (nodeStep env s₂ e₂) := by
  cases hevent with
  | receive hclient nowMillis => exact receiveRequest_same hencodes hclient nowMillis h
  | same =>
      cases e₁ with
      | wait seconds => exact { h with server := @wait_same W env.server _ _ seconds h.server }
      | receive client nowMillis =>
          exact receiveRequest_same hencodes ⟨rfl, rfl, rfl⟩ nowMillis h
      | work index upstream => exact workOn_same index upstream h
      | prewarm name rtype => exact { h with server := prewarm_same name rtype h.server }
      | cleanup nowMillis maxAgeMillis =>
          exact { h with limiter := congrArg (cleanup nowMillis maxAgeMillis) h.limiter }
      | saveStart =>
          have hsaving : some (s₁.server.now, TextMap.empty) =
              some (s₂.server.now, (TextMap.empty : TextMap (CacheEntry W))) := by
            rw [h.server.now]
          exact { h with server := { h.server with saving := hsaving } }
      | saveItem key => exact { h with server := saveItem_same key h.server }
      | saveEnd outcome => exact { h with server := saveEnd_same outcome h.server }
      | restart =>
          exact { h with server := restart_same h.server, limiter := rfl, backend := rfl }

/-- **A client's flags stay with the client.**  Two runs get the same questions from the same addresses
over the same transports, at the same times, with the same upstream servers; identifier, flags and EDNS
of every request may differ.  After all events the cache, the set of revalidations, the cache file, the
rate limiter and what the resolver keeps (the delegation cache with it) are the same, and requests that
do not differ get the same octets. -/
theorem nodeRun_same (env : NodeEnv W U R) (hencodes : env.server.Encodes)
    {events₁ events₂ : List (NodeEvent U)} (h : List.Forall₂ SameEvent events₁ events₂) :
    SameNode (nodeRun env events₁) (nodeRun env events₂) := by
  have hinit : SameNode (NodeState.init env) (NodeState.init env) :=
    ⟨⟨rfl, rfl, rfl, rfl, rfl, .nil⟩, rfl, rfl, .nil⟩
  exact List.rel_foldl (R := SameEvent) (P := SameNode)
    (fun _ _ hstate _ _ hevent => nodeStep_same hencodes hevent hstate) hinit h

end Runs

/-! ### Two clients ask for `e.c.` -/

/-- The limiter gives ten tokens a second and prints every network alike. -/
def sampleNode : NodeEnv Message Recursor.REnv (Recursor.RState × Dnssec.VState) where
  server := sampleServer
  limiter := ⟨.plain, fun _ => [], 10, 10⟩
  backend := resolverBackend sampleServer

def leafQuery : Query := ⟨Recursor.leafZone, .A, .IN⟩

def plainClient : ClientRequest :=
  ⟨{ Message.new with queries := [leafQuery] }, .udp, .v4 ⟨192, 0, 2, 1⟩⟩

/-- The same question with CD, AD, RD and EDNS. -/
def flaggedClient : ClientRequest :=
  ⟨{ Message.new with
      id := 7
      queries := [leafQuery]
      checkingDisabled := true
      recursionDesired := true
      authenticData := true
      edns := some ⟨4096, true, 0⟩ }, .udp, .v4 ⟨192, 0, 2, 1⟩⟩

/-- The second request, five seconds later, has no flags. -/
def leafEvents (first : ClientRequest) : List (NodeEvent Recursor.REnv) :=
  [.receive first 0, .work 0 Recursor.leafEnv, .wait 5, .receive plainClient 5000,
    .work 0 Recursor.leafEnv]

/-- Both requests are answered, and the delegation of `c.` is recorded. -/
theorem nodeRun_same_leaf :
    ((nodeRun sampleNode (leafEvents flaggedClient)).replies.length = 2 ∧
        ((nodeRun sampleNode (leafEvents flaggedClient)).backend.1.delegationCache
          (Platform.plain.nameKey Recursor.parentZone)).isSome = true) ∧
      SameNode (nodeRun sampleNode (leafEvents plainClient))
        (nodeRun sampleNode (leafEvents flaggedClient)) := by
  have hclient : SameQuestion plainClient flaggedClient := ⟨rfl, rfl, rfl⟩
  refine ⟨by decide +kernel, nodeRun_same sampleNode (fun _ => rfl) ?_⟩
  exact .cons (.receive hclient 0)
    (.cons (.same _) (.cons (.same _) (.cons (.same _) (.cons (.same _) .nil))))

end Engine
end UnifiedDns
