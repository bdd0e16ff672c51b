import UnifiedDns.Engine.RateLimit
import UnifiedDns.Engine.Server
import UnifiedDns.Recursor.Resolver

/-!
# The server with its rate limiter and resolver

`AppState` as one machine: the shared state of `Server`, the rate limiter, and what the resolver and the
validator keep (the delegation cache, the trusted keys).  `process_dns_query` hands the resolver a name
and a type, nothing else of a request, so the resolver is a parameter that sees just these.

* `Backend` — the resolver and the validator, a piece of work at a time.
* `resolverBackend` — `resolve` and `validate_message` as such a parameter.
* `NodeState`, `nodeStep`, `nodeRun` — the machine; its replies are kept with their requests.
* `nodeRun_server` — the shared state of a run is that of a run of `Server`.
-/

namespace UnifiedDns
namespace Engine

open Dnssec (DnssecStatus)

/-- The resolver and the validator with the state `R` they share between tasks.  `U` stands for what comes
from outside during a piece of work: replies of upstream servers, clock readings, random numbers. -/
structure Backend (U R : Type) where
  init : R
  /-- A piece of work on a question; it may bring the result, which is nothing when `resolve` failed. -/
  work : U → Name → RecordType → R → Option (Option (Message × DnssecStatus)) × R

structure NodeEnv (W U R : Type) where
  server : ServerEnv W
  limiter : LimiterConfig
  backend : Backend U R

structure NodeState (W R : Type) where
  server : ServerState W
  limiter : RateLimiter
  backend : R
  /-- A ghost: the replies, the newest first. -/
  replies : List (ClientRequest × ProcessOutcome W)

inductive NodeEvent (U : Type)
  | wait (seconds : Nat)
  /-- A request comes; the rate limiter reads the clock in milliseconds. -/
  | receive (client : ClientRequest) (nowMillis : Nat)
  /-- A piece of work for the waiting task with this number. -/
  | work (index : Nat) (upstream : U)
  /-- `preload_domains` comes to a question. -/
  | prewarm (name : Name) (rtype : RecordType)
  | cleanup (nowMillis maxAgeMillis : Nat)
  | saveStart
  | saveItem (key : Text)
  | saveEnd (outcome : SaveOutcome)
  | restart

variable {W U R : Type}

/-- The first start. -/
def NodeState.init (env : NodeEnv W U R) : NodeState W R where
  server := .init W
  limiter := .new
  backend := env.backend.init
  replies := []

/-- A reply is kept with its request. -/
def logReply (client : ClientRequest) (outcome : Option (ProcessOutcome W))
    (replies : List (ClientRequest × ProcessOutcome W)) :
    List (ClientRequest × ProcessOutcome W) :=
  match outcome with
  | none => replies
  | some outcome => (client, outcome) :: replies

/-- `process_dns_query` up to its outcome or to the wait for the resolver. -/
def receiveRequest (env : NodeEnv W U R) (client : ClientRequest) (nowMillis : Nat)
    (s : NodeState W R) : NodeState W R :=
  match client.message.queries with
  | [query] =>
      let (action, limiter) := checkQuery env.limiter nowMillis client.protocol client.clientIp
        query.name query.queryType s.limiter
      let (outcome, server) := receive env.server ⟨client, action⟩ s.server
      { s with
        server := server
        limiter := limiter
        replies := logReply client outcome s.replies }
  | _ => { s with replies := logReply client (some .malformed) s.replies }

/-- The reply a finished task sends. -/
def logTask (task : Task) (outcome : Option (ProcessOutcome W))
    (replies : List (ClientRequest × ProcessOutcome W)) :
    List (ClientRequest × ProcessOutcome W) :=
  match task with
  | .foreground req _ _ => logReply req.toClientRequest outcome replies
  | .revalidation _ => replies
  | .prewarm _ => replies

/-- The resolver works for a task; with its result the task ends. -/
def workOn (env : NodeEnv W U R) (index : Nat) (upstream : U) (s : NodeState W R) :
    NodeState W R :=
  match s.server.tasks[index]? with
  | none => s
  | some task =>
      match env.backend.work upstream task.query.name task.query.queryType s.backend with
      | (none, backend) => { s with backend := backend }
      | (some result, backend) =>
          let (outcome, server) := finish env.server task result
            { s.server with tasks := s.server.tasks.eraseIdx index }
          { s with
            server := server
            backend := backend
            replies := logTask task outcome s.replies }

/-- The state is changed by an event of the server alone. -/
def onServer (env : NodeEnv W U R) (event : Event) (s : NodeState W R) : NodeState W R :=
  { s with server := step env.server event s.server }

/-- One event.  Caches in memory are lost in a restart. -/
def nodeStep (env : NodeEnv W U R) (s : NodeState W R) (event : NodeEvent U) : NodeState W R :=
  match event with
  | .wait seconds => onServer env (.wait seconds) s
  | .receive client nowMillis => receiveRequest env client nowMillis s
  | .work index upstream => workOn env index upstream s
  | .prewarm name rtype => onServer env (.prewarm name rtype) s
  | .cleanup nowMillis maxAgeMillis =>
      { s with limiter := cleanup nowMillis maxAgeMillis s.limiter }
  | .saveStart => onServer env .saveStart s
  | .saveItem key => onServer env (.saveItem key) s
  | .saveEnd outcome => onServer env (.saveEnd outcome) s
  | .restart => { onServer env .restart s with limiter := .new, backend := env.backend.init }

/-- The state after a list of events. -/
def nodeRun (env : NodeEnv W U R) (events : List (NodeEvent U)) : NodeState W R :=
  events.foldl (nodeStep env) (.init env)

/-- The validator gave the status the backend returns with a message. -/
def Backend.Judges (backend : Backend U R) (env : ServerEnv W) : Prop :=
  ∀ upstream name rtype r msg status, (backend.work upstream name rtype r).1 = some (some (msg, status)) →
    ∃ v, (Dnssec.validateMessage env.validator msg name rtype v).1 = status

/-- `resolve` and then `validate_message`, in one piece; the delegation cache is in the state. -/
def resolverBackend (env : ServerEnv W) :
    Backend Recursor.REnv (Recursor.RState × Dnssec.VState) where
  init := (.init, .init)
  work upstream name rtype r :=
    match Recursor.resolve upstream name rtype r.1 with
    | (.error _, s) => (some none, (s, r.2))
    | (.ok msg, s) =>
        let (status, v) := Dnssec.validateMessage env.validator msg name rtype r.2
        (some (some (msg, status)), (s, v))

theorem resolverBackend_judges (env : ServerEnv W) : (resolverBackend env).Judges env := by
  intro upstream name rtype r msg status h
  simp only [resolverBackend] at h
  split at h
  · cases h
  · cases h
    exact ⟨r.2, rfl⟩

/-- `preload_domains` asks for addresses. -/
def NodeEvent.AddressPrewarm : NodeEvent U → Prop
  | .prewarm _ rtype => rtype = .A ∨ rtype = .AAAA
  | _ => True

/-- The shared state moves as in `Server`. -/
theorem nodeStep_server {env : NodeEnv W U R} (hjudges : env.backend.Judges env.server)
    {s : NodeState W R} {event : NodeEvent U} (hevent : event.AddressPrewarm)
    (h : ServerRun env.server s.server) : ServerRun env.server (nodeStep env s event).server := by
  cases event with
  | wait seconds => exact .step (.wait seconds) h trivial
  | receive client nowMillis =>
      show ServerRun env.server (receiveRequest env client nowMillis s).server
      unfold receiveRequest
      split
      · exact .step (.receive ⟨client, _⟩) h trivial
      · exact h
  | work index upstream =>
      show ServerRun env.server (workOn env index upstream s).server
      unfold workOn
      split
      · exact h
      · rename_i task htask
        have hwork := hjudges upstream task.query.name task.query.queryType s.backend
        split
        · exact h
        · rename_i result backend heq
          rw [heq] at hwork
          have hfinish : (step env.server (.finish index result) s.server) =
              (finish env.server task result
                { s.server with tasks := s.server.tasks.eraseIdx index }).2 := by
            simp only [step, htask]
          simp only
          rw [← hfinish]
          refine .step (.finish index result) h ?_
          cases result with
          | none => trivial
          | some judged =>
              obtain ⟨msg, status⟩ := judged
              intro task' htask'
              cases htask.symm.trans htask'
              exact hwork msg status rfl
  | prewarm name rtype => exact .step (.prewarm name rtype) h hevent
  | cleanup nowMillis maxAgeMillis => exact h
  | saveStart => exact .step .saveStart h trivial
  | saveItem key => exact .step (.saveItem key) h trivial
  | saveEnd outcome => exact .step (.saveEnd outcome) h trivial
  | restart => exact .step .restart h trivial

/-- What is true of the shared state in every run of `Server` is true here. -/
theorem nodeRun_server {env : NodeEnv W U R} (hjudges : env.backend.Judges env.server)
    {events : List (NodeEvent U)} (hevents : ∀ event ∈ events, event.AddressPrewarm) :
    ServerRun env.server (nodeRun env events).server := by
  have hrun : ∀ (rest : List (NodeEvent U)) (s : NodeState W R),
      (∀ event ∈ rest, event.AddressPrewarm) → ServerRun env.server s.server →
        ServerRun env.server (rest.foldl (nodeStep env) s).server := by
    intro rest
    induction rest with
    | nil => exact fun s _ h => h
    | cons event rest ih =>
        intro s hrest h
        obtain ⟨hevent, hrest⟩ := List.forall_mem_cons.mp hrest
        exact ih _ hrest (nodeStep_server hjudges hevent h)
  exact hrun events (.init env) hevents .init

end Engine
end UnifiedDns
