import UnifiedDns.Engine.UdpListener

/-!
# The listeners for connections

`run_tcp_listener` and `run_dot_listener`: a connection that finds a permit gets a task of its own, which holds
the permit until the connection is closed.  A DoT connection has to complete the TLS handshake first.

* `StreamTask` — `handle_length_prefixed_stream` turn by turn, with writes that may be cut off;
  `StreamTask.turns_streamLoop` — where none is, the turns make up the loop.
* `AcceptState`, `acceptStep` — the listener with its connections.
* `Connection.Right` — what a task has done for its connection.
* `connections_accounted` — in every run, connections are served one to one, each with its own replies.
-/

namespace UnifiedDns
namespace Engine

/-! ### The handler turn by turn -/

/-- How a reply is written; an error and `IO_TIMEOUT` cut it off after some octets. -/
inductive Sending
  | whole
  | cut (octets : Nat)
deriving DecidableEq

/-- `first`, and then `rest`. -/
def StreamRun.followedBy (first rest : StreamRun) : StreamRun :=
  ⟨first.requests ++ rest.requests, first.written ++ rest.written⟩

/-- `handle_length_prefixed_stream` between two turns of its loop. -/
structure StreamTask where
  /-- What arrived and belongs to no request that was taken, as it arrived. -/
  unread : List (List Byte)
  /-- The requests that were taken, and what was written. -/
  done : StreamRun
  /-- The loop was left. -/
  ended : Bool

namespace StreamTask

/-- Nothing has been read. -/
def start (pieces : List (List Byte)) : StreamTask := ⟨pieces, .closed, false⟩

/-- A request was taken, and `octets` were written for it. -/
def taken (task : StreamTask) (request : List Byte) (rest : List (List Byte)) (octets : List Byte)
    (ended : Bool) : StreamTask :=
  ⟨rest, task.done.followedBy ⟨[request], octets⟩, ended⟩

/-- One turn of the loop.  A request that is not there as a whole is waited for until the connection is closed,
and behind a length out of bounds nothing is taken. -/
def turn (serve : List Byte → ProcessOutcome (List Byte)) (sending : Sending) (task : StreamTask) :
    StreamTask :=
  if task.ended then task
  else
    match readFrame dnsFrames task.unread with
    | none => task
    | some (reqBuf, rest) =>
        match (serve reqBuf).reaction with
        | .respond wire =>
            if dnsFrames.greatest < wire.length then task.taken reqBuf rest [] true
            else
              match sending with
              | .whole => task.taken reqBuf rest (encodeLength wire.length ++ wire) false
              | .cut octets =>
                  task.taken reqBuf rest ((encodeLength wire.length ++ wire).take octets) true
        | .proceed => task.taken reqBuf rest [] false
        | .close => task.taken reqBuf rest [] true

section Loop

variable (serve : Nat → List Byte → ProcessOutcome (List Byte))

/-- A turn whose write comes through; `serve k` is the call on the request numbered `k`. -/
def wholeTurn (task : StreamTask) : StreamTask :=
  task.turn (serve task.done.requests.length) .whole

/-- What the task will have done in the end, if nothing else arrives and every write comes through. -/
def finish (task : StreamTask) : StreamRun :=
  if task.ended then task.done
  else task.done.followedBy (streamLoop serve task.done.requests.length task.unread)

theorem finish_taken (task : StreamTask) (request : List Byte) (rest : List (List Byte))
    (octets : List Byte) :
    (task.taken request rest octets true).finish serve =
        task.done.followedBy (StreamRun.closed.before request octets) ∧
      (task.taken request rest octets false).finish serve = task.done.followedBy
        ((streamLoop serve (task.done.requests.length + 1) rest).before request octets) := by
  refine ⟨?_, ?_⟩
  · simp only [finish, taken, if_true, StreamRun.followedBy, StreamRun.before, StreamRun.closed,
      List.append_nil]
  · simp only [finish, taken, Bool.false_eq_true, if_false, StreamRun.followedBy, StreamRun.before,
      List.length_append, List.length_singleton, List.append_assoc, List.singleton_append]

/-- A turn is one iteration of the loop. -/
theorem finish_wholeTurn (task : StreamTask) :
    (task.wholeTurn serve).finish serve = task.finish serve := by
  unfold wholeTurn turn
  cases hended : task.ended with
  | true => rfl
  | false =>
      have hfinish : task.finish serve = task.done.followedBy
          (streamLoop serve task.done.requests.length task.unread) := by
        rw [finish, hended, if_neg Bool.false_ne_true]
      rw [if_neg Bool.false_ne_true]
      cases hread : readFrame dnsFrames task.unread with
      | none => rfl
      | some next =>
          obtain ⟨reqBuf, rest⟩ := next
          rw [hfinish, streamLoop_of_some serve hread]
          cases hreaction : (serve task.done.requests.length reqBuf).reaction with
          | respond wire =>
              simp only [hreaction]
              split
              · exact (finish_taken serve task reqBuf rest []).1
              · exact (finish_taken serve task reqBuf rest _).2
          | proceed =>
              simp only [hreaction]
              exact (finish_taken serve task reqBuf rest []).2
          | close =>
              simp only [hreaction]
              exact (finish_taken serve task reqBuf rest []).1

/-- Enough turns do all that is left. -/
theorem turns_finish (task : StreamTask) :
    ∃ n, ((wholeTurn serve)^[n] task).done = task.finish serve := by
  induction hsize : task.unread.flatten.length using Nat.strong_induction_on generalizing task with
  | h size ih =>
      by_cases hidle : task.ended = true ∨ readFrame dnsFrames task.unread = none
      · -- Nothing is left to be done.
        refine ⟨0, ?_⟩
        show task.done = task.finish serve
        unfold finish
        split
        · rfl
        · rename_i hopen
          rw [streamLoop_of_none serve (hidle.resolve_left hopen)]
          simp only [StreamRun.followedBy, StreamRun.closed, List.append_nil]
      · obtain ⟨hopen, hread⟩ := not_or.mp hidle
        obtain ⟨⟨reqBuf, rest⟩, hread⟩ := Option.ne_none_iff_exists'.mp hread
        have hunread : (task.wholeTurn serve).unread = rest := by
          unfold wholeTurn turn
          rw [if_neg hopen, hread]
          simp only
          split
          · split
            · rfl
            · rfl
          · rfl
          · rfl
        have hless : (task.wholeTurn serve).unread.flatten.length < size := by
          rw [hunread, ← hsize]
          exact readFrame_length hread
        obtain ⟨n, hn⟩ := ih _ hless (task.wholeTurn serve) rfl
        exact ⟨n + 1, hn.trans (finish_wholeTurn serve task)⟩

/-- Where every write comes through, the turns make up the loop of `handle_length_prefixed_stream`. -/
theorem turns_streamLoop (pieces : List (List Byte)) :
    ∃ n, ((wholeTurn serve)^[n] (start pieces)).done = streamLoop serve 0 pieces :=
  turns_finish serve (start pieces)

end Loop

end StreamTask

/-! ### The listener -/

/-- How the TLS handshake of a connection ends. -/
inductive Handshake
  | established
  | failed
  | timedOut
deriving DecidableEq

/-- A connection that found a permit, with what arrived on it and what its task has done. -/
structure Connection where
  peer : SocketAddr
  /-- How the TLS handshake ended, if it has. -/
  handshake : Option Handshake
  arrived : List (List Byte)
  task : StreamTask

namespace Connection

/-- The connection has just been accepted. -/
def opened (peer : SocketAddr) : Connection := ⟨peer, none, [], .start []⟩

/-- The handler runs; over plain TCP there is no handshake. -/
def Serving (protocol : Protocol) (connection : Connection) : Prop :=
  protocol = .dot → connection.handshake = some .established

instance (protocol : Protocol) (connection : Connection) : Decidable (connection.Serving protocol) := by
  unfold Serving
  infer_instance

/-- The handshake ends once. -/
def endHandshake (result : Handshake) (connection : Connection) : Connection :=
  match connection.handshake with
  | none => { connection with handshake := some result }
  | some _ => connection

/-- Octets arrive for the handler. -/
def arrive (protocol : Protocol) (piece : List Byte) (connection : Connection) : Connection :=
  if connection.Serving protocol then
    { connection with
      arrived := connection.arrived ++ [piece]
      task := { connection.task with unread := connection.task.unread ++ [piece] } }
  else connection

/-- The handler takes a turn; `c` are the circumstances of its call. -/
def turn (env : ServerEnv (List Byte)) (config : LimiterConfig) (protocol : Protocol)
    (c : Circumstances (List Byte)) (sending : Sending) (connection : Connection) : Connection :=
  if connection.Serving protocol then
    { connection with
      task := connection.task.turn (processDnsQuery env config
        { c with protocol := protocol, clientIp := connection.peer.ip }) sending }
  else connection

end Connection

/-- A listener with `limit` permits. -/
structure AcceptState (limit : Nat) where
  pool : PermitPool Connection limit
  /-- A ghost: all connections that came. -/
  accepted : List SocketAddr
  /-- A ghost: the connections that were closed. -/
  served : List Connection

/-- The listener starts. -/
def AcceptState.init (limit : Nat) : AcceptState limit where
  pool := .full Connection limit
  accepted := []
  served := []

inductive AcceptEvent
  | accept (peer : SocketAddr)
  /-- `accept` fails. -/
  | acceptError
  | handshake (index : Nat) (result : Handshake)
  | arrive (index : Nat) (piece : List Byte)
  | turn (index : Nat) (c : Circumstances (List Byte)) (sending : Sending)
  /-- The task with this number ends: the loop was left, the input ended, or a timer expired. -/
  | close (index : Nat)

/-- A connection goes on, with its permit. -/
def AcceptState.update {limit : Nat} (s : AcceptState limit) (index : Nat) (f : Connection → Connection) :
    AcceptState limit :=
  match s.pool.held[index]? with
  | some connection => { s with pool := s.pool.replace index (f connection) }
  | none => s

section Steps

variable {limit : Nat} (env : ServerEnv (List Byte)) (config : LimiterConfig) (protocol : Protocol)

/-- One event. -/
def acceptStep (s : AcceptState limit) : AcceptEvent → AcceptState limit
  | .accept peer =>
      let s := { s with accepted := s.accepted ++ [peer] }
      match s.pool.acquire (.opened peer) with
      | some pool => { s with pool := pool }
      | none => s
  | .acceptError => s
  | .handshake index result => s.update index (.endHandshake result)
  | .arrive index piece => s.update index (.arrive protocol piece)
  | .turn index c sending => s.update index (.turn env config protocol c sending)
  | .close index =>
      match s.pool.held[index]? with
      | some connection =>
          { s with pool := s.pool.release index, served := s.served ++ [connection] }
      | none => s

/-- The state after a list of events. -/
def acceptRun (limit : Nat) (events : List AcceptEvent) : AcceptState limit :=
  events.foldl (acceptStep env config protocol) (.init limit)

end Steps

/-! ### One connection -/

/-- The octets are framed replies to some of the requests, in their order; of the last one the octets
`missing` were not written. -/
def RepliesTo (Reply : List Byte → List Byte → Prop) (requests : List (List Byte))
    (written missing : List Byte) : Prop :=
  ∃ replies : List (List Byte × List Byte),
    written ++ missing = (replies.map Prod.snd).flatMap frame ∧
      (replies.map Prod.fst).Sublist requests ∧ (∀ reply ∈ replies, Reply reply.1 reply.2) ∧
      (missing = [] ∨ ∃ reply ∈ replies.getLast?, missing <:+ frame reply.2)

section RepliesTo

variable {Reply : List Byte → List Byte → Prop} {requests : List (List Byte)} {written : List Byte}

theorem RepliesTo.nothing : RepliesTo Reply [] [] [] :=
  ⟨[], rfl, List.Sublist.refl _, fun _ hreply => absurd hreply List.not_mem_nil, Or.inl rfl⟩

/-- A request without a reply. -/
theorem RepliesTo.silent (h : RepliesTo Reply requests written []) (request : List Byte) :
    RepliesTo Reply (requests ++ [request]) (written ++ []) [] := by
  obtain ⟨replies, hwritten, hsublist, hreplies, -⟩ := h
  refine ⟨replies, ?_, hsublist.trans (List.sublist_append_left _ _), hreplies, Or.inl rfl⟩
  rw [List.append_nil]
  exact hwritten

/-- A request with a reply, of which `missing` is not written. -/
theorem RepliesTo.reply (h : RepliesTo Reply requests written []) {request wire octets missing : List Byte}
    (hreply : Reply request wire) (hframe : octets ++ missing = frame wire) :
    RepliesTo Reply (requests ++ [request]) (written ++ octets) missing := by
  obtain ⟨replies, hwritten, hsublist, hreplies, -⟩ := h
  rw [List.append_nil] at hwritten
  refine ⟨replies ++ [(request, wire)], ?_, ?_, ?_, Or.inr ⟨(request, wire), ?_, octets, hframe⟩⟩
  · rw [List.map_append, List.flatMap_append, ← hwritten, List.append_assoc, hframe]
    simp only [List.map_cons, List.map_nil, List.flatMap_cons, List.flatMap_nil, List.append_nil]
  · rw [List.map_append]
    exact hsublist.append (List.Sublist.refl [request])
  · intro reply hmem
    rcases List.mem_append.mp hmem with hold | hnew
    · exact hreplies reply hold
    · rw [List.mem_singleton.mp hnew]
      exact hreply
  · rw [List.getLast?_concat]
    rfl

end RepliesTo

/-- `wire` is what a call of `process_dns_query` for the client replies to the request. -/
def RepliedOver (env : ServerEnv (List Byte)) (config : LimiterConfig) (protocol : Protocol)
    (clientIp : IpAddr) (request wire : List Byte) : Prop :=
  ∃ c : Circumstances (List Byte), c.protocol = protocol ∧ c.clientIp = clientIp ∧
    (processDnsQuery env config c request).buffer = some wire

theorem ProcessOutcome.reaction_eq_respond {outcome : ProcessOutcome (List Byte)} {wire : List Byte}
    (h : outcome.reaction = .respond wire) : outcome.buffer = some wire := by
  cases outcome with
  | success _ => cases h; rfl
  | servFail _ => cases h; rfl
  | truncated _ => cases h; rfl
  | dropped => cases h
  | malformed => cases h

/-- What the handler has done: it took the well-formed requests at the start of what arrived, and wrote framed
replies to them, whole ones as long as it goes on. -/
structure StreamTask.Right (Reply : List Byte → List Byte → Prop) (arrived : List (List Byte))
    (task : StreamTask) : Prop where
  arrived : arrived.flatten = task.done.requests.flatMap frame ++ task.unread.flatten
  wellFormed : ∀ request ∈ task.done.requests, dnsFrames.Accepts request.length
  replies : ∃ missing, RepliesTo Reply task.done.requests task.done.written missing ∧
    (task.ended = false → missing = [])

section Task

variable {Reply : List Byte → List Byte → Prop} {arrived : List (List Byte)} {task : StreamTask}

/-- The requests that were taken are the first of those that arrived. -/
theorem StreamTask.Right.requests (h : task.Right Reply arrived) :
    task.done.requests <+: frames dnsFrames arrived.flatten := by
  rw [h.arrived, frames_flatMap_frame_append h.wellFormed]
  exact List.prefix_append _ _

/-- The task takes the next request. -/
theorem StreamTask.Right.taken (h : task.Right Reply arrived) {reqBuf octets : List Byte}
    {rest : List (List Byte)} {ended : Bool} (hread : readFrame dnsFrames task.unread = some (reqBuf, rest))
    (hreplies : ∃ missing, RepliesTo Reply (task.done.requests ++ [reqBuf]) (task.done.written ++ octets)
      missing ∧ (ended = false → missing = [])) :
    (task.taken reqBuf rest octets ended).Right Reply arrived := by
  obtain ⟨hflatten, haccepts⟩ : task.unread.flatten = frame reqBuf ++ rest.flatten ∧
      dnsFrames.Accepts reqBuf.length := by
    rcases readFrame_spec dnsFrames task.unread with ⟨hnone, -⟩ | ⟨request, pieces, hsome, hnext⟩
    · rw [hread] at hnone
      cases hnone
    · rw [hread] at hsome
      cases hsome
      exact nextFrame_eq_some.mp hnext
  refine ⟨?_, ?_, hreplies⟩
  · show arrived.flatten = (task.done.requests ++ [reqBuf]).flatMap frame ++ rest.flatten
    rw [h.arrived, hflatten, List.flatMap_append, List.flatMap_singleton, List.append_assoc]
  · intro request hmem
    rcases List.mem_append.mp hmem with hold | hnew
    · exact h.wellFormed request hold
    · rw [List.mem_singleton.mp hnew]
      exact haccepts

/-- A turn keeps it. -/
theorem StreamTask.Right.turn (h : task.Right Reply arrived)
    {serve : List Byte → ProcessOutcome (List Byte)}
    (hserve : ∀ request wire, (serve request).buffer = some wire → Reply request wire)
    (sending : Sending) : (task.turn serve sending).Right Reply arrived := by
  unfold StreamTask.turn
  split
  · exact h
  · rename_i hopen
    obtain ⟨missing, hreplies, hwhole⟩ := h.replies
    rw [hwhole (Bool.eq_false_iff.mpr hopen)] at hreplies
    split
    · exact h
    · rename_i reqBuf rest hread
      split
      · rename_i wire hrespond
        have hreply : Reply reqBuf wire :=
          hserve reqBuf wire (ProcessOutcome.reaction_eq_respond hrespond)
        split
        · exact h.taken hread ⟨[], hreplies.silent reqBuf, fun _ => rfl⟩
        · cases sending with
          | whole =>
              exact h.taken hread ⟨[], hreplies.reply hreply (List.append_nil _), fun _ => rfl⟩
          | cut octets =>
              -- What the failed write has left behind is the end of the frame.
              exact h.taken hread ⟨(frame wire).drop octets,
                hreplies.reply hreply (List.take_append_drop octets (frame wire)),
                fun hgoes => absurd hgoes (by decide)⟩
      · exact h.taken hread ⟨[], hreplies.silent reqBuf, fun _ => rfl⟩
      · exact h.taken hread ⟨[], hreplies.silent reqBuf, fun _ => rfl⟩

end Task

/-- What a listener has done for a connection: nothing without the handshake, and otherwise framed replies to
requests that came on it, for the address of its peer. -/
structure Connection.Right (env : ServerEnv (List Byte)) (config : LimiterConfig) (protocol : Protocol)
    (connection : Connection) : Prop where
  handshake : ¬ connection.Serving protocol →
    connection.task.done.requests = [] ∧ connection.task.done.written = []
  task : connection.task.Right (RepliedOver env config protocol connection.peer.ip) connection.arrived

section Connections

variable {env : ServerEnv (List Byte)} {config : LimiterConfig} {protocol : Protocol}
  {connection : Connection}

theorem Connection.Right.opened (peer : SocketAddr) : (opened peer).Right env config protocol where
  handshake _ := ⟨rfl, rfl⟩
  task := ⟨rfl, fun _ hrequest => absurd hrequest List.not_mem_nil, [], .nothing, fun _ => rfl⟩

theorem Connection.Right.endHandshake (h : connection.Right env config protocol) (result : Handshake) :
    (connection.endHandshake result).Right env config protocol := by
  unfold Connection.endHandshake
  split
  · rename_i hnone
    refine ⟨fun hidle => h.handshake fun hserving => hidle fun hdot => ?_, h.task⟩
    have hestablished := hserving hdot
    rw [hnone] at hestablished
    cases hestablished
  · exact h

theorem Connection.Right.arrive (h : connection.Right env config protocol) (piece : List Byte) :
    (connection.arrive protocol piece).Right env config protocol := by
  unfold Connection.arrive
  split
  · rename_i hserving
    refine ⟨fun hidle => absurd hserving hidle, ⟨?_, h.task.wellFormed, h.task.replies⟩⟩
    rw [List.flatten_append, List.flatten_append, h.task.arrived, List.append_assoc]
  · exact h

theorem Connection.Right.turn (h : connection.Right env config protocol)
    (c : Circumstances (List Byte)) (sending : Sending) :
    (connection.turn env config protocol c sending).Right env config protocol := by
  unfold Connection.turn
  split
  · rename_i hserving
    exact ⟨fun hidle => absurd hserving hidle,
      h.task.turn (fun request wire hwire => ⟨_, rfl, rfl, hwire⟩) sending⟩
  · exact h

end Connections

/-! ### Runs -/

section Runs

variable {limit : Nat} {env : ServerEnv (List Byte)} {config : LimiterConfig} {protocol : Protocol}

structure AcceptInvariant (env : ServerEnv (List Byte)) (config : LimiterConfig) (protocol : Protocol)
    (s : AcceptState limit) : Prop where
  /-- A connection that came has one task, or was served once. -/
  connections : s.pool.Accounts (fun connection => some connection.peer)
    (s.served.map Connection.peer) s.accepted
  served : ∀ connection ∈ s.served, connection.Right env config protocol
  held : ∀ connection ∈ s.pool.held, connection.Right env config protocol

theorem AcceptInvariant.init : AcceptInvariant env config protocol (.init limit) where
  connections := .init
  served := by
    intro connection hconnection
    cases hconnection
  held := by
    intro connection hconnection
    cases hconnection

/-- A connection that goes on keeps the invariant, for its peer stays. -/
theorem AcceptInvariant.update {s : AcceptState limit} (h : AcceptInvariant env config protocol s)
    (index : Nat) {f : Connection → Connection} (hpeer : ∀ connection, (f connection).peer = connection.peer)
    (hright : ∀ connection : Connection, connection.Right env config protocol →
      (f connection).Right env config protocol) :
    AcceptInvariant env config protocol (s.update index f) := by
  unfold AcceptState.update
  split
  · rename_i connection hconnection
    refine ⟨?_, h.served, fun other hother => ?_⟩
    · have hgoes : (s.pool.replace index (f connection)).Accounts (fun connection => some connection.peer)
          (s.served.map Connection.peer) (s.accepted ++ []) :=
        h.connections.replace hconnection [] (by rw [hpeer, List.append_nil])
      rwa [List.append_nil] at hgoes
    · rcases PermitPool.mem_replace hother with hold | hnew
      · exact h.held other hold
      · rw [hnew]
        exact hright connection (h.held connection (List.mem_of_getElem? hconnection))
  · exact h

theorem Connection.peer_endHandshake (result : Handshake) (connection : Connection) :
    (connection.endHandshake result).peer = connection.peer := by
  unfold Connection.endHandshake
  split
  · rfl
  · rfl

theorem Connection.peer_arrive (protocol : Protocol) (piece : List Byte) (connection : Connection) :
    (connection.arrive protocol piece).peer = connection.peer := by
  unfold Connection.arrive
  split
  · rfl
  · rfl

theorem Connection.peer_turn (env : ServerEnv (List Byte)) (config : LimiterConfig) (protocol : Protocol)
    (c : Circumstances (List Byte)) (sending : Sending) (connection : Connection) :
    (connection.turn env config protocol c sending).peer = connection.peer := by
  unfold Connection.turn
  split
  · rfl
  · rfl

/-- Every event keeps the invariant. -/
theorem acceptStep_kept {s : AcceptState limit} (h : AcceptInvariant env config protocol s)
    (event : AcceptEvent) : AcceptInvariant env config protocol (acceptStep env config protocol s event) := by
  cases event with
  | accept peer =>
      simp only [acceptStep]
      split
      · rename_i pool hpool
        refine ⟨h.connections.acquire hpool [peer] (List.Subperm.refl _), h.served, fun other hother => ?_⟩
        rw [PermitPool.acquire_held hpool] at hother
        rcases List.mem_append.mp hother with hold | hnew
        · exact h.held other hold
        · rw [List.mem_singleton.mp hnew]
          exact .opened peer
      · exact ⟨h.connections.mono [peer], h.served, h.held⟩
  | acceptError => exact h
  | handshake index result =>
      exact h.update index (Connection.peer_endHandshake result) fun _ hright => hright.endHandshake result
  | arrive index piece =>
      exact h.update index (Connection.peer_arrive protocol piece) fun _ hright => hright.arrive piece
  | turn index c sending =>
      exact h.update index (Connection.peer_turn env config protocol c sending)
        fun _ hright => hright.turn c sending
  | close index =>
      simp only [acceptStep]
      split
      · rename_i connection hconnection
        refine ⟨?_, ?_, fun other hother => h.held other (PermitPool.mem_release hother)⟩
        · have hended := h.connections.release hconnection [] (List.Subperm.refl [connection.peer])
          rw [List.append_nil] at hended
          simpa only [List.map_append, List.map_singleton] using hended
        · intro other hmem
          rcases List.mem_append.mp hmem with hold | hnew
          · exact h.served other hold
          · rw [List.mem_singleton.mp hnew]
            exact h.held connection (List.mem_of_getElem? hconnection)
      · exact h

/-- The connection that comes with an event. -/
def AcceptEvent.incoming : AcceptEvent → Option SocketAddr
  | .accept peer => some peer
  | _ => none

theorem AcceptState.accepted_update (s : AcceptState limit) (index : Nat) (f : Connection → Connection) :
    (s.update index f).accepted = s.accepted := by
  unfold AcceptState.update
  split
  · rfl
  · rfl

theorem acceptRun_accepted (env : ServerEnv (List Byte)) (config : LimiterConfig) (protocol : Protocol)
    (limit : Nat) (events : List AcceptEvent) :
    (acceptRun env config protocol limit events).accepted = events.filterMap AcceptEvent.incoming := by
  have hstep : ∀ (s : AcceptState limit) (event : AcceptEvent),
      (acceptStep env config protocol s event).accepted = s.accepted ++ event.incoming.toList := by
    intro s event
    cases event with
    | accept peer =>
        simp only [acceptStep]
        split
        · rfl
        · rfl
    | acceptError => exact (List.append_nil _).symm
    | handshake index result => exact (s.accepted_update index _).trans (List.append_nil _).symm
    | arrive index piece => exact (s.accepted_update index _).trans (List.append_nil _).symm
    | turn index c sending => exact (s.accepted_update index _).trans (List.append_nil _).symm
    | close index =>
        simp only [acceptStep]
        split
        · exact (List.append_nil _).symm
        · exact (List.append_nil _).symm
  exact foldl_records hstep (.init limit) events

/-- **The listeners account for their connections.**  In every run of the TCP or the DoT listener: a connection
that came is open or was served, and that once; what has been written on it are the framed replies of
`process_dns_query` to requests that came on the same connection, in their order and for the address of its
peer, of which only the last may be cut off, and only where the handler has left its loop; over DoT nothing at
all without a TLS handshake; at most `limit` connections are open; and a new one is turned away exactly while
`limit` are. -/
theorem connections_accounted (env : ServerEnv (List Byte)) (config : LimiterConfig) (protocol : Protocol)
    (limit : Nat) (events : List AcceptEvent) :
    let s := acceptRun env config protocol limit events
    ((s.served ++ s.pool.held).map Connection.peer).Subperm (events.filterMap AcceptEvent.incoming) ∧
      (∀ connection ∈ s.served ++ s.pool.held, connection.Right env config protocol ∧
        connection.task.done.requests <+: frames dnsFrames connection.arrived.flatten) ∧
      s.pool.held.length ≤ limit ∧
      ∀ peer, (acceptStep env config protocol s (.accept peer)).pool.held =
        if s.pool.held.length < limit then s.pool.held ++ [.opened peer] else s.pool.held := by
  intro s
  have hkept : AcceptInvariant env config protocol s :=
    @Along.invariant _ _ (acceptStep env config protocol) (fun _ _ => True)
      (AcceptInvariant env config protocol) (fun _ event h _ => acceptStep_kept h event) _ .init events
      (Along.of_forall (fun _ _ => trivial) _)
  refine ⟨?_, ?_, s.pool.held_le, fun peer => ?_⟩
  · have hpeers : s.pool.held.filterMap (fun connection => some connection.peer) =
        s.pool.held.map Connection.peer := congrFun List.filterMap_eq_map' _
    rw [← acceptRun_accepted env config protocol limit events, List.map_append, ← hpeers]
    exact hkept.connections
  · intro connection hmem
    have hright : connection.Right env config protocol :=
      (List.mem_append.mp hmem).elim (hkept.served connection) (hkept.held connection)
    exact ⟨hright, hright.task.requests⟩
  · simp only [acceptStep]
    rcases s.pool.acquire_cases (.opened peer) with ⟨pool, hpool, hheld, hroom⟩ | ⟨hnone, hfull⟩
    · rw [hpool, if_pos hroom]
      exact hheld
    · rw [hnone, if_neg hfull]

end Runs

end Engine
end UnifiedDns
