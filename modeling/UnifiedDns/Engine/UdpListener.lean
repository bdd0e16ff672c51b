import UnifiedDns.Engine.Transports
import UnifiedDns.Engine.RefillRounding
import UnifiedDns.Lib.Permits
import UnifiedDns.Lib.Runs

/-!
# The UDP listener

`run_udp_listener`: a datagram that passes the length checks and finds a permit gets a task of its own; the
task runs `process_dns_query` and sends at most one datagram back.  Everything else that touches the shared
state (other transports, revalidations, saves, cleanup passes) may happen between any two steps.

* `UdpState`, `udpStep` — the loop with its tasks, the limiter, and the shared state.
* `UdpInvariant`, `udpStep_kept` — what every event keeps.
* `udp_replies_accounted` — each datagram that is sent is the outcome for a datagram that came, one to one.
* `udp_octets_bounded` — what is sent to a network is bounded by the tokens of that network.
-/

namespace UnifiedDns
namespace Engine

open Dnssec (DnssecStatus)

/-- `MAX_UDP_USER_BUF`. -/
def maxUdpUserBuf : Nat := 65535

/-- `MAX_UDP_QUERY_SIZE`. -/
def maxUdpQuerySize : Nat := 4096

/-- `MIN_DNS_MSG_SIZE`. -/
def minDnsMsgSize : Nat := 12

structure SocketAddr where
  ip : IpAddr
  port : UInt16
deriving DecidableEq

structure Datagram where
  octets : List Byte
  peer : SocketAddr
deriving DecidableEq

/-- A task of the listener. -/
inductive UdpTask
  /-- It has not run yet. -/
  | spawned (datagram : Datagram)
  /-- `process_dns_query` waits for the resolver; the limiter has read `nowMillis`. -/
  | resolving (datagram : Datagram) (nowMillis : Nat) (req : Request) (query : Query) (now : Nat)

def UdpTask.datagram : UdpTask → Datagram
  | .spawned datagram => datagram
  | .resolving datagram _ _ _ _ => datagram

/-- A datagram that was sent, with the one it answers and the clock reading of the limiter for that one. -/
structure SentDatagram where
  request : Datagram
  nowMillis : Nat
  octets : List Byte

/-- The listener with `limit` permits, and the shared state. -/
structure UdpState (limit : Nat) where
  pool : PermitPool UdpTask limit
  limiter : RateLimiter
  server : ServerState (List Byte)
  /-- A ghost: all datagrams that came. -/
  received : List Datagram
  /-- A ghost: all calls of the limiter. -/
  checks : List LimiterEvent
  /-- A ghost: all datagrams that were sent. -/
  sent : List SentDatagram

/-- The listener starts. -/
def UdpState.init (limit : Nat) (server : ServerState (List Byte)) : UdpState limit where
  pool := .full UdpTask limit
  limiter := .new
  server := server
  received := []
  checks := []
  sent := []

inductive UdpEvent
  | datagram (octets : List Byte) (peer : SocketAddr)
  /-- `recv_from` fails. -/
  | recvError
  /-- A spawned task runs until it is done or waits; `delivered` tells whether `send_to` succeeds. -/
  | start (index nowMillis : Nat) (delivered : Bool)
  /-- The resolver and the validator have returned to a waiting task. -/
  | finish (index : Nat) (result : Option (Message × DnssecStatus)) (delivered : Bool)
  /-- The limiter is called from elsewhere. -/
  | limiter (event : LimiterEvent)
  /-- Something else changes the rest of the shared state. -/
  | shared (server : ServerState (List Byte))

section Steps

variable {limit : Nat} (env : ServerEnv (List Byte)) (config : LimiterConfig)

/-- The loop body on a datagram. -/
def receiveDatagram (octets : List Byte) (peer : SocketAddr) (s : UdpState limit) : UdpState limit :=
  let s := { s with received := s.received ++ [⟨octets, peer⟩] }
  -- `recv_from` cuts off what does not fit into the buffer.
  let reqWire := octets.take maxUdpUserBuf
  if reqWire.length < minDnsMsgSize then s
  else if maxUdpQuerySize < reqWire.length then s
  else
    match s.pool.acquire (.spawned ⟨reqWire, peer⟩) with
    | some pool => { s with pool := pool }
    | none => s

/-- A task has its outcome: it sends what there is to send, and its permit is free again. -/
def endTask (index : Nat) (datagram : Datagram) (nowMillis : Nat)
    (outcome : ProcessOutcome (List Byte)) (delivered : Bool) (s : UdpState limit) : UdpState limit :=
  { s with
    pool := s.pool.release index
    sent :=
      match outcome.buffer with
      | some octets => if delivered then s.sent ++ [⟨datagram, nowMillis, octets⟩] else s.sent
      | none => s.sent }

/-- `process_dns_query` on the datagram of a task, up to the wait for the resolver. -/
def startTask (index nowMillis : Nat) (delivered : Bool) (s : UdpState limit) : UdpState limit :=
  match s.pool.held[index]? with
  | some (.spawned datagram) =>
      match env.decode datagram.octets with
      | none => endTask index datagram nowMillis .malformed delivered s
      | some message =>
          match message.queries with
          | [query] =>
              let check := LimiterEvent.query nowMillis .udp datagram.peer.ip query.name query.queryType
              let verdict := checkQuery config nowMillis .udp datagram.peer.ip query.name
                query.queryType s.limiter
              let req : Request := ⟨⟨message, .udp, datagram.peer.ip⟩, verdict.1⟩
              let now := s.server.now
              let called := receive env req s.server
              let s := { s with
                limiter := verdict.2
                server := called.2
                checks := s.checks ++ [check] }
              match called.1 with
              | some outcome => endTask index datagram nowMillis outcome delivered s
              | none =>
                  { s with pool := s.pool.replace index (.resolving datagram nowMillis req query now) }
          | _ => endTask index datagram nowMillis .malformed delivered s
  | _ => s

/-- The rest of `process_dns_query`. -/
def finishTask (index : Nat) (result : Option (Message × DnssecStatus)) (delivered : Bool)
    (s : UdpState limit) : UdpState limit :=
  match s.pool.held[index]? with
  | some (.resolving datagram nowMillis req query now) =>
      let called := finishForeground env req query now result s.server
      endTask index datagram nowMillis called.1 delivered { s with server := called.2 }
  | _ => s

/-- One event. -/
def udpStep (s : UdpState limit) : UdpEvent → UdpState limit
  | .datagram octets peer => receiveDatagram octets peer s
  | .recvError => s
  | .start index nowMillis delivered => startTask env config index nowMillis delivered s
  | .finish index result delivered => finishTask env index result delivered s
  | .limiter event =>
      { s with limiter := limiterStep config s.limiter event, checks := s.checks ++ [event] }
  | .shared server => { s with server := server }

/-- The state after a list of events. -/
def udpRun (limit : Nat) (server : ServerState (List Byte)) (events : List UdpEvent) : UdpState limit :=
  events.foldl (udpStep env config) (.init limit server)

end Steps

/-! ### Tokens -/

/-- A query from outside that is not dropped has got a token of its network. -/
theorem acquired_of_passed {config : LimiterConfig} {nowMillis : Nat} {clientIp : IpAddr} {qname : Name}
    {qtype : RecordType} {limiter : RateLimiter} (hclient : isLoopback clientIp = false)
    (hpassed : (checkQuery config nowMillis .udp clientIp qname qtype limiter).1 ≠ .drop) :
    acquired config (toSubnet clientIp) limiter [.query nowMillis .udp clientIp qname qtype] =
      [nowMillis] := by
  have hloopback : ¬ isLoopback clientIp = true := by simp [hclient]
  have hany : ¬ (Protocol.udp = .udp ∧ qtype = .ANY) := by
    intro hany
    rw [checkQuery, if_neg hloopback, if_pos hany] at hpassed
    exact hpassed rfl
  have hcomes : comesTo (toSubnet clientIp) .udp clientIp qtype = true := by
    rw [comesTo_of_counted _ hloopback hany]
    exact decide_eq_true rfl
  have hgranted : ((bucketAt config nowMillis (limiter.subnetBuckets (toSubnet clientIp))).spend config
      nowMillis).1 = true := by
    rw [checkQuery_counted config nowMillis .udp clientIp qname qtype limiter hloopback hany] at hpassed
    split at hpassed
    · exact absurd rfl hpassed
    · rename_i h
      simpa using h
  have hacquires : acquires config (toSubnet clientIp) limiter
      (.query nowMillis .udp clientIp qname qtype) = true := by
    simp only [acquires, hcomes, hgranted, Bool.and_self]
  simp only [acquired, hacquires, if_true, List.append_nil]
  rfl

/-- What a client of the network costs it: the token it got at `nowMillis`. -/
def tokenOf (net clientIp : IpAddr) (nowMillis : Nat) : Option Nat :=
  if isLoopback clientIp = false ∧ toSubnet clientIp = net then some nowMillis else none

theorem tokenOf_acquired {config : LimiterConfig} {nowMillis : Nat} {clientIp : IpAddr} {qname : Name}
    {qtype : RecordType} {limiter : RateLimiter} (net : IpAddr)
    (hpassed : (checkQuery config nowMillis .udp clientIp qname qtype limiter).1 ≠ .drop) :
    (tokenOf net clientIp nowMillis).toList.Subperm
      (acquired config net limiter [.query nowMillis .udp clientIp qname qtype]) := by
  unfold tokenOf
  split
  · rename_i h
    rw [← h.2, acquired_of_passed h.1 hpassed]
    exact List.Subperm.refl _
  · exact List.nil_subperm

/-! ### The invariant -/

section Invariant

variable {limit : Nat} {env : ServerEnv (List Byte)} {config : LimiterConfig}

/-- A task that waits has come through the first half of its call, on the whole datagram. -/
def UdpTask.Called (env : ServerEnv (List Byte)) (config : LimiterConfig) : UdpTask → Prop
  | .spawned _ => True
  | .resolving datagram _ req query now => env.decode datagram.octets = some req.message ∧
      req.protocol = .udp ∧ req.clientIp = datagram.peer.ip ∧
        (Task.foreground req query now).Called env config

/-- The datagram was sent for the outcome of a call on the octets of its request. -/
def SentDatagram.Replies (env : ServerEnv (List Byte)) (config : LimiterConfig) (reply : SentDatagram) :
    Prop :=
  ∃ c : Circumstances (List Byte), c.protocol = .udp ∧ c.clientIp = reply.request.peer.ip ∧
    (processDnsQuery env config c reply.request.octets).buffer = some reply.octets

/-- The token that a waiting task has got. -/
def UdpTask.token (net : IpAddr) : UdpTask → Option Nat
  | .spawned _ => none
  | .resolving datagram nowMillis _ _ _ => tokenOf net datagram.peer.ip nowMillis

/-- The token that was spent on a datagram. -/
def SentDatagram.token (net : IpAddr) (reply : SentDatagram) : Option Nat :=
  tokenOf net reply.request.peer.ip reply.nowMillis

/-- The lengths that the loop lets pass. -/
def Datagram.Accepted (datagram : Datagram) : Prop :=
  minDnsMsgSize ≤ datagram.octets.length ∧ datagram.octets.length ≤ maxUdpQuerySize

structure UdpInvariant (env : ServerEnv (List Byte)) (config : LimiterConfig) (s : UdpState limit) :
    Prop where
  limiter : s.limiter = limiterRun config s.checks .new
  /-- A datagram that came has one task or one reply. -/
  datagrams : s.pool.Accounts (fun task => some task.datagram) (s.sent.map SentDatagram.request) s.received
  /-- A token of a network pays for one waiting task or one reply. -/
  tokens : ∀ net, s.pool.Accounts (UdpTask.token net) (s.sent.filterMap (SentDatagram.token net))
    (acquired config net .new s.checks)
  tasks : ∀ task ∈ s.pool.held, task.datagram.Accepted ∧ task.Called env config
  sent : ∀ reply ∈ s.sent, reply.request.Accepted ∧ reply.Replies env config

theorem UdpInvariant.init (server : ServerState (List Byte)) :
    UdpInvariant env config (.init limit server) where
  limiter := rfl
  datagrams := .init
  tokens _ := .init
  tasks := by
    intro task htask
    cases htask
  sent := by
    intro reply hreply
    cases hreply

/-- A datagram that fits into what the loop accepts was not cut off. -/
theorem take_maxUdpUserBuf {octets : List Byte}
    (h : ¬ maxUdpQuerySize < (octets.take maxUdpUserBuf).length) : octets.take maxUdpUserBuf = octets := by
  refine List.take_of_length_le ?_
  have hbuffer : maxUdpQuerySize < maxUdpUserBuf := by decide
  rw [List.length_take] at h
  omega

theorem receiveDatagram_kept {s : UdpState limit} (h : UdpInvariant env config s) (octets : List Byte)
    (peer : SocketAddr) : UdpInvariant env config (receiveDatagram octets peer s) := by
  have hignored : UdpInvariant env config { s with received := s.received ++ [⟨octets, peer⟩] } :=
    { h with datagrams := h.datagrams.mono _ }
  unfold receiveDatagram
  simp only
  split
  · exact hignored
  · rename_i hsmall
    split
    · exact hignored
    · rename_i hlarge
      have hwhole := take_maxUdpUserBuf hlarge
      rw [hwhole] at hsmall hlarge ⊢
      split
      · rename_i pool hpool
        refine ⟨h.limiter, h.datagrams.acquire hpool _ (List.Subperm.refl _), fun net => ?_, ?_, h.sent⟩
        · have htokens := (h.tokens net).acquire hpool [] List.nil_subperm
          rwa [List.append_nil] at htokens
        · intro task htask
          rw [PermitPool.acquire_held hpool] at htask
          rcases List.mem_append.mp htask with hold | hnew
          · exact h.tasks task hold
          · rw [List.mem_singleton.mp hnew]
            exact ⟨⟨Nat.not_lt.mp hsmall, Nat.not_lt.mp hlarge⟩, trivial⟩
      · exact hignored

/-- A task ends after these calls of the limiter; what it sends, it has a token for. -/
theorem endTask_kept {s : UdpState limit} (h : UdpInvariant env config s) {index : Nat} {task : UdpTask}
    (htask : s.pool.held[index]? = some task) {nowMillis : Nat} {outcome : ProcessOutcome (List Byte)}
    {events : List LimiterEvent} {limiter : RateLimiter} {server : ServerState (List Byte)}
    (hlimiter : limiter = limiterRun config events s.limiter)
    (htoken : ∀ octets net, outcome.buffer = some octets →
      (tokenOf net task.datagram.peer.ip nowMillis).toList.Subperm
        ((task.token net).toList ++ acquired config net s.limiter events))
    (hreplies : ∀ octets, outcome.buffer = some octets →
      SentDatagram.Replies env config ⟨task.datagram, nowMillis, octets⟩) (delivered : Bool) :
    UdpInvariant env config (endTask index task.datagram nowMillis outcome delivered
      { s with limiter := limiter, server := server, checks := s.checks ++ events }) := by
  have hrun : limiter = limiterRun config (s.checks ++ events) .new := by
    rw [limiterRun_append, ← h.limiter, hlimiter]
  have hacquired : ∀ net, acquired config net .new (s.checks ++ events) =
      acquired config net .new s.checks ++ acquired config net s.limiter events := by
    intro net
    rw [acquired_append, ← h.limiter]
  have htasks : ∀ other ∈ (s.pool.release index).held,
      other.datagram.Accepted ∧ other.Called env config :=
    fun other hother => h.tasks other (PermitPool.mem_release hother)
  -- Nothing is sent: the task's claims lapse.
  have hsilent : UdpInvariant env config
      { s with
        limiter := limiter, server := server, checks := s.checks ++ events
        pool := s.pool.release index } := by
    refine ⟨hrun, ?_, fun net => ?_, htasks, h.sent⟩
    · have hended := h.datagrams.release htask [] (List.nil_subperm : List.Subperm [] _)
      rwa [List.append_nil, List.append_nil] at hended
    · rw [hacquired]
      have hended := (h.tokens net).release htask (acquired config net s.limiter events)
        (List.nil_subperm : List.Subperm [] _)
      rwa [List.append_nil] at hended
  unfold endTask
  cases hreply : outcome.buffer with
  | none => exact hsilent
  | some octets =>
      by_cases hdelivered : delivered = true
      · simp only [hdelivered, if_true]
        refine ⟨hrun, ?_, fun net => ?_, htasks, ?_⟩
        · have hended := h.datagrams.release htask [] (List.Subperm.refl [task.datagram])
          rw [List.append_nil] at hended
          simpa only [List.map_append, List.map_singleton] using hended
        · rw [hacquired, List.filterMap_append, PermitPool.filterMap_cons_toList, List.filterMap_nil,
            List.append_nil]
          exact (h.tokens net).release htask _ (htoken octets net hreply)
        · intro reply hmem
          rcases List.mem_append.mp hmem with hold | hnew
          · exact h.sent reply hold
          · rw [List.mem_singleton.mp hnew]
            exact ⟨(h.tasks task (List.mem_of_getElem? htask)).1, hreplies octets hreply⟩
      · simp only [hdelivered, Bool.false_eq_true, if_false]
        exact hsilent

/-- A task that ends without a call of the limiter. -/
theorem endTask_kept_of_no_check {s : UdpState limit} (h : UdpInvariant env config s) {index : Nat}
    {task : UdpTask} (htask : s.pool.held[index]? = some task) {nowMillis : Nat}
    {outcome : ProcessOutcome (List Byte)} {server : ServerState (List Byte)}
    (htoken : ∀ octets net, outcome.buffer = some octets →
      tokenOf net task.datagram.peer.ip nowMillis = task.token net)
    (hreplies : ∀ octets, outcome.buffer = some octets →
      SentDatagram.Replies env config ⟨task.datagram, nowMillis, octets⟩) (delivered : Bool) :
    UdpInvariant env config (endTask index task.datagram nowMillis outcome delivered
      { s with server := server }) := by
  have hended : UdpInvariant env config (endTask index task.datagram nowMillis outcome delivered
      { s with limiter := s.limiter, server := server, checks := s.checks ++ [] }) := by
    refine endTask_kept h htask (rfl : s.limiter = limiterRun config [] s.limiter) ?_ hreplies delivered
    intro octets net hreply
    rw [htoken octets net hreply]
    exact (List.sublist_append_left _ _).subperm
  rwa [List.append_nil] at hended

theorem startTask_kept {s : UdpState limit} (h : UdpInvariant env config s) (index nowMillis : Nat)
    (delivered : Bool) : UdpInvariant env config (startTask env config index nowMillis delivered s) := by
  unfold startTask
  split
  · rename_i datagram htask
    have hmalformed : UdpInvariant env config (endTask index datagram nowMillis .malformed delivered s) :=
      @endTask_kept_of_no_check _ env config s h index _ htask nowMillis .malformed s.server
        (fun octets net hreply => by cases hreply) (fun octets hreply => by cases hreply) delivered
    split
    · exact hmalformed
    · rename_i message hdecode
      split
      · rename_i query hquestion
        simp only
        generalize hverdict : checkQuery config nowMillis .udp datagram.peer.ip query.name
          query.queryType s.limiter = verdict
        -- The circumstances of the call, as far as the first half looks at them.
        let c : Circumstances (List Byte) :=
          ⟨.udp, datagram.peer.ip, nowMillis, s.limiter, s.server, none⟩
        have hreq : c.request config message query = ⟨⟨message, .udp, datagram.peer.ip⟩, verdict.1⟩ := by
          rw [← hverdict]
          rfl
        obtain ⟨hcalled, hwaits⟩ := @receive_called _ config env ⟨message, .udp, datagram.peer.ip⟩ query
          hquestion c rfl rfl
        rw [show c.request config (⟨message, .udp, datagram.peer.ip⟩ : ClientRequest).message query = _
          from hreq] at hcalled hwaits
        have hlimiter : verdict.2 = limiterRun config
            [.query nowMillis .udp datagram.peer.ip query.name query.queryType] s.limiter := by
          rw [← hverdict]
          rfl
        -- A dropped question brings an outcome without a reply.
        have hpassed : ∀ net, verdict.1 ≠ .drop → (tokenOf net datagram.peer.ip nowMillis).toList.Subperm
            (acquired config net s.limiter
              [.query nowMillis .udp datagram.peer.ip query.name query.queryType]) := by
          intro net hverdict'
          rw [← hverdict] at hverdict'
          exact tokenOf_acquired net hverdict'
        have hdrop : verdict.1 = .drop →
            (receive env ⟨⟨message, .udp, datagram.peer.ip⟩, verdict.1⟩ s.server).1 = some .dropped := by
          intro hdropped
          unfold receive
          simp only [hquestion, hdropped]
        split
        · rename_i outcome houtcome
          refine endTask_kept h htask hlimiter (fun octets net hreply => ?_)
            (fun octets hreply => ?_) delivered
          · refine hpassed net fun hdropped => ?_
            rw [hdrop hdropped] at houtcome
            cases houtcome
            cases hreply
          · obtain ⟨c', hprotocol, hclientIp, hcall⟩ := hcalled outcome houtcome
            exact ⟨c', hprotocol, hclientIp,
              (congrArg ProcessOutcome.buffer (hcall _ hdecode)).trans hreply⟩
        · rename_i hnone
          have hverdict' : verdict.1 ≠ .drop := by
            intro hdropped
            rw [hdrop hdropped] at hnone
            cases hnone
          refine ⟨?_, ?_, fun net => ?_, ?_, h.sent⟩
          · rw [limiterRun_append, ← h.limiter, hlimiter]
          · show PermitPool.Accounts _ _ _ s.received
            rw [← List.append_nil s.received]
            exact h.datagrams.replace htask [] (List.Subperm.refl [datagram])
          · rw [acquired_append, ← h.limiter]
            exact (h.tokens net).replace htask _ (hpassed net hverdict')
          · intro task hmem
            rcases PermitPool.mem_replace hmem with hold | rfl
            · exact h.tasks task hold
            · exact ⟨(h.tasks _ (List.mem_of_getElem? htask)).1, hdecode, rfl, rfl, hwaits hnone⟩
      · exact hmalformed
  · exact h

theorem finishTask_kept {s : UdpState limit} (h : UdpInvariant env config s) (index : Nat)
    (result : Option (Message × DnssecStatus)) (delivered : Bool) :
    UdpInvariant env config (finishTask env index result delivered s) := by
  unfold finishTask
  split
  · rename_i datagram nowMillis req query now htask
    obtain ⟨-, hdecode, hprotocol, hclientIp, hcalled⟩ := h.tasks _ (List.mem_of_getElem? htask)
    obtain ⟨c, hc, hip, hcall⟩ := finish_called config env hcalled result s.server
    refine endTask_kept_of_no_check h htask (fun octets net hreply => rfl) (fun octets hreply => ?_)
      delivered
    exact ⟨c, hc.trans hprotocol, hip.trans hclientIp,
      (congrArg ProcessOutcome.buffer (hcall _ hdecode)).trans hreply⟩
  · exact h

/-- Every event keeps the invariant. -/
theorem udpStep_kept {s : UdpState limit} (h : UdpInvariant env config s) (event : UdpEvent) :
    UdpInvariant env config (udpStep env config s event) := by
  cases event with
  | datagram octets peer => exact receiveDatagram_kept h octets peer
  | recvError => exact h
  | start index nowMillis delivered => exact startTask_kept h index nowMillis delivered
  | finish index result delivered => exact finishTask_kept h index result delivered
  | limiter event =>
      refine ⟨?_, h.datagrams, fun net => ?_, h.tasks, h.sent⟩
      · show limiterStep config s.limiter event = limiterRun config (s.checks ++ [event]) .new
        rw [limiterRun_append, ← h.limiter]
        rfl
      · show s.pool.Accounts _ _ (acquired config net .new (s.checks ++ [event]))
        rw [acquired_append]
        exact (h.tokens net).mono _
  | shared server => exact ⟨h.limiter, h.datagrams, h.tokens, h.tasks, h.sent⟩

theorem udpRun_invariant (env : ServerEnv (List Byte)) (config : LimiterConfig) (limit : Nat)
    (server : ServerState (List Byte)) (events : List UdpEvent) :
    UdpInvariant env config (udpRun env config limit server events) :=
  @Along.invariant _ _ (udpStep env config) (fun _ _ => True) (UdpInvariant env config)
    (fun _ event h _ => udpStep_kept h event) _ (.init server) events
    (Along.of_forall (fun _ _ => trivial) _)

end Invariant

/-! ### Whole runs -/

section Runs

variable {env : ServerEnv (List Byte)} {config : LimiterConfig} {limit : Nat}

/-- The datagram that comes with an event. -/
def UdpEvent.incoming : UdpEvent → Option Datagram
  | .datagram octets peer => some ⟨octets, peer⟩
  | _ => none

theorem udpStep_received (s : UdpState limit) (event : UdpEvent) :
    (udpStep env config s event).received = s.received ++ event.incoming.toList := by
  cases event with
  | datagram octets peer =>
      show (receiveDatagram octets peer s).received = s.received ++ [⟨octets, peer⟩]
      unfold receiveDatagram
      simp only
      split
      · rfl
      · split
        · rfl
        · split
          · rfl
          · rfl
  | recvError => exact (List.append_nil _).symm
  | start index nowMillis delivered =>
      refine Eq.trans ?_ (List.append_nil _).symm
      show (startTask env config index nowMillis delivered s).received = s.received
      unfold startTask
      split
      · split
        · rfl
        · split
          · simp only
            split
            · rfl
            · rfl
          · rfl
      · rfl
  | finish index result delivered =>
      refine Eq.trans ?_ (List.append_nil _).symm
      show (finishTask env index result delivered s).received = s.received
      unfold finishTask
      split
      · rfl
      · rfl
  | limiter event => exact (List.append_nil _).symm
  | shared server => exact (List.append_nil _).symm

/-- What has been received is what came in the run. -/
theorem udpRun_received (env : ServerEnv (List Byte)) (config : LimiterConfig) (limit : Nat)
    (server : ServerState (List Byte)) (events : List UdpEvent) :
    (udpRun env config limit server events).received = events.filterMap UdpEvent.incoming :=
  foldl_records udpStep_received (.init limit server) events

/-- An acceptable datagram finds a permit unless all are held. -/
theorem receiveDatagram_spawns (s : UdpState limit) {octets : List Byte} {peer : SocketAddr}
    (haccepted : (⟨octets, peer⟩ : Datagram).Accepted) :
    (receiveDatagram octets peer s).pool.held =
      if s.pool.held.length < limit then s.pool.held ++ [.spawned ⟨octets, peer⟩] else s.pool.held := by
  obtain ⟨hleast, hgreatest⟩ := haccepted
  have hwhole : octets.take maxUdpUserBuf = octets := by
    refine take_maxUdpUserBuf ?_
    have hshorter : (octets.take maxUdpUserBuf).length ≤ octets.length := List.length_take_le' _ _
    exact Nat.not_lt.mpr (hshorter.trans hgreatest)
  unfold receiveDatagram
  simp only [hwhole, if_neg (Nat.not_lt.mpr hleast), if_neg (Nat.not_lt.mpr hgreatest)]
  rcases s.pool.acquire_cases (.spawned ⟨octets, peer⟩) with ⟨pool, hpool, hheld, hroom⟩ | ⟨hnone, hfull⟩
  · rw [hpool, if_pos hroom]
    exact hheld
  · rw [hnone, if_neg hfull]

/-- **The UDP listener accounts for its replies.**  In every run, whatever else happens to the shared state:
every datagram that is sent goes out for the outcome of `process_dns_query` on the whole of a datagram of 12
to 4096 octets that came from the address it goes to; no datagram gets two; at most `limit` tasks run; and an
acceptable datagram is turned away only while `limit` of them do. -/
theorem udp_replies_accounted (env : ServerEnv (List Byte)) (config : LimiterConfig) (limit : Nat)
    (server : ServerState (List Byte)) (events : List UdpEvent) :
    let s := udpRun env config limit server events
    (s.sent.map SentDatagram.request).Subperm (events.filterMap UdpEvent.incoming) ∧
      (∀ reply ∈ s.sent, reply.request.Accepted ∧ reply.Replies env config) ∧
      s.pool.held.length ≤ limit ∧
      ∀ octets peer, (⟨octets, peer⟩ : Datagram).Accepted →
        (udpStep env config s (.datagram octets peer)).pool.held =
          if s.pool.held.length < limit then s.pool.held ++ [.spawned ⟨octets, peer⟩]
          else s.pool.held := by
  intro s
  have hkept : UdpInvariant env config s := udpRun_invariant env config limit server events
  refine ⟨?_, hkept.sent, s.pool.held_le, fun octets peer haccepted => receiveDatagram_spawns s haccepted⟩
  rw [← udpRun_received env config limit server events]
  exact hkept.datagrams.done_subperm

end Runs

/-! ### What a network is sent -/

section Octets

variable {env : ServerEnv (List Byte)} {config : LimiterConfig} {limit : Nat}

/-- A window of clock readings. -/
def inMillis (start millis time : Nat) : Bool := decide (start ≤ time ∧ time ≤ start + millis)

/-- The octets sent to clients of the network outside of the host itself, for datagrams that the limiter saw
in the window. -/
def octetsTo (net : IpAddr) (start millis : Nat) (sent : List SentDatagram) : Nat :=
  ((sent.filter fun reply => (reply.token net).any (inMillis start millis)).map
    fun reply => reply.octets.length).sum

/-- The token bucket of a network in a run, whatever its events are. -/
theorem tokens_in_window (hcapacity : 0 ≤ config.capacity) (hrate : 0 ≤ config.refillPerSec)
    (net : IpAddr) {events : List LimiterEvent} (horder : InClockOrder (visits net events))
    (hspares : ∀ nowMillis maxAgeMillis, LimiterEvent.cleanup nowMillis maxAgeMillis ∈ events →
      config.capacity * 1000 ≤ config.refillPerSec * maxAgeMillis) (start millis : Nat) :
    1000 * (((acquired config net .new events).countP (inMillis start millis) : Nat) : Int) ≤
      1000 * config.capacity + config.refillPerSec * millis := by
  have hvisits : SparesUnfilled config (visits net events) := by
    intro time maxAgeMillis hmem
    obtain ⟨event, hevent, hvisit⟩ := List.mem_filterMap.mp hmem
    cases event with
    | query nowMillis protocol clientIp qname qtype =>
        simp only [LimiterEvent.visit] at hvisit
        split at hvisit
        · cases hvisit
        · cases hvisit
    | cleanup nowMillis age =>
        cases hvisit
        exact hspares _ _ hevent
  obtain ⟨hcovers, -⟩ := visits_below hcapacity hrate (bucketBelow_none hrate)
    (fun time _ => Nat.zero_le time) horder hvisits
  have hsorted : ((granted config none (visits net events)).map (Nat.cast : Nat → Int)).Pairwise
      (· ≤ ·) := (granted_sorted horder none).map _ fun _ _ hle => Int.ofNat_le.mpr hle
  have hwindow := hcovers.conforms hrate (by decide : (0 : Int) ≤ 1000)
    (mul_nonneg (by decide) hcapacity) hsorted start (start + millis) (by omega)
  rw [inWindow_cast, add_sub_cancel_left] at hwindow
  rw [acquired_eq_granted]
  exact hwindow

/-- No reply to a client outside is longer than the largest payload that is accepted. -/
theorem SentDatagram.Replies.octets_le (hsmall : env.SmallQuestions)
    (hsize : ∀ wire, env.size wire = wire.length) {reply : SentDatagram}
    (h : reply.Replies env config) (hclient : isLoopback reply.request.peer.ip = false) :
    reply.octets.length ≤ 1232 := by
  obtain ⟨c, hudp, hip, hreply⟩ := h
  rw [← hip] at hclient
  rcases ProcessOutcome.buffer_cases hreply with hwire | hempty
  · rw [← hsize]
    cases hdecode : env.decode reply.request.octets with
    | none =>
        unfold processDnsQuery at hwire
        simp only [hdecode] at hwire
        cases hwire
    | some message =>
        have hpayload := (clientEdns_payload message).2
        by_cases hquestion : ∃ query, message.queries = [query]
        · obtain ⟨query, hquestion⟩ := hquestion
          rw [processDnsQuery_eq config c hdecode hquestion] at hwire
          split at hwire
          · have hbare := hsmall _ _ (truncatedResponse_questionOnly message.id query) hwire
            omega
          · cases hwire
          · split at hwire
            · exact (sendTailored_size hsmall hudp hclient hwire).trans hpayload
            · exact (missOutcome_size hsmall hudp hclient hwire).trans hpayload
        · rw [processDnsQuery_malformed hdecode hquestion] at hwire
          cases hwire
  · rw [hempty]
    exact Nat.zero_le _

theorem token_eq_some {net : IpAddr} {reply : SentDatagram} {time : Nat}
    (h : reply.token net = some time) : isLoopback reply.request.peer.ip = false := by
  unfold SentDatagram.token tokenOf at h
  split at h
  · rename_i hclient
    exact hclient.1
  · cases h

/-- Each token of the window pays for 1232 octets. -/
theorem octetsTo_le {net : IpAddr} {start millis : Nat} {sent : List SentDatagram}
    (hoctets : ∀ reply ∈ sent, isLoopback reply.request.peer.ip = false → reply.octets.length ≤ 1232) :
    octetsTo net start millis sent ≤
      1232 * (sent.filterMap (SentDatagram.token net)).countP (inMillis start millis) := by
  induction sent with
  | nil => exact Nat.zero_le _
  | cons reply rest ih =>
      obtain ⟨hreply, hrest⟩ := List.forall_mem_cons.mp hoctets
      have hlater := ih hrest
      rw [PermitPool.filterMap_cons_toList, List.countP_append]
      unfold octetsTo at hlater ⊢
      cases htoken : reply.token net with
      | none =>
          rw [List.filter_cons_of_neg (by simp [htoken])]
          simpa using hlater
      | some time =>
          have hlength := hreply (token_eq_some htoken)
          by_cases hwindow : inMillis start millis time = true
          · rw [List.filter_cons_of_pos (by simpa [htoken] using hwindow)]
            simp only [List.map_cons, List.sum_cons, Option.toList_some, List.countP_singleton, hwindow,
              if_true]
            omega
          · rw [List.filter_cons_of_neg (by simpa [htoken] using hwindow)]
            simp only [Option.toList_some, List.countP_singleton, hwindow, Bool.false_eq_true, if_false]
            omega

/-- **The reflection bound.**  Take any run of the listener together with everything else that calls the
limiter, in which the limiter's clock does not run backwards and cleanup passes spare buckets until they could
be full.  For datagrams that the limiter sees within `millis` milliseconds, a client network is sent no more
than 1232 octets for each token of its burst and of its rate in that time, whatever is asked, by how many
tasks at once, and however large the answers are. -/
theorem udp_octets_bounded (hsmall : env.SmallQuestions) (hsize : ∀ wire, env.size wire = wire.length)
    (hcapacity : 0 ≤ config.capacity) (hrate : 0 ≤ config.refillPerSec)
    (server : ServerState (List Byte)) (events : List UdpEvent) (net : IpAddr)
    (horder : InClockOrder (visits net (udpRun env config limit server events).checks))
    (hspares : ∀ nowMillis maxAgeMillis,
      LimiterEvent.cleanup nowMillis maxAgeMillis ∈ (udpRun env config limit server events).checks →
        config.capacity * 1000 ≤ config.refillPerSec * maxAgeMillis) (start millis : Nat) :
    1000 * (octetsTo net start millis (udpRun env config limit server events).sent : Int) ≤
      1232 * (1000 * config.capacity + config.refillPerSec * millis) := by
  have hkept := udpRun_invariant env config limit server events
  generalize udpRun env config limit server events = s at *
  have hoctets : octetsTo net start millis s.sent ≤
      1232 * (s.sent.filterMap (SentDatagram.token net)).countP (inMillis start millis) :=
    octetsTo_le fun reply hreply => (hkept.sent reply hreply).2.octets_le hsmall hsize
  have hpaid : (s.sent.filterMap (SentDatagram.token net)).countP (inMillis start millis) ≤
      (acquired config net .new s.checks).countP (inMillis start millis) :=
    (hkept.tokens net).done_subperm.countP_le _
  have htokens := tokens_in_window hcapacity hrate net horder hspares start millis
  omega

end Octets

/-- A client with its port. -/
def retryPeer : SocketAddr := ⟨.v4 ⟨192, 0, 2, 1⟩, 40000⟩

/-- A runt, a question that the resolver fails on, and the same question half a second later. -/
def retryEvents : List UdpEvent :=
  [.datagram [0, 0] retryPeer, .datagram (questionWire plainClient.message leafQuery) retryPeer,
    .start 0 0 true, .finish 0 none true,
    .datagram (questionWire plainClient.message leafQuery) retryPeer, .start 0 500 true]

def retryRun : UdpState 2048 :=
  udpRun questionServer sampleNode.limiter 2048 (.init (List Byte)) retryEvents

theorem retryRun_checks : retryRun.checks =
    [.query 0 .udp retryPeer.ip leafQuery.name leafQuery.queryType,
      .query 500 .udp retryPeer.ip leafQuery.name leafQuery.queryType] := rfl

/-- A SERVFAIL and a challenge, 21 octets each. -/
theorem udp_octets_bounded_retry :
    octetsTo (.v4 ⟨192, 0, 2, 0⟩) 0 1000 retryRun.sent = 42 ∧
      ∀ start millis : Nat, 1000 * (octetsTo (.v4 ⟨192, 0, 2, 0⟩) start millis retryRun.sent : Int) ≤
        1232 * (1000 * 10 + 10 * millis) := by
  have hrun : udpRun questionServer sampleNode.limiter 2048 (.init (List Byte)) retryEvents = retryRun := rfl
  refine ⟨by decide +kernel, fun start millis => ?_⟩
  refine udp_octets_bounded questionServer_smallQuestions (fun wire => rfl) (by decide) (by decide)
    (.init (List Byte)) retryEvents (.v4 ⟨192, 0, 2, 0⟩) ?_ ?_ start millis
  · rw [hrun, retryRun_checks]
    show InClockOrder [.spend 0, .spend 500]
    simp [InClockOrder, Visit.time]
  · intro nowMillis maxAgeMillis hmem
    rw [hrun, retryRun_checks] at hmem
    simp at hmem

end Engine
end UnifiedDns
