import UnifiedDns.Recursor.SpecialUse

/-!
# Asking the servers

`query_socket` and `query_servers_with_fallback`: the datagram, the two ways to a retry over TCP, and the
servers asked in batches of three.  Every attempt to send or to connect is logged.

* `Network` — what the servers and the network decide: the bytes that come back, the order of replies, the
  shuffles.  Decoding is a parameter.
* `Network.querySocket`, `Network.queryServers` — the functions, each with its log of contacts.
* `Network.env` — the outside of a resolution over this network.
* `no_request_forgery` — no run contacts or remembers an address of a special-use range.
-/

namespace UnifiedDns
namespace Recursor

/-- An attempt to send a datagram or to open a connection. -/
inductive Contact
  | udp (ip : IpAddr)
  | tcp (ip : IpAddr)
deriving DecidableEq, Repr

def Contact.address : Contact → IpAddr
  | .udp ip => ip
  | .tcp ip => ip

/-- How one connection over TCP goes that comes to an end.  After a truncated reply a timeout sees to that,
and a late connection gives fewer bytes.  The two retries of the first query read without a timeout: a server
that sends too little and does not close keeps its task waiting, and no attempt stands for that. -/
structure TcpAttempt where
  connected : Bool
  written : Bool
  received : List Byte

/-- What one task of `query_socket` meets. -/
structure Exchange where
  txid : UInt16
  bound : Bool
  connected : Bool
  sent : Bool
  /-- The first datagram, if one comes in time. -/
  datagram : Option (List Byte)
  retry : TcpAttempt
  afterTruncation : TcpAttempt

structure Network where
  encode : Message → Option (List Byte)
  /-- `Message::read`. -/
  read : List Byte → Option Message
  /-- What a task meets, by outside event and number of the task. -/
  exchange : Nat → Nat → Exchange
  shuffle : Nat → List IpAddr → List IpAddr
  shuffle_perm : ∀ tick ips, (shuffle tick ips).Perm ips
  /-- The order in which the tasks of a batch end. -/
  arrival : Nat → List (Option Message) → List (Option Message)
  arrival_perm : ∀ tick replies, (arrival tick replies).Perm replies

/-- `decode_response`: bytes that do not decode are tried again without their additional section. -/
def decodeResponse (read : List Byte → Option Message) (buf : List Byte) : Option Message :=
  match read buf with
  | some msg => some msg
  | none =>
      if 12 ≤ buf.length ∧ (buf.getD 10 0, buf.getD 11 0) ≠ (0, 0) then
        read ((buf.set 10 0).set 11 0)
      else none

/-- `response_matches`. -/
def responseMatches (response : Message) (txid : UInt16) (sentName : Name) (rtype : RecordType) :
    Bool :=
  if response.id ≠ txid ∨ response.messageType ≠ .response then false
  else if response.opCode ≠ .query then false
  else
    match response.queries with
    | [q] => if q.queryType ≠ rtype ∨ q.queryClass ≠ .IN then false else q.name == sentName
    | _ => false

/-- The query that is sent upstream. -/
def upstreamQuery (txid : UInt16) (name : Name) (rtype : RecordType) : Message :=
  { Message.new with
    id := txid
    checkingDisabled := true
    edns := some ⟨1232, true, 0⟩
    queries := [⟨name, rtype, .IN⟩] }

/-- One framed message: two octets of length, at least 12, and as many octets. -/
def readFrame : List Byte → Option (List Byte)
  | b0 :: b1 :: rest =>
      let respLen := b0.val * 256 + b1.val
      if 12 ≤ respLen ∧ respLen ≤ rest.length then some (rest.take respLen) else none
  | _ => none

namespace Network

variable (W : Network)

/-- A query over TCP. -/
def queryTcp (attempt : TcpAttempt) (ip : IpAddr) : Option Message × List Contact :=
  if attempt.connected && attempt.written then
    ((readFrame attempt.received).bind (decodeResponse W.read), [.tcp ip])
  else (none, [.tcp ip])

/-- The datagram and its first reply; FORMERR and bytes that do not decode lead to TCP. -/
def queryUdp (x : Exchange) (ip : IpAddr) : Option Message × List Contact :=
  match x.datagram with
  | none => (none, [.udp ip])
  | some bytes =>
      match decodeResponse W.read (bytes.take 4096) with
      | some resp =>
          if resp.responseCode ≠ .formErr then (some resp, [.udp ip])
          else
            let (tcpResp, contacts) := W.queryTcp x.retry ip
            (tcpResp, .udp ip :: contacts)
      | none =>
          let (tcpResp, contacts) := W.queryTcp x.retry ip
          (tcpResp, .udp ip :: contacts)

/-- What is done with the first reply: it must match, and a truncated one is asked for over TCP. -/
def finishQuery (x : Exchange) (ip : IpAddr) (name : Name) (rtype : RecordType)
    (response : Message) : Option Message × List Contact :=
  if responseMatches response x.txid name rtype = false then (none, [])
  else if response.truncated then
    let (tcpResponse, contacts) := W.queryTcp x.afterTruncation ip
    (tcpResponse.filter fun msg => responseMatches msg x.txid name rtype, contacts)
  else (some response, [])

/-- `query_socket`.  Its callers do not look at an error, so every error is `none`. -/
def querySocket (x : Exchange) (ip : IpAddr) (name : Name) (rtype : RecordType) :
    Option Message × List Contact :=
  if isSafeUpstreamIp ip = false then (none, [])
  else
    match W.encode (upstreamQuery x.txid name rtype) with
    | none => (none, [])
    | some _ =>
        if x.bound = false ∨ x.connected = false then (none, [])
        else if x.sent = false then (none, [.udp ip])
        else
          match W.queryUdp x ip with
          | (none, contacts) => (none, contacts)
          | (some response, contacts) =>
              let (result, more) := W.finishQuery x ip name rtype response
              (result, contacts ++ more)

end Network

/-- A reply that ends the search. -/
def acceptableReply (msg : Message) : Bool :=
  decide (msg.responseCode = .noError ∨ msg.responseCode = .nxDomain)

/-- `chunks(3)`. -/
def batches {α : Type*} : List α → List (List α)
  | a :: b :: c :: rest => [a, b, c] :: batches rest
  | [] => []
  | short => [short]

def isIpv4 : IpAddr → Bool
  | .v4 _ => true
  | .v6 _ => false

namespace Network

variable (W : Network)

/-- The loop over the batches that are left.  All tasks of a batch are started; one that is aborted makes
no more contacts than are logged for it here. -/
def askBatches (tick : Nat) (name : Name) (rtype : RecordType) :
    List (List (IpAddr × Nat)) → Option Message × List Contact
  | [] => (none, [])
  | batch :: rest =>
      let tasks := batch.map fun task => W.querySocket (W.exchange tick task.2) task.1 name rtype
      let contacts := tasks.flatMap Prod.snd
      match (W.arrival tick (tasks.map Prod.fst)).findSome? (Option.filter acceptableReply) with
      | some msg => (some msg, contacts)
      | none =>
          let (result, more) := askBatches tick name rtype rest
          (result, contacts ++ more)

/-- The servers in the order they are asked: IPv4 first. -/
def prioritize (tick : Nat) (servers : List IpAddr) : List IpAddr :=
  W.shuffle tick (servers.filter isIpv4) ++ W.shuffle tick (servers.filter fun ip => !isIpv4 ip)

/-- `query_servers_with_fallback`. -/
def queryServers (tick : Nat) (servers : List IpAddr) (name : Name) (rtype : RecordType) :
    Option Message × List Contact :=
  if servers.isEmpty then (none, [])
  else W.askBatches tick name rtype (batches (W.prioritize tick servers).zipIdx)

/-- The outside of a resolution over this network. -/
def env (P : Platform) (clock : Nat → Nat) : REnv where
  platform := P
  clock := clock
  reply tick servers name rtype := (W.queryServers tick servers name rtype).1

end Network

/-! ### The contacts of a query -/

section Contacts

variable (W : Network)

theorem queryTcp_contacts (attempt : TcpAttempt) (ip : IpAddr) :
    ∀ c ∈ (W.queryTcp attempt ip).2, c.address = ip := by
  have hone : ∀ c ∈ [Contact.tcp ip], c.address = ip := List.forall_mem_singleton.mpr rfl
  unfold Network.queryTcp
  split
  · exact hone
  · exact hone

theorem queryUdp_contacts (x : Exchange) (ip : IpAddr) :
    ∀ c ∈ (W.queryUdp x ip).2, c.address = ip := by
  have hone : ∀ c ∈ [Contact.udp ip], c.address = ip := List.forall_mem_singleton.mpr rfl
  have hretry : ∀ c ∈ Contact.udp ip :: (W.queryTcp x.retry ip).2, c.address = ip :=
    List.forall_mem_cons.mpr ⟨rfl, queryTcp_contacts W x.retry ip⟩
  unfold Network.queryUdp
  split
  · exact hone
  · split
    · split
      · exact hone
      · exact hretry
    · exact hretry

theorem finishQuery_contacts (x : Exchange) (ip : IpAddr) (name : Name) (rtype : RecordType)
    (response : Message) :
    ∀ c ∈ (W.finishQuery x ip name rtype response).2, c.address = ip := by
  unfold Network.finishQuery
  split
  · exact List.forall_mem_nil _
  · split
    · exact queryTcp_contacts W x.afterTruncation ip
    · exact List.forall_mem_nil _

/-- All four ways to the outside lie behind the address test, and lead to the address that was tested. -/
theorem querySocket_contacts (x : Exchange) (ip : IpAddr) (name : Name) (rtype : RecordType) :
    ∀ c ∈ (W.querySocket x ip name rtype).2, c.address = ip ∧ isSafeUpstreamIp ip = true := by
  unfold Network.querySocket
  split
  · exact List.forall_mem_nil _
  · rename_i hsafe
    have hsafe : isSafeUpstreamIp ip = true := by simpa using hsafe
    suffices haddress : ∀ contacts : List Contact, (∀ c ∈ contacts, c.address = ip) →
        ∀ c ∈ contacts, c.address = ip ∧ isSafeUpstreamIp ip = true by
      have hudp := queryUdp_contacts W x ip
      apply haddress
      split
      · exact List.forall_mem_nil _
      · split
        · exact List.forall_mem_nil _
        · split
          · exact List.forall_mem_singleton.mpr rfl
          · split
            · rename_i heq
              rwa [heq] at hudp
            · rename_i response contacts heq
              rw [heq] at hudp
              exact List.forall_mem_append.mpr
                ⟨hudp, finishQuery_contacts W x ip name rtype response⟩
    exact fun contacts h c hc => ⟨h c hc, hsafe⟩

theorem mem_of_mem_batches {α : Type*} {l batch : List α} {a : α} (hbatch : batch ∈ batches l)
    (ha : a ∈ batch) : a ∈ l := by
  induction l using batches.induct with
  | case1 x y z rest ih =>
      rcases List.mem_cons.mp hbatch with rfl | hrest
      · have hthree : a ∈ [x, y, z] := ha
        simp only [List.mem_cons, List.not_mem_nil, or_false] at hthree ⊢
        tauto
      · exact List.mem_cons_of_mem _ (List.mem_cons_of_mem _ (List.mem_cons_of_mem _ (ih hrest)))
  | case2 => cases hbatch
  | case3 short hnotLong hne =>
      have hself : batches short = [short] := by
        rcases short with _ | ⟨x, _ | ⟨y, _ | ⟨z, rest⟩⟩⟩
        · exact absurd rfl hne
        · rfl
        · rfl
        · exact absurd rfl (hnotLong x y z rest)
      rw [hself, List.mem_singleton] at hbatch
      rwa [← hbatch]

theorem askBatches_contacts (tick : Nat) (name : Name) (rtype : RecordType)
    (tasks : List (List (IpAddr × Nat))) :
    ∀ c ∈ (W.askBatches tick name rtype tasks).2,
      isSafeUpstreamIp c.address = true ∧ ∃ batch ∈ tasks, ∃ task ∈ batch, task.1 = c.address := by
  induction tasks with
  | nil =>
      exact List.forall_mem_nil _
  | cons batch rest ih =>
      have hbatch : ∀ c ∈ (batch.map fun task =>
          W.querySocket (W.exchange tick task.2) task.1 name rtype).flatMap Prod.snd,
          isSafeUpstreamIp c.address = true ∧
            ∃ b ∈ batch :: rest, ∃ task ∈ b, task.1 = c.address := by
        intro c hc
        obtain ⟨result, hresult, hc⟩ := List.mem_flatMap.mp hc
        obtain ⟨task, htask, rfl⟩ := List.mem_map.mp hresult
        obtain ⟨haddress, hsafe⟩ := querySocket_contacts W _ _ _ _ c hc
        rw [haddress]
        exact ⟨hsafe, batch, List.mem_cons_self, task, htask, rfl⟩
      simp only [Network.askBatches]
      split
      · exact hbatch
      · intro c hc
        rcases List.mem_append.mp hc with hhere | hlater
        · exact hbatch c hhere
        · obtain ⟨hsafe, b, hb, htask⟩ := ih c hlater
          exact ⟨hsafe, b, List.mem_cons_of_mem _ hb, htask⟩

theorem mem_prioritize {tick : Nat} {servers : List IpAddr} {ip : IpAddr}
    (h : ip ∈ W.prioritize tick servers) : ip ∈ servers := by
  rcases List.mem_append.mp h with hv4 | hv6
  · exact List.mem_of_mem_filter ((W.shuffle_perm tick _).mem_iff.mp hv4)
  · exact List.mem_of_mem_filter ((W.shuffle_perm tick _).mem_iff.mp hv6)

/-- A query contacts servers of the given list only, and none that fails the address test. -/
theorem queryServers_contacts (tick : Nat) (servers : List IpAddr) (name : Name)
    (rtype : RecordType) :
    ∀ c ∈ (W.queryServers tick servers name rtype).2,
      isSafeUpstreamIp c.address = true ∧ c.address ∈ servers := by
  unfold Network.queryServers
  split
  · exact List.forall_mem_nil _
  · intro c hc
    obtain ⟨hsafe, batch, hbatch, task, htask, haddress⟩ := askBatches_contacts W _ _ _ _ c hc
    have hmem : task ∈ (W.prioritize tick servers).zipIdx := mem_of_mem_batches hbatch htask
    rw [← haddress]
    exact ⟨haddress ▸ hsafe, mem_prioritize W (List.fst_mem_of_mem_zipIdx hmem)⟩

end Contacts

/-- A reply of the batches has an acceptable response code. -/
theorem askBatches_acceptable (W : Network) {tick : Nat} {name : Name} {rtype : RecordType}
    {tasks : List (List (IpAddr × Nat))} {msg : Message}
    (h : (W.askBatches tick name rtype tasks).1 = some msg) :
    msg.responseCode = .noError ∨ msg.responseCode = .nxDomain := by
  induction tasks with
  | nil => cases h
  | cons batch rest ih =>
      simp only [Network.askBatches] at h
      split at h
      · rename_i found hfound
        obtain ⟨reply, -, hreply⟩ := List.exists_of_findSome?_eq_some hfound
        obtain rfl := Option.some.inj h
        exact of_decide_eq_true (Option.filter_eq_some_iff.mp hreply).2
      · exact ih h

theorem queryServers_acceptable (W : Network) {tick : Nat} {servers : List IpAddr} {name : Name}
    {rtype : RecordType} {msg : Message}
    (h : (W.queryServers tick servers name rtype).1 = some msg) :
    msg.responseCode = .noError ∨ msg.responseCode = .nxDomain := by
  unfold Network.queryServers at h
  split at h
  · cases h
  · exact askBatches_acceptable W h

/-- The resolver's view of a query is the query over the network. -/
theorem queryServersWithFallback_env (W : Network) (P : Platform) (clock : Nat → Nat)
    (servers : List IpAddr) (name : Name) (rtype : RecordType) (s : RState) :
    (queryServersWithFallback (W.env P clock) servers name rtype s).1 =
      (W.queryServers s.tick servers name rtype).1 := by
  unfold queryServersWithFallback
  split
  · rename_i hempty
    unfold Network.queryServers
    rw [if_pos hempty]
  · simp only [Network.env]
    split
    · rename_i msg hmsg
      rw [if_pos (queryServers_acceptable W hmsg), hmsg]
    · rename_i hnone
      rw [hnone]

/-- **No request forgery through delegations.**  In every run over every network no address of a
special-use range is remembered, and whatever servers a query is sent to, none is contacted. -/
theorem no_request_forgery (W : Network) (P : Platform) (clock : Nat → Nat) {s : RState}
    (hrun : ResolverRun (W.env P clock) s) :
    (∀ key entry, s.delegationCache key = some entry → ∀ ip ∈ entry.servers, ¬ Forbidden ip) ∧
      (∀ tick servers name rtype, ∀ contact ∈ (W.queryServers tick servers name rtype).2,
        ¬ Forbidden contact.address ∧ contact.address ∈ servers) ∧
      ∀ ip ∈ rootServers, ¬ Forbidden ip := by
  refine ⟨?_, ?_, ?_⟩
  · intro key entry hentry ip hip
    exact (isSafeUpstreamIp_iff ip).mp (hrun.safeDelegations key entry hentry ip hip)
  · intro tick servers name rtype contact hcontact
    obtain ⟨hsafe, hmem⟩ := queryServers_contacts W tick servers name rtype contact hcontact
    exact ⟨(isSafeUpstreamIp_iff _).mp hsafe, hmem⟩
  · intro ip hip
    exact (isSafeUpstreamIp_iff ip).mp (rootServers_safe ip hip)

/-! A server that offers three addresses for its nameserver, two of them in special-use ranges, and
truncates its datagram. -/

def forgedReferral : Message :=
  { referralTo parentZone parentZone ⟨1, 1, 1, 1⟩ with
    messageType := .response
    queries := [⟨parentZone, .A, .IN⟩]
    additionals := [⟨parentZone, .IN, 300, .a ⟨169, 254, 169, 254⟩⟩,
      ⟨parentZone, .IN, 300, .aaaa ⟨0, 0, 0, 0, 0, 0xffff, 0x7f00, 1⟩⟩,
      ⟨parentZone, .IN, 300, .a ⟨1, 1, 1, 1⟩⟩] }

/-- One octet is read as the truncated referral, twelve as the whole one.  Only the first query of a
resolution is answered. -/
def forgingNetwork : Network where
  encode _ := some []
  read buf := if buf.length = 1 then some { forgedReferral with truncated := true }
    else if buf.length = 12 then some forgedReferral else none
  exchange tick _ :=
    { txid := 0, bound := true, connected := true, sent := true
      datagram := if tick = 1 then some [0] else none
      retry := ⟨false, false, []⟩
      afterTruncation := ⟨true, true, [0, 12] ++ List.replicate 12 0⟩ }
  shuffle _ ips := ips
  shuffle_perm _ _ := .refl _
  arrival _ replies := replies
  arrival_perm _ _ := .refl _

def forgedState : RState :=
  (resolve (forgingNetwork.env .plain fun _ => 0) parentZone .A .init).2

/-- The safe address is remembered, and it and the root servers are contacted; the others are not. -/
theorem no_request_forgery_forgedState :
    (forgedState.delegationCache (Platform.plain.nameKey parentZone)).map (·.servers) =
        some [ip4 1 1 1 1] ∧
      (forgingNetwork.queryServers 3 [ip4 1 1 1 1, ip4 127 0 0 1] parentZone .A).2 =
        [.udp (ip4 1 1 1 1)] ∧
      (∀ key entry, forgedState.delegationCache key = some entry →
        ∀ ip ∈ entry.servers, ¬ Forbidden ip) ∧
      ∀ contact ∈ (forgingNetwork.queryServers 1 rootServers parentZone .A).2,
        ¬ Forbidden contact.address :=
  have hsafe := no_request_forgery forgingNetwork .plain (fun _ => 0)
    (.resolve parentZone .A .init : ResolverRun (forgingNetwork.env .plain fun _ => 0) forgedState)
  ⟨by decide +kernel, by decide +kernel, hsafe.1,
    fun contact hcontact => (hsafe.2.1 1 rootServers parentZone .A contact hcontact).1⟩

end Recursor
end UnifiedDns
