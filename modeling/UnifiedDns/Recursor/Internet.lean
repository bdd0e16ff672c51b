import UnifiedDns.Recursor.HonestResolution
import UnifiedDns.Recursor.Transport

/-!
# Resolution over the network

`query_socket` and `query_servers_with_fallback` against the hosts of a network: which replies come through,
and that a resolution over a network of honest hosts is a resolution among honest servers.

* `TcpReply`, `FirstReply`, `Delivers` — the ways a reply takes: a datagram, a connection after a truncated
  or refused or unreadable one.
* `querySocket_eq_some_iff` — these are the ways.
* `FirstAcceptable`, `query_first_batch` — the reply is the first to arrive of the first batch that has one.
* `Internet` — hosts by address; `Internet.Honest` — the live ones reply as servers of their zones do.
* `internet_resolution` — resolution over a network of honest hosts.
-/

namespace UnifiedDns
namespace Recursor

/-! ### One server -/

/-- A connection brings a whole frame that decodes. -/
structure TcpReply (N : Network) (attempt : TcpAttempt) (m : Message) : Prop where
  connected : attempt.connected = true
  written : attempt.written = true
  decodes : ∃ body, readFrame attempt.received = some body ∧ decodeResponse N.read body = some m

/-- The first reply: the datagram, or over TCP when the datagram refuses the form of the query or does not
decode. -/
inductive FirstReply (N : Network) (x : Exchange) (m : Message) : Prop
  | datagram {bytes : List Byte} (hbytes : x.datagram = some bytes)
      (hdecodes : decodeResponse N.read (bytes.take 4096) = some m)
      (hcode : m.responseCode ≠ .formErr)
  | refused {bytes : List Byte} {refusal : Message} (hbytes : x.datagram = some bytes)
      (hdecodes : decodeResponse N.read (bytes.take 4096) = some refusal)
      (hcode : refusal.responseCode = .formErr) (htcp : TcpReply N x.retry m)
  | unreadable {bytes : List Byte} (hbytes : x.datagram = some bytes)
      (hdecodes : decodeResponse N.read (bytes.take 4096) = none) (htcp : TcpReply N x.retry m)

/-- The query leaves the host. -/
structure QuerySent (N : Network) (x : Exchange) (ip : IpAddr) (name : Name) (rtype : RecordType) :
    Prop where
  safe : isSafeUpstreamIp ip = true
  encodes : (N.encode (upstreamQuery x.txid name rtype)).isSome = true
  bound : x.bound = true
  connected : x.connected = true
  sent : x.sent = true

/-- A server's reply comes through: the first reply matches the query and is whole, or it is truncated and
the reply over TCP matches. -/
inductive Delivers (N : Network) (x : Exchange) (ip : IpAddr) (name : Name) (rtype : RecordType)
    (m : Message) : Prop
  | whole (hsent : QuerySent N x ip name rtype) (hfirst : FirstReply N x m)
      (hmatches : responseMatches m x.txid name rtype = true) (hwhole : m.truncated = false)
  | truncated (hsent : QuerySent N x ip name rtype) {first : Message} (hfirst : FirstReply N x first)
      (hfirstMatches : responseMatches first x.txid name rtype = true)
      (htruncated : first.truncated = true) (htcp : TcpReply N x.afterTruncation m)
      (hmatches : responseMatches m x.txid name rtype = true)

section Socket

variable {N : Network} {x : Exchange} {ip : IpAddr} {name : Name} {rtype : RecordType} {m : Message}

theorem queryTcp_eq_some_iff {attempt : TcpAttempt} :
    (N.queryTcp attempt ip).1 = some m ↔ TcpReply N attempt m := by
  unfold Network.queryTcp
  split
  · rename_i hgone
    obtain ⟨hconnected, hwritten⟩ := Bool.and_eq_true_iff.mp hgone
    rw [Option.bind_eq_some_iff]
    exact ⟨fun h => ⟨hconnected, hwritten, h⟩, fun h => h.decodes⟩
  · rename_i hgone
    constructor
    · intro h
      cases h
    · exact fun h => absurd (Bool.and_eq_true_iff.mpr ⟨h.connected, h.written⟩) hgone

theorem queryUdp_eq_some_iff : (N.queryUdp x ip).1 = some m ↔ FirstReply N x m := by
  unfold Network.queryUdp
  constructor
  · intro h
    split at h
    · cases h
    · rename_i bytes hbytes
      split at h
      · rename_i resp hdecodes
        split at h
        · rename_i hcode
          obtain rfl := Option.some.inj h
          exact .datagram hbytes hdecodes hcode
        · rename_i hcode
          exact .refused hbytes hdecodes (not_not.mp hcode) (queryTcp_eq_some_iff.mp h)
      · rename_i hdecodes
        exact .unreadable hbytes hdecodes (queryTcp_eq_some_iff.mp h)
  · intro h
    cases h with
    | datagram hbytes hdecodes hcode => simp only [hbytes, hdecodes, if_pos hcode]
    | refused hbytes hdecodes hcode htcp =>
        simp only [hbytes, hdecodes, if_neg (not_not.mpr hcode)]
        exact queryTcp_eq_some_iff.mpr htcp
    | unreadable hbytes hdecodes htcp =>
        simp only [hbytes, hdecodes]
        exact queryTcp_eq_some_iff.mpr htcp

theorem finishQuery_eq_some_iff {first : Message} :
    (N.finishQuery x ip name rtype first).1 = some m ↔
      responseMatches first x.txid name rtype = true ∧
        (first.truncated = false ∧ first = m ∨
          first.truncated = true ∧ TcpReply N x.afterTruncation m ∧
            responseMatches m x.txid name rtype = true) := by
  unfold Network.finishQuery
  split
  · rename_i hmatches
    simp [hmatches]
  · rename_i hmatches
    have hmatches : responseMatches first x.txid name rtype = true := by simpa using hmatches
    split
    · rename_i htruncated
      simp only [hmatches, htruncated, Option.filter_eq_some_iff, queryTcp_eq_some_iff, true_and,
        Bool.true_eq_false, false_and, false_or]
    · rename_i hwhole
      have hwhole : first.truncated = false := by simpa using hwhole
      simp [hmatches, hwhole]

/-- A query that is sent is answered by its first reply, once that is finished. -/
theorem querySocket_of_sent (hsent : QuerySent N x ip name rtype) :
    (N.querySocket x ip name rtype).1 =
      (N.queryUdp x ip).1.bind fun first => (N.finishQuery x ip name rtype first).1 := by
  obtain ⟨wire, hwire⟩ := Option.isSome_iff_exists.mp hsent.encodes
  have hopen : ¬ (x.bound = false ∨ x.connected = false) := by
    rw [hsent.bound, hsent.connected]
    simp
  unfold Network.querySocket
  rw [if_neg (by simp [hsent.safe])]
  simp only [hwire, if_neg hopen, hsent.sent, Bool.true_eq_false, if_false]
  split
  · rename_i hnone
    rw [hnone]
    rfl
  · rename_i hsome
    rw [hsome]
    rfl

theorem querySent_of_some (h : (N.querySocket x ip name rtype).1 = some m) :
    QuerySent N x ip name rtype := by
  unfold Network.querySocket at h
  split at h
  · cases h
  · rename_i hsafe
    split at h
    · cases h
    · rename_i hwire
      split at h
      · cases h
      · rename_i hopen
        obtain ⟨hbound, hconnected⟩ := not_or.mp hopen
        split at h
        · cases h
        · rename_i hsent
          exact ⟨by simpa using hsafe, by simp [hwire], by simpa using hbound,
            by simpa using hconnected, by simpa using hsent⟩

/-- `query_socket` gives exactly the replies that come through. -/
theorem querySocket_eq_some_iff :
    (N.querySocket x ip name rtype).1 = some m ↔ Delivers N x ip name rtype m := by
  constructor
  · intro h
    have hsent := querySent_of_some h
    rw [querySocket_of_sent hsent, Option.bind_eq_some_iff] at h
    obtain ⟨first, hfirst, hfinish⟩ := h
    rw [queryUdp_eq_some_iff] at hfirst
    obtain ⟨hmatches, ⟨hwhole, rfl⟩ | ⟨htruncated, htcp, hmatches'⟩⟩ :=
      finishQuery_eq_some_iff.mp hfinish
    · exact .whole hsent hfirst hmatches hwhole
    · exact .truncated hsent hfirst hmatches htruncated htcp hmatches'
  · intro h
    cases h with
    | whole hsent hfirst hmatches hwhole =>
        rw [querySocket_of_sent hsent, Option.bind_eq_some_iff]
        exact ⟨m, queryUdp_eq_some_iff.mpr hfirst,
          finishQuery_eq_some_iff.mpr ⟨hmatches, Or.inl ⟨hwhole, rfl⟩⟩⟩
    | truncated hsent hfirst hfirstMatches htruncated htcp hmatches =>
        rw [querySocket_of_sent hsent, Option.bind_eq_some_iff]
        exact ⟨_, queryUdp_eq_some_iff.mpr hfirst,
          finishQuery_eq_some_iff.mpr ⟨hfirstMatches, Or.inr ⟨htruncated, htcp, hmatches⟩⟩⟩

end Socket

/-! ### A list of servers -/

/-- The tasks of a query, in the order in which they are started. -/
def Network.tasks (N : Network) (tick : Nat) (servers : List IpAddr) : List (IpAddr × Nat) :=
  (N.prioritize tick servers).zipIdx

/-- What the tasks of a batch bring, in the order in which they end. -/
def Network.arrivals (N : Network) (tick : Nat) (name : Name) (rtype : RecordType)
    (batch : List (IpAddr × Nat)) : List (Option Message) :=
  N.arrival tick (batch.map fun task => (N.querySocket (N.exchange tick task.2) task.1 name rtype).1)

/-- The first acceptable reply of a list. -/
def FirstAcceptable (replies : List (Option Message)) (m : Message) : Prop :=
  acceptableReply m = true ∧ ∃ early late, replies = early ++ some m :: late ∧
    ∀ m', some m' ∈ early → acceptableReply m' = false

/-- A task brings an acceptable reply. -/
def TaskAnswers (N : Network) (tick : Nat) (name : Name) (rtype : RecordType) (task : IpAddr × Nat)
    (m : Message) : Prop :=
  Delivers N (N.exchange tick task.2) task.1 name rtype m ∧ acceptableReply m = true

section Servers

variable {N : Network} {tick : Nat} {name : Name} {rtype : RecordType} {m : Message}

theorem flatten_batches {α : Type*} (l : List α) : (batches l).flatten = l := by
  induction l using batches.induct with
  | case1 a b c rest ih => simp [batches, ih]
  | case2 => rfl
  | case3 short hshort hne =>
      rcases short with _ | ⟨a, _ | ⟨b, _ | ⟨c, rest⟩⟩⟩
      · exact absurd rfl hne
      · rfl
      · rfl
      · exact absurd rfl (hshort a b c rest)

theorem firstAcceptable_of_findSome? {replies : List (Option Message)}
    (h : replies.findSome? (Option.filter acceptableReply) = some m) : FirstAcceptable replies m := by
  obtain ⟨early, reply, late, hsplit, hfilter, hearly⟩ := List.findSome?_eq_some_iff.mp h
  obtain ⟨rfl, hacceptable⟩ := Option.filter_eq_some_iff.mp hfilter
  refine ⟨hacceptable, early, late, hsplit, fun m' hm' => ?_⟩
  simpa using hearly _ hm'

/-- What a batch brings is the first acceptable reply to arrive. -/
theorem batch_eq_some {batch : List (IpAddr × Nat)}
    (h : (N.arrival tick ((batch.map fun task =>
      N.querySocket (N.exchange tick task.2) task.1 name rtype).map Prod.fst)).findSome?
        (Option.filter acceptableReply) = some m) :
    FirstAcceptable (N.arrivals tick name rtype batch) m := by
  rw [List.map_map] at h
  exact firstAcceptable_of_findSome? h

/-- Whatever arrives first was brought by a task. -/
theorem FirstAcceptable.taskAnswers {batch : List (IpAddr × Nat)}
    (h : FirstAcceptable (N.arrivals tick name rtype batch) m) :
    ∃ task ∈ batch, TaskAnswers N tick name rtype task m := by
  obtain ⟨hacceptable, early, late, hsplit, -⟩ := h
  have hreply : some m ∈ N.arrivals tick name rtype batch := by
    rw [hsplit]
    exact List.mem_append_right _ List.mem_cons_self
  obtain ⟨task, htask, hsocket⟩ := List.mem_map.mp ((N.arrival_perm tick _).mem_iff.mp hreply)
  exact ⟨task, htask, querySocket_eq_some_iff.mp hsocket, hacceptable⟩

theorem batch_eq_none_iff {batch : List (IpAddr × Nat)} :
    (N.arrival tick ((batch.map fun task =>
      N.querySocket (N.exchange tick task.2) task.1 name rtype).map Prod.fst)).findSome?
        (Option.filter acceptableReply) = none ↔
      ∀ task ∈ batch, ∀ m, ¬ TaskAnswers N tick name rtype task m := by
  rw [List.findSome?_eq_none_iff]
  constructor
  · rintro h task htask m ⟨hdelivers, hacceptable⟩
    have hmem : some m ∈ (batch.map fun task =>
        N.querySocket (N.exchange tick task.2) task.1 name rtype).map Prod.fst := by
      rw [List.map_map]
      exact List.mem_map.mpr ⟨task, htask, querySocket_eq_some_iff.mpr hdelivers⟩
    have hnone := h _ ((N.arrival_perm tick _).mem_iff.mpr hmem)
    rw [Option.filter_some, if_pos hacceptable] at hnone
    cases hnone
  · intro h reply hreply
    have hmem := (N.arrival_perm tick _).mem_iff.mp hreply
    rw [List.map_map] at hmem
    obtain ⟨task, htask, rfl⟩ := List.mem_map.mp hmem
    rw [Option.filter_eq_none_iff]
    intro m hm hacceptable
    exact h task htask m ⟨querySocket_eq_some_iff.mp hm, hacceptable⟩

/-- The reply comes from the first batch with a task that brings one. -/
theorem askBatches_eq_some {tasks : List (List (IpAddr × Nat))}
    (h : (N.askBatches tick name rtype tasks).1 = some m) :
    ∃ front batch back, tasks = front ++ batch :: back ∧
      (∀ task ∈ front.flatten, ∀ m', ¬ TaskAnswers N tick name rtype task m') ∧
        FirstAcceptable (N.arrivals tick name rtype batch) m := by
  induction tasks with
  | nil => cases h
  | cons batch rest ih =>
      simp only [Network.askBatches] at h
      split at h
      · rename_i found hfound
        obtain rfl := Option.some.inj h
        exact ⟨[], batch, rest, rfl, by simp, batch_eq_some hfound⟩
      · rename_i hnone
        obtain ⟨front, later, back, rfl, hfront, hlater⟩ := ih h
        refine ⟨batch :: front, later, back, rfl, ?_, hlater⟩
        intro task htask
        rw [List.flatten_cons] at htask
        rcases List.mem_append.mp htask with hhere | hthere
        · exact batch_eq_none_iff.mp hnone task hhere
        · exact hfront task hthere

theorem askBatches_eq_none_iff {tasks : List (List (IpAddr × Nat))} :
    (N.askBatches tick name rtype tasks).1 = none ↔
      ∀ task ∈ tasks.flatten, ∀ m, ¬ TaskAnswers N tick name rtype task m := by
  induction tasks with
  | nil => simp [Network.askBatches]
  | cons batch rest ih =>
      simp only [Network.askBatches, List.flatten_cons, List.forall_mem_append]
      rw [← batch_eq_none_iff, ← ih]
      split
      · rename_i hfound
        refine iff_of_false (Option.some_ne_none _) ?_
        rintro ⟨hnone, -⟩
        rw [hfound] at hnone
        cases hnone
      · rename_i hnone
        exact ⟨fun h => ⟨hnone, h⟩, And.right⟩

theorem mem_prioritize_iff {servers : List IpAddr} {ip : IpAddr} :
    ip ∈ N.prioritize tick servers ↔ ip ∈ servers := by
  constructor
  · exact mem_prioritize N
  · intro hip
    cases hv4 : isIpv4 ip with
    | true =>
        apply List.mem_append_left
        exact (N.shuffle_perm tick _).mem_iff.mpr (List.mem_filter.mpr ⟨hip, hv4⟩)
    | false =>
        apply List.mem_append_right
        exact (N.shuffle_perm tick _).mem_iff.mpr (List.mem_filter.mpr ⟨hip, by simp [hv4]⟩)

theorem queryServers_eq (servers : List IpAddr) :
    (N.queryServers tick servers name rtype).1 =
      (N.askBatches tick name rtype (batches (N.tasks tick servers))).1 := by
  unfold Network.queryServers
  split
  · rename_i hempty
    have hnone : N.tasks tick servers = [] := by
      rw [List.eq_nil_iff_forall_not_mem]
      intro task htask
      have hip := mem_prioritize N (List.fst_mem_of_mem_zipIdx htask)
      rw [List.isEmpty_iff.mp hempty] at hip
      cases hip
    rw [hnone]
    rfl
  · rfl

theorem queryServers_eq_none_iff (servers : List IpAddr) :
    (N.queryServers tick servers name rtype).1 = none ↔
      ∀ task ∈ N.tasks tick servers, ∀ m, ¬ TaskAnswers N tick name rtype task m := by
  rw [queryServers_eq, askBatches_eq_none_iff, flatten_batches]

theorem exists_task_of_queryServers {servers : List IpAddr}
    (h : (N.queryServers tick servers name rtype).1 = some m) :
    ∃ task ∈ N.tasks tick servers, TaskAnswers N tick name rtype task m := by
  rw [queryServers_eq] at h
  obtain ⟨front, batch, back, hbatches, -, hfirst⟩ := askBatches_eq_some h
  obtain ⟨task, hbatch, hanswers⟩ := hfirst.taskAnswers
  refine ⟨task, ?_, hanswers⟩
  rw [← flatten_batches (N.tasks tick servers), hbatches]
  exact List.mem_flatten.mpr ⟨batch, by simp, hbatch⟩

/-- **Asking a list of servers.**  Whatever the shuffles and the order in which replies arrive, nothing comes
back exactly when no task brings an acceptable reply; and what comes back was brought by a task of the first
batch in which one does, and of the acceptable replies of that batch is the first to arrive. -/
theorem query_first_batch (N : Network) (tick : Nat) (servers : List IpAddr) (name : Name)
    (rtype : RecordType) :
    ((N.queryServers tick servers name rtype).1 = none ↔
      ∀ task ∈ N.tasks tick servers, ∀ m, ¬ TaskAnswers N tick name rtype task m) ∧
    ∀ m, (N.queryServers tick servers name rtype).1 = some m →
      ∃ front batch back, batches (N.tasks tick servers) = front ++ batch :: back ∧
        (∀ task ∈ front.flatten, ∀ m', ¬ TaskAnswers N tick name rtype task m') ∧
          (∃ task ∈ batch, TaskAnswers N tick name rtype task m) ∧
            FirstAcceptable (N.arrivals tick name rtype batch) m := by
  refine ⟨queryServers_eq_none_iff servers, ?_⟩
  intro m h
  rw [queryServers_eq] at h
  obtain ⟨front, batch, back, hbatches, hfront, hfirst⟩ := askBatches_eq_some h
  exact ⟨front, batch, back, hbatches, hfront, hfirst.taskAnswers, hfirst⟩

end Servers

/-! ### Hosts -/

/-- The hosts of a network: what a task meets depends on the address and the question, and on the time. -/
structure Internet where
  base : Network
  meets : Nat → IpAddr → Name → RecordType → Exchange

namespace Internet

/-- The network as a query finds it: each task meets the host it is started for. -/
def network (I : Internet) (servers : List IpAddr) (name : Name) (rtype : RecordType) : Network :=
  { I.base with
    exchange tick task :=
      match (I.base.prioritize tick servers)[task]? with
      | some ip => I.meets tick ip name rtype
      | none => I.base.exchange tick task }

/-- The outside of a resolution among these hosts. -/
def env (I : Internet) (P : Platform) (clock : Nat → Nat) : REnv where
  platform := P
  clock := clock
  reply tick servers name rtype :=
    ((I.network servers name rtype).queryServers tick servers name rtype).1

/-- A live host answers the questions of the zones it has, as one of their servers; of a host that is not
live no acceptable reply comes through. -/
structure Honest (I : Internet) (W : World) : Prop where
  live : ∀ {ip : IpAddr} {z : Path}, W.live ip → W.serves z ip →
    ∀ (tick : Nat) (name : Name) (rtype : RecordType), z <+: questionPath name.path rtype →
      ∃ m, Delivers I.base (I.meets tick ip name rtype) ip name rtype m ∧
        W.HonestReply z name rtype m
  gone : ∀ {ip : IpAddr}, ¬ W.live ip → ∀ (tick : Nat) (name : Name) (rtype : RecordType) (m : Message),
    Delivers I.base (I.meets tick ip name rtype) ip name rtype m → acceptableReply m = false

section Env

variable {I : Internet} {W : World} {tick : Nat} {servers : List IpAddr} {name : Name}
  {rtype : RecordType} {m : Message}

/-- A task answers if its host does. -/
theorem taskAnswers_iff {task : IpAddr × Nat}
    (htask : task ∈ (I.network servers name rtype).tasks tick servers) :
    TaskAnswers (I.network servers name rtype) tick name rtype task m ↔
      Delivers I.base (I.meets tick task.1 name rtype) task.1 name rtype m ∧
        acceptableReply m = true := by
  have hget : (I.base.prioritize tick servers)[task.2]? = some task.1 :=
    List.mk_mem_zipIdx_iff_getElem?.mp htask
  have hexchange : (I.network servers name rtype).exchange tick task.2 =
      I.meets tick task.1 name rtype := by
    simp only [network, hget]
  unfold TaskAnswers
  rw [hexchange, ← querySocket_eq_some_iff, ← querySocket_eq_some_iff]
  rfl

theorem exists_task {ip : IpAddr} (hip : ip ∈ servers) :
    ∃ task ∈ (I.network servers name rtype).tasks tick servers, task.1 = ip := by
  have hmem : ip ∈ (I.network servers name rtype).prioritize tick servers := mem_prioritize_iff.mpr hip
  obtain ⟨i, hi⟩ := List.mem_iff_getElem?.mp hmem
  exact ⟨(ip, i), List.mk_mem_zipIdx_iff_getElem?.mpr hi, rfl⟩

theorem ip_mem_of_task {task : IpAddr × Nat} {N : Network} (htask : task ∈ N.tasks tick servers) :
    task.1 ∈ servers :=
  mem_prioritize N (List.fst_mem_of_mem_zipIdx htask)

/-- Among honest hosts the servers of a zone reply as its servers do, and hosts that are gone do not reply. -/
theorem Honest.env (hhosts : I.Honest W) (P : Platform) (clock : Nat → Nat) :
    HonestEnv W (I.env P clock) where
  answers := by
    intro z ips hips tick name rtype hz
    cases hreply : ((I.network ips name rtype).queryServers tick ips name rtype).1 with
    | none =>
        -- The task of a live server brings a reply.
        obtain ⟨ip, hip, hlive⟩ := hips.live
        obtain ⟨task, htask, rfl⟩ := @exists_task I tick ips name rtype ip hip
        obtain ⟨m, hdelivers, hhonest⟩ := hhosts.live hlive (hips.serves _ hip) tick name rtype hz
        have hacceptable : acceptableReply m = true := decide_eq_true hhonest.code
        exact absurd ((taskAnswers_iff htask).mpr ⟨hdelivers, hacceptable⟩)
          ((queryServers_eq_none_iff ips).mp hreply task htask m)
    | some m =>
        obtain ⟨task, htask, hanswers⟩ := exists_task_of_queryServers hreply
        obtain ⟨hdelivers, hacceptable⟩ := (taskAnswers_iff htask).mp hanswers
        have hip : task.1 ∈ ips := ip_mem_of_task htask
        -- Only a live host brings an acceptable reply, and it has the zone.
        have hlive : W.live task.1 := by
          by_contra hgone
          rw [hhosts.gone hgone tick name rtype m hdelivers] at hacceptable
          cases hacceptable
        obtain ⟨m', hdelivers', hhonest⟩ := hhosts.live hlive (hips.serves _ hip) tick name rtype hz
        have hsame := (querySocket_eq_some_iff.mpr hdelivers).symm.trans
          (querySocket_eq_some_iff.mpr hdelivers')
        obtain rfl := Option.some.inj hsame
        exact ⟨m, hreply, hhonest⟩
  silent := by
    intro ips hsilent tick name rtype
    refine (queryServers_eq_none_iff ips).mpr fun task htask m hanswers => ?_
    obtain ⟨hdelivers, hacceptable⟩ := (taskAnswers_iff htask).mp hanswers
    rw [hhosts.gone (hsilent _ (ip_mem_of_task htask)) tick name rtype m hdelivers] at hacceptable
    cases hacceptable

end Env

end Internet

def smallDatagram (server : Byte) (name : Name) (rtype : RecordType) : List Byte :=
  server :: Dnssec.be16 rtype.code.toNat ++ name.labels.flatMap Dnssec.labelWire

def wireLabelsOf : Nat → List Byte → List Label
  | fuel + 1, b :: rest => rest.take b.val :: wireLabelsOf fuel (rest.drop b.val)
  | _, _ => []

def readSmall : List Byte → Option Message
  | server :: b₁ :: b₀ :: wire =>
      if h : ValidLabels (wireLabelsOf wire.length wire) then
        let rtype : RecordType := ⟨UInt16.ofNat (b₁.val * 256 + b₀.val)⟩
        some (if server = 0 then smallRootReply ⟨_, h⟩ rtype
          else smallWorld.authoritativeReply parentZone ⟨_, h⟩ rtype)
      else none
  | _ => none

theorem wireLabelsOf_flatMap {labels : List Label} (h : ∀ l ∈ labels, l.length < 256) {fuel : Nat}
    (hfuel : (labels.flatMap Dnssec.labelWire).length ≤ fuel) :
    wireLabelsOf fuel (labels.flatMap Dnssec.labelWire) = labels := by
  induction labels generalizing fuel with
  | nil => cases fuel <;> rfl
  | cons l rest ih =>
      simp only [List.flatMap_cons, Dnssec.labelWire, List.length_append, List.length_cons] at hfuel
      obtain ⟨fuel, rfl⟩ : ∃ left, fuel = left + 1 := ⟨fuel - 1, by omega⟩
      have hlength : (Fin.ofNat 256 l.length : Byte).val = l.length :=
        Nat.mod_eq_of_lt (h l List.mem_cons_self)
      simp only [List.flatMap_cons, Dnssec.labelWire, List.cons_append, wireLabelsOf, hlength,
        List.take_left, List.drop_left]
      have hrest : wireLabelsOf fuel (rest.flatMap Dnssec.labelWire) = rest :=
        ih (fun l' hl' => h l' (List.mem_cons_of_mem _ hl')) (by omega)
      exact congrArg _ hrest

theorem readSmall_smallDatagram (server : Byte) (name : Name) (rtype : RecordType) :
    readSmall (smallDatagram server name rtype) =
      some (if server = 0 then smallRootReply name rtype
        else smallWorld.authoritativeReply parentZone name rtype) := by
  have hlabels : wireLabelsOf (name.labels.flatMap Dnssec.labelWire).length
      (name.labels.flatMap Dnssec.labelWire) = name.labels := by
    refine wireLabelsOf_flatMap (fun l hl => ?_) le_rfl
    have hlen := name.valid.1 l hl
    omega
  have htype : UInt16.ofNat ((Fin.ofNat 256 (rtype.code.toNat / 256) : Byte).val * 256 +
      (Fin.ofNat 256 rtype.code.toNat : Byte).val) = rtype.code := by
    have hlt := rtype.code.toNat_lt
    have hnat : (Fin.ofNat 256 (rtype.code.toNat / 256) : Byte).val * 256 +
        (Fin.ofNat 256 rtype.code.toNat : Byte).val = rtype.code.toNat := by
      simp only [Fin.ofNat]
      omega
    rw [hnat, UInt16.ofNat_toNat]
  simp only [smallDatagram, Dnssec.be16, List.cons_append, List.nil_append, readSmall, htype, hlabels,
    name.valid, dite_true]

/-- The hosts answer by datagram; other addresses do not answer. -/
def smallInternet : Internet where
  base :=
    { encode := fun _ => some []
      read := readSmall
      exchange := fun _ _ => ⟨0, false, false, false, none, ⟨false, false, []⟩, ⟨false, false, []⟩⟩
      shuffle := fun _ ips => ips
      shuffle_perm := fun _ _ => .refl _
      arrival := fun _ replies => replies.reverse
      arrival_perm := fun _ _ => List.reverse_perm _ }
  meets _ ip name rtype :=
    { txid := 0, bound := true, connected := true, sent := true
      datagram :=
        if ip ∈ rootServers then some (smallDatagram 0 name rtype)
        else if ip = ip4 1 1 1 1 then some (smallDatagram 1 name rtype)
        else none
      retry := ⟨false, false, []⟩
      afterTruncation := ⟨false, false, []⟩ }

/-- The header of a reply to a query of transaction 0. -/
structure RepliesTo (m : Message) (name : Name) (rtype : RecordType) : Prop where
  header : m.id = 0 ∧ m.messageType = .response ∧ m.opCode = .query ∧ m.truncated = false
  code : m.responseCode ≠ .formErr
  queries : m.queries = [⟨name, rtype, .IN⟩]

theorem RepliesTo.matches {m : Message} {name : Name} {rtype : RecordType}
    (h : RepliesTo m name rtype) : responseMatches m 0 name rtype = true := by
  obtain ⟨hid, htype, hop, -⟩ := h.header
  simp [responseMatches, hid, htype, hop, h.queries]

theorem smallDatagram_length (server : Byte) (name : Name) (rtype : RecordType) :
    (smallDatagram server name rtype).length ≤ 4096 := by
  have hwire : (name.labels.flatMap Dnssec.labelWire).length + 1 = wireLength name.labels := by
    simp [wireLength, List.length_flatMap, Dnssec.labelWire]
  have hvalid := name.valid.2
  simp only [smallDatagram, Dnssec.be16, List.length_append, List.length_cons, List.length_nil]
  omega

theorem smallDatagram_delivered {ip : IpAddr} {name : Name} {rtype : RecordType} {server : Byte}
    {m : Message} (hsafe : isSafeUpstreamIp ip = true)
    (hdatagram : (smallInternet.meets 0 ip name rtype).datagram = some (smallDatagram server name rtype))
    (hm : m = if server = 0 then smallRootReply name rtype
      else smallWorld.authoritativeReply parentZone name rtype)
    (hreplies : RepliesTo m name rtype) :
    Delivers smallInternet.base (smallInternet.meets 0 ip name rtype) ip name rtype m := by
  have hdecodes : decodeResponse readSmall ((smallDatagram server name rtype).take 4096) = some m := by
    rw [List.take_of_length_le (smallDatagram_length server name rtype), decodeResponse,
      readSmall_smallDatagram, ← hm]
  exact .whole ⟨hsafe, rfl, rfl, rfl, rfl⟩ (.datagram hdatagram hdecodes hreplies.code) hreplies.matches
    hreplies.header.2.2.2

theorem authoritativeReply_replies (zone name : Name) (rtype : RecordType) :
    RepliesTo (smallWorld.authoritativeReply zone name rtype) name rtype := by
  have hcode : ResponseCode.noError ≠ .formErr := by decide
  unfold World.authoritativeReply
  simp only
  split
  · exact ⟨⟨rfl, rfl, rfl, rfl⟩, hcode, rfl⟩
  · split
    · exact ⟨⟨rfl, rfl, rfl, rfl⟩, hcode, rfl⟩
    · refine ⟨⟨rfl, rfl, rfl, rfl⟩, ?_, rfl⟩
      show (if smallWorld.present name.path then ResponseCode.noError else .nxDomain) ≠ .formErr
      split <;> decide

theorem smallRootReply_replies (name : Name) (rtype : RecordType) :
    RepliesTo (smallRootReply name rtype) name rtype := by
  have hcode : ResponseCode.noError ≠ .formErr := by decide
  unfold smallRootReply
  split
  · exact ⟨⟨rfl, rfl, rfl, rfl⟩, hcode, rfl⟩
  · exact authoritativeReply_replies .root name rtype

theorem smallInternet_honest : smallInternet.Honest smallWorld where
  live := by
    intro ip z _ hserves tick name rtype hz
    rcases hserves with ⟨rfl, hroot⟩ | ⟨rfl, rfl⟩
    · exact ⟨_, smallDatagram_delivered (rootServers_safe ip hroot) (if_pos hroot) rfl
        (smallRootReply_replies name rtype), smallRootReply_honest name rtype⟩
    · have hdatagram : (smallInternet.meets 0 (ip4 1 1 1 1) name rtype).datagram =
          some (smallDatagram 1 name rtype) := rfl
      refine ⟨_, smallDatagram_delivered (by decide) hdatagram rfl
        (authoritativeReply_replies parentZone name rtype), ?_⟩
      exact smallWorld.authoritativeReply_honest rtype (hz.trans (questionPath_isPrefix _ _))
  gone := by
    intro ip hgone tick name rtype m hdelivers
    obtain ⟨hroot, hparent⟩ := not_or.mp hgone
    have hsilent : (smallInternet.meets tick ip name rtype).datagram = none :=
      (if_neg hroot).trans (if_neg hparent)
    -- Without a datagram there is no first reply.
    have hnone : ∀ first, ¬ FirstReply smallInternet.base (smallInternet.meets tick ip name rtype)
        first := by
      rintro first (⟨hbytes, -, -⟩ | ⟨hbytes, -, -, -⟩ | ⟨hbytes, -, -⟩)
      all_goals
        rw [hsilent] at hbytes
        cases hbytes
    cases hdelivers with
    | whole _ hfirst _ _ => exact absurd hfirst (hnone _)
    | truncated _ hfirst _ _ _ _ => exact absurd hfirst (hnone _)

end Recursor
end UnifiedDns
