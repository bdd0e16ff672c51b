import UnifiedDns.Engine.ReplySize
import UnifiedDns.Lib.LengthFraming

/-!
# Requests on a stream

`handle_length_prefixed_stream`, which serves TCP and DoT: requests arrive behind their lengths, the
replies go back the same way.  Timers do not expire here and the socket does not fail, so that the only
end of the input is its end; writes that are cut off are in `Engine.Connections`.

* `ProcessOutcome.reaction` — what the handler does with an outcome.
* `streamLoop`, `handleLengthPrefixedStream` — the handler on a stream that arrives in pieces.
* `serveFrames` — the same on the list of requests; `streamLoop_eq` — how the stream is cut does not
  matter.
* `stream_paired` — requests and replies correspond.
-/

namespace UnifiedDns
namespace Engine

/-- `MIN_DNS_MSG_SIZE..=MAX_TCP_MSG_SIZE`. -/
def dnsFrames : FrameLimits := ⟨12, 65535, by decide⟩

/-- What the handler does with an outcome. -/
inductive StreamReaction
  | respond (wire : List Byte)
  | proceed
  | close

/-- The arms of `handle_length_prefixed_stream`; a wire that could not be encoded is the empty buffer. -/
def ProcessOutcome.reaction : ProcessOutcome (List Byte) → StreamReaction
  | .success wire => .respond wire
  | .servFail wire => .respond (wire.getD [])
  | .truncated wire => .respond (wire.getD [])
  | .dropped => .proceed
  | .malformed => .close

def ProcessOutcome.isMalformed : ProcessOutcome (List Byte) → Bool
  | .malformed => true
  | _ => false

def ProcessOutcome.isDropped : ProcessOutcome (List Byte) → Bool
  | .dropped => true
  | _ => false

/-- What a connection has seen when it is closed: the requests that were processed and the octets that
were written. -/
structure StreamRun where
  requests : List (List Byte)
  written : List Byte

/-- Nothing more is read. -/
def StreamRun.closed : StreamRun := ⟨[], []⟩

/-- A request and what was written for it, before the rest. -/
def StreamRun.before (request octets : List Byte) (run : StreamRun) : StreamRun :=
  ⟨request :: run.requests, octets ++ run.written⟩

section Loop

variable (serve : Nat → List Byte → ProcessOutcome (List Byte))

/-- The loop of `handle_length_prefixed_stream`; `serve k` is the call on the request numbered `k`. -/
def streamLoop (k : Nat) (pieces : List (List Byte)) : StreamRun :=
  match _h : readFrame dnsFrames pieces with
  | none => .closed
  | some (reqBuf, rest) =>
      match (serve k reqBuf).reaction with
      | .respond wire =>
          -- A reply that no length can announce closes the connection.
          if dnsFrames.greatest < wire.length then StreamRun.closed.before reqBuf []
          else (streamLoop (k + 1) rest).before reqBuf (encodeLength wire.length ++ wire)
      | .proceed => (streamLoop (k + 1) rest).before reqBuf []
      | .close => StreamRun.closed.before reqBuf []
termination_by pieces.flatten.length
decreasing_by all_goals exact readFrame_length _h

/-- The same on requests that have been taken apart. -/
def serveFrames : Nat → List (List Byte) → StreamRun
  | _, [] => .closed
  | k, request :: rest =>
      match (serve k request).reaction with
      | .respond wire =>
          if dnsFrames.greatest < wire.length then StreamRun.closed.before request []
          else (serveFrames (k + 1) rest).before request (frame wire)
      | .proceed => (serveFrames (k + 1) rest).before request []
      | .close => StreamRun.closed.before request []

theorem streamLoop_of_none {k : Nat} {pieces : List (List Byte)}
    (h : readFrame dnsFrames pieces = none) : streamLoop serve k pieces = .closed := by
  rw [streamLoop]
  split
  · rfl
  · rename_i heq
    rw [h] at heq
    cases heq

theorem streamLoop_of_some {k : Nat} {pieces rest : List (List Byte)} {reqBuf : List Byte}
    (h : readFrame dnsFrames pieces = some (reqBuf, rest)) :
    streamLoop serve k pieces =
      match (serve k reqBuf).reaction with
      | .respond wire =>
          if dnsFrames.greatest < wire.length then StreamRun.closed.before reqBuf []
          else (streamLoop serve (k + 1) rest).before reqBuf (encodeLength wire.length ++ wire)
      | .proceed => (streamLoop serve (k + 1) rest).before reqBuf []
      | .close => StreamRun.closed.before reqBuf [] := by
  rw [streamLoop]
  split
  · rename_i heq
    rw [h] at heq
    cases heq
  · rename_i heq
    rw [h] at heq
    cases heq
    rfl

/-- The handler serves the frames of the stream, however it is cut. -/
theorem streamLoop_eq (k : Nat) (pieces : List (List Byte)) :
    streamLoop serve k pieces = serveFrames serve k (frames dnsFrames pieces.flatten) := by
  induction hsize : pieces.flatten.length using Nat.strong_induction_on generalizing k pieces with
  | h size ih =>
      rcases readFrame_spec dnsFrames pieces with ⟨hread, hnext⟩ | ⟨request, rest, hread, hnext⟩
      · rw [frames_of_none hnext, serveFrames, streamLoop_of_none serve hread]
      · have hrest := ih rest.flatten.length (hsize ▸ readFrame_length hread) (k + 1) rest rfl
        rw [frames_of_some hnext, serveFrames, streamLoop_of_some serve hread, hrest]
        rfl

/-- The outcomes of requests that are processed one after the other. -/
def outcomesFrom (k : Nat) (requests : List (List Byte)) : List (ProcessOutcome (List Byte)) :=
  requests.mapIdx fun i request => serve (k + i) request

theorem outcomesFrom_cons (k : Nat) (request : List Byte) (rest : List (List Byte)) :
    outcomesFrom serve k (request :: rest) = serve k request :: outcomesFrom serve (k + 1) rest := by
  simp only [outcomesFrom, List.mapIdx_cons, Nat.add_zero]
  congr 1
  refine List.mapIdx_eq_mapIdx_iff.mpr fun i _ => ?_
  rw [Nat.add_assoc, Nat.add_comm 1 i]

end Loop

/-- An outcome with a reply, which fits into a frame. -/
def ProcessOutcome.Replies (outcome : ProcessOutcome (List Byte)) (wire : List Byte) : Prop :=
  outcome.wire = some wire ∧ dnsFrames.Accepts wire.length

/-- Such a reply is what the handler writes. -/
theorem ProcessOutcome.Replies.reaction {outcome : ProcessOutcome (List Byte)} {wire : List Byte}
    (h : outcome.Replies wire) : outcome.reaction = .respond wire := by
  have hwire := h.1
  cases outcome with
  | success wire' =>
      cases hwire
      rfl
  | servFail wire' =>
      simp only [ProcessOutcome.wire] at hwire
      rw [hwire]
      rfl
  | truncated wire' =>
      simp only [ProcessOutcome.wire] at hwire
      rw [hwire]
      rfl
  | dropped => cases hwire
  | malformed => cases hwire

theorem ProcessOutcome.Replies.kind {outcome : ProcessOutcome (List Byte)} {wire : List Byte}
    (h : outcome.Replies wire) : outcome.isMalformed = false ∧ outcome.isDropped = false := by
  have hwire := h.1
  cases outcome with
  | success wire' => exact ⟨rfl, rfl⟩
  | servFail wire' => exact ⟨rfl, rfl⟩
  | truncated wire' => exact ⟨rfl, rfl⟩
  | dropped => cases hwire
  | malformed => cases hwire

/-- The outcomes of the requests that are answered: up to the first malformed one, without the dropped
ones. -/
def answered (outcomes : List (ProcessOutcome (List Byte))) : List (ProcessOutcome (List Byte)) :=
  (outcomes.takeWhile fun outcome => !outcome.isMalformed).filter fun outcome => !outcome.isDropped

/-- The requests up to the first malformed one are processed, and the replies are written in order. -/
theorem serveFrames_spec {serve : Nat → List Byte → ProcessOutcome (List Byte)}
    (hserve : ∀ k request, serve k request = .dropped ∨ serve k request = .malformed ∨
      ∃ wire, (serve k request).Replies wire) (k : Nat) (requests : List (List Byte)) :
    (serveFrames serve k requests).requests =
        requests.take ((outcomesFrom serve k requests).findIdx ProcessOutcome.isMalformed + 1) ∧
      ∃ replies : List (List Byte),
        (serveFrames serve k requests).written = replies.flatMap frame ∧
        (∀ reply ∈ replies, dnsFrames.Accepts reply.length) ∧
        replies.map some = (answered (outcomesFrom serve k requests)).map ProcessOutcome.wire := by
  induction requests generalizing k with
  | nil => exact ⟨rfl, [], rfl, by simp, rfl⟩
  | cons request rest ih =>
      obtain ⟨hrequests, replies, hwritten, hfit, hreplies⟩ := ih (k + 1)
      rw [outcomesFrom_cons, serveFrames]
      rcases hserve k request with hdropped | hmalformed | ⟨wire, hwire⟩
      · -- A dropped request is processed, and leaves no trace in what is written.
        rw [hdropped]
        refine ⟨?_, replies, hwritten, hfit, hreplies⟩
        rw [List.findIdx_cons]
        exact congrArg (request :: ·) hrequests
      · -- A malformed one is the last that is processed.
        rw [hmalformed]
        refine ⟨?_, [], rfl, by simp, rfl⟩
        rw [List.findIdx_cons]
        rfl
      · have hsize : ¬ dnsFrames.greatest < wire.length := Nat.not_lt.mpr hwire.2.2
        obtain ⟨hnotMalformed, hnotDropped⟩ := hwire.kind
        rw [hwire.reaction]
        simp only [if_neg hsize]
        refine ⟨?_, wire :: replies, ?_, List.forall_mem_cons.mpr ⟨hwire.2, hfit⟩, ?_⟩
        · rw [List.findIdx_cons, hnotMalformed]
          exact congrArg (request :: ·) hrequests
        · rw [List.flatMap_cons, ← hwritten]
          rfl
        · rw [answered, List.takeWhile_cons_of_pos (by simp [hnotMalformed]),
            List.filter_cons_of_pos (by simp [hnotDropped]), List.map_cons, List.map_cons, hwire.1]
          exact congrArg (some wire :: ·) hreplies

/-! ### The calls of a connection -/

/-- The codec writes messages that fit into a frame, and can write a header and one question. -/
structure ServerEnv.FramesFit (env : ServerEnv (List Byte)) : Prop where
  fits : ∀ msg wire, env.encode msg = some wire → dnsFrames.Accepts wire.length
  bare : ∀ msg, QuestionOnly msg → ∃ wire, env.encode msg = some wire

/-- The calls of one connection; `calls` are their circumstances. -/
def streamCall (env : ServerEnv (List Byte)) (config : LimiterConfig) (protocol : Protocol)
    (clientIp : IpAddr) (calls : Nat → Circumstances (List Byte)) (k : Nat) (request : List Byte) :
    ProcessOutcome (List Byte) :=
  processDnsQuery env config { calls k with protocol := protocol, clientIp := clientIp } request

/-- `handle_length_prefixed_stream`. -/
def handleLengthPrefixedStream (env : ServerEnv (List Byte)) (config : LimiterConfig)
    (protocol : Protocol) (clientIp : IpAddr) (calls : Nat → Circumstances (List Byte))
    (pieces : List (List Byte)) : StreamRun :=
  streamLoop (streamCall env config protocol clientIp calls) 0 pieces

/-- A call drops the request, finds it malformed, or replies within a frame. -/
theorem processDnsQuery_replies {env : ServerEnv (List Byte)} (hframes : env.FramesFit)
    (config : LimiterConfig) (c : Circumstances (List Byte)) (reqWire : List Byte) :
    processDnsQuery env config c reqWire = .dropped ∨
      processDnsQuery env config c reqWire = .malformed ∨
        ∃ wire, (processDnsQuery env config c reqWire).Replies wire := by
  cases hdecode : env.decode reqWire with
  | none =>
      refine Or.inr (Or.inl ?_)
      unfold processDnsQuery
      simp only [hdecode]
  | some req =>
      by_cases hquestion : ∃ query, req.queries = [query]
      · obtain ⟨query, hquestion⟩ := hquestion
        rcases processDnsQuery_cases config c hdecode hquestion with
          ⟨-, houtcome⟩ | ⟨-, h | h | ⟨wire, ⟨_, _, _, _, _, hwire⟩, houtcome⟩⟩
        · exact Or.inl houtcome
        · obtain ⟨wire, hwire⟩ := hframes.bare _ (truncatedResponse_questionOnly req.id query)
          refine Or.inr (Or.inr ⟨wire, ?_, hframes.fits _ _ hwire⟩)
          rw [h.outcome hdecode hquestion]
          exact hwire
        · obtain ⟨wire, hwire⟩ := hframes.bare _ (servfailResponse_questionOnly req.id query)
          refine Or.inr (Or.inr ⟨wire, ?_, hframes.fits _ _ hwire⟩)
          rw [h.outcome hdecode hquestion]
          exact hwire
        · refine Or.inr (Or.inr ⟨wire, ?_, hframes.fits _ _ hwire⟩)
          rw [houtcome]
          rfl
      · exact Or.inr (Or.inl (processDnsQuery_malformed hdecode hquestion))

/-- **Pairing on a stream.**  The requests that are processed are the well-formed frames at the start of
the stream, up to the first that is malformed.  What is written reads back, frame by frame, as the
replies to those that were not dropped. -/
theorem stream_paired {env : ServerEnv (List Byte)} (hframes : env.FramesFit)
    (config : LimiterConfig) (protocol : Protocol) (clientIp : IpAddr)
    (calls : Nat → Circumstances (List Byte)) (pieces : List (List Byte)) :
    let run := handleLengthPrefixedStream env config protocol clientIp calls pieces
    let received := frames dnsFrames pieces.flatten
    let outcomes := received.mapIdx (streamCall env config protocol clientIp calls)
    (∃ rest, pieces.flatten = received.flatMap frame ++ rest ∧ nextFrame dnsFrames rest = none) ∧
      run.requests = received.take (outcomes.findIdx ProcessOutcome.isMalformed + 1) ∧
      run.written = (frames dnsFrames run.written).flatMap frame ∧
      (frames dnsFrames run.written).map some = (answered outcomes).map ProcessOutcome.wire := by
  intro run received outcomes
  have hrun : run = serveFrames (streamCall env config protocol clientIp calls) 0 received :=
    streamLoop_eq _ 0 pieces
  obtain ⟨hrequests, replies, hwritten, hfit, hreplies⟩ := serveFrames_spec
    (fun k request => processDnsQuery_replies hframes config
      { calls k with protocol := protocol, clientIp := clientIp } request) 0 received
  have houtcomes : outcomesFrom (streamCall env config protocol clientIp calls) 0 received =
      outcomes := by
    simp only [outcomesFrom, Nat.zero_add]
    rfl
  have hwritten : run.written = replies.flatMap frame := by rw [hrun, ← hwritten]; rfl
  have hback : frames dnsFrames run.written = replies := by
    rw [hwritten]
    exact frames_flatMap_frame hfit
  refine ⟨frames_decompose dnsFrames pieces.flatten, ?_, by rw [hback, hwritten], ?_⟩
  · rw [hrun, ← houtcomes]
    exact hrequests
  · rw [hback, ← houtcomes]
    exact hreplies

theorem questionServer_framesFit : questionServer.FramesFit := by
  constructor
  · intro msg wire hwire
    obtain ⟨query, rfl⟩ := encodeQuestion_eq_some hwire
    obtain ⟨hleast, hgreatest⟩ := questionWire_length msg query
    exact ⟨hleast, hgreatest.trans (by decide)⟩
  · intro msg hmsg
    obtain ⟨query, hquery⟩ := hmsg.queries
    refine ⟨questionWire msg query, ?_⟩
    change encodeQuestion msg = _
    simp only [encodeQuestion, hquery, hmsg.answers, hmsg.nameServers, hmsg.additionals, hmsg.edns]

/-- Two requests, cut after the first octet; the resolver fails for both. -/
theorem stream_paired_failures :
    let wire := questionWire plainClient.message leafQuery
    let run := handleLengthPrefixedStream questionServer sampleNode.limiter .tcp
      (.v4 ⟨192, 0, 2, 1⟩) (fun _ => questionCall .tcp)
      [(frame wire ++ frame wire).take 1, (frame wire ++ frame wire).drop 1]
    run.requests = [wire, wire] ∧
      frames dnsFrames run.written =
        [questionWire (servfailResponse 0 leafQuery) leafQuery,
          questionWire (servfailResponse 0 leafQuery) leafQuery] := by
  intro wire run
  have hpaired := stream_paired questionServer_framesFit sampleNode.limiter .tcp
    (.v4 ⟨192, 0, 2, 1⟩) (fun _ => questionCall .tcp)
    [(frame wire ++ frame wire).take 1, (frame wire ++ frame wire).drop 1]
  have hreceived : frames dnsFrames
      [(frame wire ++ frame wire).take 1, (frame wire ++ frame wire).drop 1].flatten =
        [wire, wire] := by
    rw [List.flatten_cons, List.flatten_singleton, List.take_append_drop,
      ← List.append_nil (frame wire ++ frame wire), List.append_assoc]
    have hboth : ∀ request ∈ [wire, wire], dnsFrames.Accepts request.length := by decide
    exact frames_flatMap_frame hboth
  have hcall : ∀ k, streamCall questionServer sampleNode.limiter .tcp (.v4 ⟨192, 0, 2, 1⟩)
      (fun _ => questionCall .tcp) k wire =
        .servFail (some (questionWire (servfailResponse 0 leafQuery) leafQuery)) :=
    fun k => questionCall_fails .tcp
  simp only [hreceived, List.mapIdx_cons, List.mapIdx_nil, hcall] at hpaired
  refine ⟨hpaired.2.1, ?_⟩
  exact (List.map_injective_iff.mpr (Option.some_injective _)) hpaired.2.2.2

end Engine
end UnifiedDns
