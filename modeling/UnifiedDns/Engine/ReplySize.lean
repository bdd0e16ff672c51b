import UnifiedDns.Engine.Replies

/-!
# The size of UDP replies

A tailored response is measured before it is sent, whether it comes from the cache or from the resolver.
The bare replies, challenges and failures, are not; they hold a header and one question.

* `QuestionOnly` — the messages of which the bare replies are; `ServerEnv.SmallQuestions` — the room they
  take.
* `udp_reply_size` — no reply is larger than the client accepts.
* `questionServer` — a server whose codec writes such messages out.
-/

namespace UnifiedDns
namespace Engine

open Dnssec (be16 nameWire)

/-- A header and one question. -/
structure QuestionOnly (msg : Message) : Prop where
  queries : ∃ query, msg.queries = [query]
  answers : msg.answers = []
  nameServers : msg.nameServers = []
  additionals : msg.additionals = []
  edns : msg.edns = none

theorem truncatedResponse_questionOnly (id : UInt16) (query : Query) :
    QuestionOnly (truncatedResponse id query) :=
  ⟨⟨query, rfl⟩, rfl, rfl, rfl, rfl⟩

theorem servfailResponse_questionOnly (id : UInt16) (query : Query) :
    QuestionOnly (servfailResponse id query) :=
  ⟨⟨query, rfl⟩, rfl, rfl, rfl, rfl⟩

/-- A header and one question take 12 octets, a name of at most 255, and 4 for type and class. -/
def ServerEnv.SmallQuestions {W : Type} (env : ServerEnv W) : Prop :=
  ∀ msg wire, QuestionOnly msg → env.encode msg = some wire → env.size wire ≤ 12 + 255 + 4

/-- What the code lets a client accept is what it advertised, within bounds. -/
theorem clientEdns_payload (req : Message) :
    512 ≤ (clientEdns req).1 ∧ (clientEdns req).1 ≤ 1232 := by
  unfold clientEdns
  split
  · exact ⟨le_max_left _ _, max_le (by decide) (min_le_right _ _)⟩
  · exact ⟨le_rfl, by decide⟩

section Calls

variable {W : Type} {env : ServerEnv W} {config : LimiterConfig} {c : Circumstances W}
  {message : Message} {query : Query}

/-- What is sent after the measurement fits. -/
theorem sendTailored_size (hsmall : env.SmallQuestions) (hudp : c.protocol = .udp)
    (hclient : isLoopback c.clientIp = false) {wire replyWire : W}
    (h : (sendTailored env c message query wire).wire = some replyWire) :
    env.size replyWire ≤ (clientEdns message).1 := by
  unfold sendTailored at h
  split at h
  · -- Too large: the challenge goes out instead, with nothing but the question.
    have hbare := hsmall _ _ (truncatedResponse_questionOnly message.id query) h
    have hpayload := (clientEdns_payload message).1
    omega
  · rename_i hfits
    cases h
    unfold TooLarge shouldChallengeLargeResponse at hfits
    have hmeasured : ¬ (c.protocol ≠ .udp ∨ isLoopback c.clientIp = true) := by
      rw [hudp, hclient]
      simp
    rw [if_neg hmeasured, decide_eq_true_eq] at hfits
    exact Nat.not_lt.mp hfits

theorem missOutcome_size (hsmall : env.SmallQuestions) (hudp : c.protocol = .udp)
    (hclient : isLoopback c.clientIp = false) {replyWire : W}
    (h : (missOutcome env c message query).wire = some replyWire) :
    env.size replyWire ≤ (clientEdns message).1 := by
  have hfailure : ∀ wire, env.encode (servfailResponse message.id query) = some wire →
      env.size wire ≤ (clientEdns message).1 := by
    intro wire hwire
    have hbare := hsmall _ _ (servfailResponse_questionOnly message.id query) hwire
    have hpayload := (clientEdns_payload message).1
    omega
  unfold missOutcome at h
  simp only at h
  split at h
  · exact hfailure _ h
  · split at h
    · exact hfailure _ h
    · split at h
      · exact hfailure _ h
      · exact sendTailored_size hsmall hudp hclient h

end Calls

/-- **Reply size.**  Whatever the state of the server and the servers upstream, no reply over UDP to a
client outside is longer than 512 octets, or than the payload size the request advertised, clamped to
512..1232. -/
theorem udp_reply_size {W : Type} {env : ServerEnv W} (hsmall : env.SmallQuestions)
    (config : LimiterConfig) {c : Circumstances W} (hudp : c.protocol = .udp)
    (hclient : isLoopback c.clientIp = false) {reqWire replyWire : W} {req : Message}
    (hdecode : env.decode reqWire = some req)
    (hreply : (processDnsQuery env config c reqWire).wire = some replyWire) :
    env.size replyWire ≤
      match req.edns with
      | none => 512
      | some edns => max 512 (min edns.maxPayload 1232) := by
  have hpayload : (clientEdns req).1 = match req.edns with
      | none => 512
      | some edns => max 512 (min edns.maxPayload 1232) := by
    unfold clientEdns
    cases req.edns <;> rfl
  rw [← hpayload]
  by_cases hquestion : ∃ query, req.queries = [query]
  · obtain ⟨query, hquestion⟩ := hquestion
    rw [processDnsQuery_eq config c hdecode hquestion] at hreply
    split at hreply
    · have hbare := hsmall _ _ (truncatedResponse_questionOnly req.id query) hreply
      have hleast := (clientEdns_payload req).1
      omega
    · cases hreply
    · split at hreply
      · exact sendTailored_size hsmall hudp hclient hreply
      · exact missOutcome_size hsmall hudp hclient hreply
  · rw [processDnsQuery_malformed hdecode hquestion] at hreply
    cases hreply

/-! ### A codec for questions -/

/-- The number of a response code. -/
def responseCodeNumber : ResponseCode → Nat
  | .noError => 0
  | .formErr => 1
  | .servFail => 2
  | .nxDomain => 3
  | .yxDomain => 6
  | .other code => code

/-- The octets of a message that consists of its header and this question. -/
def questionWire (msg : Message) (query : Query) : List Byte :=
  let response := (decide (msg.messageType = .response)).toNat
  be16 msg.id.toNat ++
    [Fin.ofNat 256 (response * 128 + msg.opCode.code.val * 8 + msg.authoritative.toNat * 4 +
        msg.truncated.toNat * 2 + msg.recursionDesired.toNat),
      Fin.ofNat 256 (msg.recursionAvailable.toNat * 128 + msg.authenticData.toNat * 32 +
        msg.checkingDisabled.toNat * 16 + responseCodeNumber msg.responseCode % 16)] ++
    be16 1 ++ be16 0 ++ be16 0 ++ be16 0 ++
    nameWire query.name ++ be16 query.queryType.code.toNat ++ be16 query.queryClass.code.toNat

theorem nameWire_length (n : Name) : (nameWire n).length = wireLength n.labels := by
  simp [nameWire, Dnssec.labelWire, wireLength, List.length_flatMap]

theorem questionWire_length (msg : Message) (query : Query) :
    12 ≤ (questionWire msg query).length ∧ (questionWire msg query).length ≤ 12 + 255 + 4 := by
  have hname := nameWire_length query.name
  have hvalid := query.name.valid.2
  simp only [questionWire, be16, List.length_append, List.length_cons, List.length_nil, hname]
  omega

/-- `Message::to_bytes` on messages of a header and one question; nothing on others. -/
def encodeQuestion (msg : Message) : Option (List Byte) :=
  match msg.queries, msg.answers, msg.nameServers, msg.additionals, msg.edns with
  | [query], [], [], [], none => some (questionWire msg query)
  | _, _, _, _, _ => none

theorem encodeQuestion_eq_some {msg : Message} {wire : List Byte}
    (h : encodeQuestion msg = some wire) : ∃ query, wire = questionWire msg query := by
  unfold encodeQuestion at h
  split at h
  · cases h
    exact ⟨_, rfl⟩
  · cases h

/-- A server with this codec, which knows one request. -/
def questionServer : ServerEnv (List Byte) where
  platform := .plain
  encode := encodeQuestion
  decode wire :=
    if wire = questionWire plainClient.message leafQuery then some plainClient.message else none
  size := List.length
  validator := Dnssec.rootEnv fun _ _ => none
  maxStale := 300
  dnssecEnforce := true

theorem questionServer_smallQuestions : questionServer.SmallQuestions := by
  intro msg wire _ hwire
  obtain ⟨query, rfl⟩ := encodeQuestion_eq_some hwire
  exact (questionWire_length msg query).2

/-- The first call on this server; the resolver fails. -/
def questionCall (protocol : Protocol) : Circumstances (List Byte) :=
  ⟨protocol, .v4 ⟨192, 0, 2, 1⟩, 0, .new, .init (List Byte), none⟩

theorem questionServer_decode :
    questionServer.decode (questionWire plainClient.message leafQuery) =
      some plainClient.message := by
  simp [questionServer]

theorem questionCall_fails (protocol : Protocol) :
    processDnsQuery questionServer sampleNode.limiter (questionCall protocol)
        (questionWire plainClient.message leafQuery) =
      .servFail (some (questionWire (servfailResponse 0 leafQuery) leafQuery)) := by
  rw [processDnsQuery_eq sampleNode.limiter (questionCall protocol) questionServer_decode rfl]
  cases protocol <;> rfl

theorem udp_reply_size_failure :
    ∃ replyWire, (processDnsQuery questionServer sampleNode.limiter (questionCall .udp)
        (questionWire plainClient.message leafQuery)).wire = some replyWire ∧
      questionServer.size replyWire ≤ 512 := by
  have hreply := congrArg ProcessOutcome.wire (questionCall_fails .udp)
  exact ⟨_, hreply, udp_reply_size questionServer_smallQuestions sampleNode.limiter
    (c := questionCall .udp) rfl rfl questionServer_decode hreply⟩

end Engine
end UnifiedDns
