import UnifiedDns.Engine.Pipeline

/-!
# What the replies carry

The replies of a call come from three constructors: the tailored response and the two bare replies, a
challenge and a failure.

* `Challenged`, `Failed` — the ways to the bare replies; `processDnsQuery_cases` — all exits of a call.
* `Answers` — a reply that is a well-formed answer to its request.
* `reply_answers_iff` — a call replies so unless a bare reply drops a field its request set.
* `reply_loops_iff` — a reply is answered like a query unless the rate limiter drops its question.
-/

namespace UnifiedDns
namespace Engine

open Dnssec (DnssecStatus)

variable {W : Type}

/-! ### The exits of a call -/

/-- The octets of the tailored response from the cache, if the cache hit path builds one. -/
def cachedWire (env : ServerEnv W) (message : Message) (query : Query) (s : ServerState W) :
    Option W :=
  match s.cache (queryKey env query) with
  | none => none
  | some entry =>
      if entry.freshnessAt s.now env.maxStale = .expired then none
      else
        match env.decode entry.rawWire with
        | none => none
        | some cachedMsg =>
            env.encode (constructClientResponse cachedMsg query.queryType entry.dnssecStatus
              (entry.freshnessAt s.now env.maxStale) entry.cachedAt message (clientEdns message).1
              (clientEdns message).2 s.now)

/-- The octets of the tailored response to a resolved message. -/
def resolvedWire (env : ServerEnv W) (message : Message) (query : Query) (now : Nat)
    (resolved : Message) (status : DnssecStatus) : Option W :=
  env.encode (constructClientResponse (canonicalResponse resolved status) query.queryType status
    .fresh now message (clientEdns message).1 (clientEdns message).2 now)

/-- The tailored response is too large for the client. -/
def TooLarge (env : ServerEnv W) (c : Circumstances W) (message : Message) (wire : W) : Prop :=
  shouldChallengeLargeResponse c.protocol c.clientIp (env.size wire) (clientEdns message).1 = true

instance (env : ServerEnv W) (c : Circumstances W) (message : Message) (wire : W) :
    Decidable (TooLarge env c message wire) := by
  unfold TooLarge
  infer_instance

/-- A `bogus` message is withheld. -/
def Withheld (env : ServerEnv W) (message : Message) (status : DnssecStatus) : Prop :=
  status = .bogus ∧ env.dnssecEnforce = true ∧ message.checkingDisabled = false

instance (env : ServerEnv W) (message : Message) (status : DnssecStatus) :
    Decidable (Withheld env message status) := by
  unfold Withheld
  infer_instance

/-- A tailored response is sent, or challenged for its size. -/
def sendTailored (env : ServerEnv W) (c : Circumstances W) (message : Message) (query : Query)
    (wire : W) : ProcessOutcome W :=
  if TooLarge env c message wire then .truncated (env.encode (truncatedResponse message.id query))
  else .success wire

section Exits

variable (env : ServerEnv W) (config : LimiterConfig) (c : Circumstances W) (message : Message)
  (query : Query)

/-- The ways to `make_truncated_wire`: the rate limiter, and either tailored response being too large. -/
inductive Challenged : Prop
  | limiter (h : c.verdict config query = .truncate)
  | cached {wire : W} (hallow : c.verdict config query = .allow)
      (hwire : cachedWire env message query c.server = some wire)
      (hlarge : TooLarge env c message wire)
  | resolved {msg : Message} {status : DnssecStatus} {wire : W}
      (hallow : c.verdict config query = .allow)
      (hmiss : cachedWire env message query c.server = none) (hresult : c.result = some (msg, status))
      (hserved : ¬ Withheld env message status)
      (hwire : resolvedWire env message query c.server.now msg status = some wire)
      (hlarge : TooLarge env c message wire)

/-- The ways to `make_servfail_wire`: the resolver fails, or its message is withheld or cannot be
encoded for the client. -/
inductive Failed : Prop
  | unresolved (hallow : c.verdict config query = .allow)
      (hmiss : cachedWire env message query c.server = none) (hresult : c.result = none)
  | withheld {msg : Message} {status : DnssecStatus} (hallow : c.verdict config query = .allow)
      (hmiss : cachedWire env message query c.server = none) (hresult : c.result = some (msg, status))
      (hwithheld : Withheld env message status)
  | unencodable {msg : Message} {status : DnssecStatus} (hallow : c.verdict config query = .allow)
      (hmiss : cachedWire env message query c.server = none) (hresult : c.result = some (msg, status))
      (hserved : ¬ Withheld env message status)
      (hwire : resolvedWire env message query c.server.now msg status = none)

/-- A tailored response: the request's own fields around the content of a message. -/
def Tailored (wire : W) : Prop :=
  ∃ base status freshness cachedAt now, env.encode (constructClientResponse base query.queryType status
    freshness cachedAt message (clientEdns message).1 (clientEdns message).2 now) = some wire

variable {env config c message query}

variable (config) in
theorem serveEntry_cachedWire {entry : CacheEntry W} {s served : ServerState W}
    (hentry : s.cache (queryKey env query) = some entry)
    (hfresh : entry.freshnessAt s.now env.maxStale ≠ .expired) (hnow : served.now = s.now) :
    (serveEntry env (c.request config message query) query entry served).map Prod.fst =
      (cachedWire env message query s).map (sendTailored env c message query) := by
  unfold serveEntry cachedWire
  rw [hentry, hnow]
  simp only [if_neg hfresh]
  cases env.decode entry.rawWire with
  | none => rfl
  | some cachedMsg =>
      simp only [Circumstances.request]
      split
      · rename_i hnone
        rw [hnone]
        rfl
      · rename_i wire hwire
        rw [hwire]
        by_cases hlarge : TooLarge env c message wire
        · simp only [Option.map_some, sendTailored, if_pos hlarge]
          exact congrArg (Option.map Prod.fst) (if_pos hlarge)
        · simp only [Option.map_some, sendTailored, if_neg hlarge]
          exact congrArg (Option.map Prod.fst) (if_neg hlarge)

variable (config c message query) in
/-- A request that is allowed is answered from the cache exactly when the cache gives a response. -/
theorem lookupCache_outcome (s : ServerState W) :
    (lookupCache env (c.request config message query) query s).1 =
      (cachedWire env message query s).map (sendTailored env c message query) := by
  cases hentry : s.cache (queryKey env query) with
  | none =>
      unfold lookupCache cachedWire
      rw [hentry]
      rfl
  | some entry =>
      by_cases hexpired : entry.freshnessAt s.now env.maxStale = .expired
      · unfold lookupCache cachedWire
        simp only [hentry, if_pos hexpired]
        rfl
      · rw [lookupCache_hit (c.request config message query) query hentry hexpired]
        have hnow : (if entry.freshnessAt s.now env.maxStale = .stale then
            spawnRevalidation env query s else s).now = s.now := by
          split
          · exact spawnRevalidation_now query s
          · rfl
        rw [← serveEntry_cachedWire config hentry hexpired hnow]
        unfold serveOrMiss
        split
        · rename_i heq
          rw [heq]
          rfl
        · rename_i heq
          rw [heq]
          rfl

/-- How a request that missed the cache ends. -/
def missOutcome (env : ServerEnv W) (c : Circumstances W) (message : Message) (query : Query) :
    ProcessOutcome W :=
  let servFail := env.encode (servfailResponse message.id query)
  match c.result with
  | none => .servFail servFail
  | some (msg, status) =>
      if Withheld env message status then .servFail servFail
      else
        match resolvedWire env message query c.server.now msg status with
        | none => .servFail servFail
        | some wire => sendTailored env c message query wire

theorem finishForeground_missOutcome (s : ServerState W) :
    (finishForeground env (c.request config message query) query c.server.now c.result s).1 =
      missOutcome env c message query := by
  unfold finishForeground missOutcome
  cases c.result with
  | none => rfl
  | some judged =>
      obtain ⟨msg, status⟩ := judged
      by_cases hwithheld : Withheld env message status
      · simp only [if_pos hwithheld]
        exact congrArg Prod.fst (if_pos hwithheld)
      · have hserved : ¬ (status = .bogus ∧ env.dnssecEnforce = true ∧
            (c.request config message query).message.checkingDisabled = false) := hwithheld
        simp only [if_neg hwithheld, if_neg hserved]
        cases hwire : resolvedWire env message query c.server.now msg status with
        | none =>
            unfold resolvedWire at hwire
            simp only [Circumstances.request, hwire]
        | some wire =>
            unfold resolvedWire at hwire
            simp only [Circumstances.request, hwire]
            by_cases hlarge : TooLarge env c message wire
            · rw [sendTailored, if_pos hlarge]
              exact congrArg Prod.fst (if_pos hlarge)
            · rw [sendTailored, if_neg hlarge]
              exact congrArg Prod.fst (if_neg hlarge)

variable (config c) in
/-- A call with one question, exit by exit. -/
theorem processDnsQuery_eq {reqWire : W} (hdecode : env.decode reqWire = some message)
    (hquestion : message.queries = [query]) :
    processDnsQuery env config c reqWire =
      match c.verdict config query with
      | .truncate => .truncated (env.encode (truncatedResponse message.id query))
      | .drop => .dropped
      | .allow =>
          match cachedWire env message query c.server with
          | some wire => sendTailored env c message query wire
          | none => missOutcome env c message query := by
  have hreceive : receive env (c.request config message query) c.server =
      match c.verdict config query with
      | .truncate => (some (.truncated (env.encode (truncatedResponse message.id query))), c.server)
      | .drop => (some .dropped, c.server)
      | .allow => lookupCache env (c.request config message query) query c.server := by
    unfold receive
    rw [show (c.request config message query).message.queries = [query] from hquestion]
    rfl
  have hlookup := @lookupCache_outcome W env config c message query c.server
  unfold processDnsQuery
  simp only [hdecode, hquestion]
  cases hverdict : c.verdict config query with
  | truncate => rw [hreceive, hverdict]
  | drop => rw [hreceive, hverdict]
  | allow =>
      simp only [hverdict] at hreceive
      rw [hreceive]
      cases hcached : cachedWire env message query c.server with
      | some wire =>
          rw [hcached] at hlookup
          split
          · rename_i heq
            rw [heq] at hlookup
            exact Option.some.inj hlookup
          · rename_i heq
            rw [heq] at hlookup
            cases hlookup
      | none =>
          rw [hcached] at hlookup
          split
          · rename_i heq
            rw [heq] at hlookup
            cases hlookup
          · exact finishForeground_missOutcome _

theorem Challenged.outcome {reqWire : W} (h : Challenged env config c message query)
    (hdecode : env.decode reqWire = some message) (hquestion : message.queries = [query]) :
    processDnsQuery env config c reqWire =
      .truncated (env.encode (truncatedResponse message.id query)) := by
  rw [processDnsQuery_eq config c hdecode hquestion]
  cases h with
  | limiter h => rw [h]
  | cached hallow hwire hlarge => simp only [hallow, hwire, sendTailored, if_pos hlarge]
  | resolved hallow hmiss hresult hserved hwire hlarge =>
      simp only [hallow, hmiss, missOutcome, hresult, if_neg hserved, hwire, sendTailored,
        if_pos hlarge]

theorem Failed.outcome {reqWire : W} (h : Failed env config c message query)
    (hdecode : env.decode reqWire = some message) (hquestion : message.queries = [query]) :
    processDnsQuery env config c reqWire =
      .servFail (env.encode (servfailResponse message.id query)) := by
  rw [processDnsQuery_eq config c hdecode hquestion]
  cases h with
  | unresolved hallow hmiss hresult => simp only [hallow, hmiss, missOutcome, hresult]
  | withheld hallow hmiss hresult hwithheld =>
      simp only [hallow, hmiss, missOutcome, hresult, if_pos hwithheld]
  | unencodable hallow hmiss hresult hserved hwire =>
      simp only [hallow, hmiss, missOutcome, hresult, if_neg hserved, hwire]

theorem cachedWire_tailored {s : ServerState W} {wire : W}
    (h : cachedWire env message query s = some wire) : Tailored env message query wire := by
  unfold cachedWire at h
  split at h
  · cases h
  · split at h
    · cases h
    · split at h
      · cases h
      · exact ⟨_, _, _, _, _, h⟩

variable (config c) in
/-- The four ways a call with one question ends. -/
theorem processDnsQuery_cases {reqWire : W} (hdecode : env.decode reqWire = some message)
    (hquestion : message.queries = [query]) :
    (c.verdict config query = .drop ∧ processDnsQuery env config c reqWire = .dropped) ∨
      (c.verdict config query ≠ .drop ∧ (Challenged env config c message query ∨
        Failed env config c message query ∨ ∃ wire, Tailored env message query wire ∧
          processDnsQuery env config c reqWire = .success wire)) := by
  rw [processDnsQuery_eq config c hdecode hquestion]
  cases hverdict : c.verdict config query with
  | truncate => exact Or.inr ⟨by decide, Or.inl (.limiter hverdict)⟩
  | drop => exact Or.inl ⟨rfl, rfl⟩
  | allow =>
      refine Or.inr ⟨by decide, ?_⟩
      simp only
      cases hcached : cachedWire env message query c.server with
      | some wire =>
          by_cases hlarge : TooLarge env c message wire
          · exact Or.inl (.cached hverdict hcached hlarge)
          · exact Or.inr (Or.inr ⟨wire, cachedWire_tailored hcached, if_neg hlarge⟩)
      | none =>
          simp only [missOutcome]
          cases hresult : c.result with
          | none => exact Or.inr (Or.inl (.unresolved hverdict hcached hresult))
          | some judged =>
              obtain ⟨msg, status⟩ := judged
              by_cases hwithheld : Withheld env message status
              · exact Or.inr (Or.inl (.withheld hverdict hcached hresult hwithheld))
              · simp only [if_neg hwithheld]
                cases hwire : resolvedWire env message query c.server.now msg status with
                | none =>
                    exact Or.inr (Or.inl (.unencodable hverdict hcached hresult hwithheld hwire))
                | some wire =>
                    by_cases hlarge : TooLarge env c message wire
                    · exact Or.inl (.resolved hverdict hcached hresult hwithheld hwire hlarge)
                    · exact Or.inr (Or.inr ⟨wire, ⟨_, _, _, _, _, hwire⟩, if_neg hlarge⟩)

end Exits

/-! ### What a reply echoes -/

/-- The parts of a message that the codec is trusted with. -/
structure SameHeader (a b : Message) : Prop where
  id : a.id = b.id
  messageType : a.messageType = b.messageType
  opCode : a.opCode = b.opCode
  authoritative : a.authoritative = b.authoritative
  recursionDesired : a.recursionDesired = b.recursionDesired
  recursionAvailable : a.recursionAvailable = b.recursionAvailable
  checkingDisabled : a.checkingDisabled = b.checkingDisabled
  queries : a.queries = b.queries
  edns : a.edns = b.edns

/-- Encoding and decoding round-trips the header, the questions and EDNS. -/
def ServerEnv.KeepsHeaders (env : ServerEnv W) : Prop :=
  ∀ msg wire, env.encode msg = some wire → ∃ msg', env.decode wire = some msg' ∧ SameHeader msg' msg

/-- The message is a well-formed answer to the request. -/
structure Answers (req reply : Message) : Prop where
  messageType : reply.messageType = .response
  id : reply.id = req.id
  opCode : reply.opCode = req.opCode
  queries : reply.queries = req.queries
  recursionDesired : reply.recursionDesired = req.recursionDesired
  checkingDisabled : reply.checkingDisabled = req.checkingDisabled
  recursionAvailable : reply.recursionAvailable = true
  authoritative : reply.authoritative = false
  edns : reply.edns.isSome = req.edns.isSome

/-- If the outcome has octets, they decode to a well-formed answer to the request. -/
def RepliesWell (env : ServerEnv W) (reqWire : W) (outcome : ProcessOutcome W) : Prop :=
  ∀ wire, outcome.wire = some wire → ∃ req, env.decode reqWire = some req ∧
    ∃ reply, env.decode wire = some reply ∧ Answers req reply

/-- The request sets none of the fields that a bare reply leaves out. -/
def PlainRequest (req : Message) : Prop :=
  req.opCode = .query ∧ req.recursionDesired = false ∧ req.checkingDisabled = false ∧ req.edns = none

theorem SameHeader.symm {a b : Message} (h : SameHeader a b) : SameHeader b a :=
  ⟨h.id.symm, h.messageType.symm, h.opCode.symm, h.authoritative.symm, h.recursionDesired.symm,
    h.recursionAvailable.symm, h.checkingDisabled.symm, h.queries.symm, h.edns.symm⟩

theorem SameHeader.answers {req a b : Message} (h : SameHeader a b) (hb : Answers req b) :
    Answers req a where
  messageType := h.messageType.trans hb.messageType
  id := h.id.trans hb.id
  opCode := h.opCode.trans hb.opCode
  queries := h.queries.trans hb.queries
  recursionDesired := h.recursionDesired.trans hb.recursionDesired
  checkingDisabled := h.checkingDisabled.trans hb.checkingDisabled
  recursionAvailable := h.recursionAvailable.trans hb.recursionAvailable
  authoritative := h.authoritative.trans hb.authoritative
  edns := (congrArg Option.isSome h.edns).trans hb.edns

theorem constructClientResponse_answers (base : Message) (qtype : RecordType)
    (status : DnssecStatus) (freshness : CacheFreshness) (cachedAt : Nat) (req : Message)
    (maxPayload : Nat) (dnssecOk : Bool) (now : Nat) :
    Answers req (constructClientResponse base qtype status freshness cachedAt req maxPayload dnssecOk
      now) := by
  refine ⟨rfl, rfl, rfl, rfl, rfl, rfl, rfl, rfl, ?_⟩
  unfold constructClientResponse
  simp only
  cases req.edns <;> rfl

/-- Both bare replies have the identifier and the question, and defaults elsewhere. -/
structure Bare (req : Message) (reply : Message) : Prop where
  messageType : reply.messageType = .response
  id : reply.id = req.id
  opCode : reply.opCode = .query
  queries : reply.queries = req.queries
  recursionDesired : reply.recursionDesired = false
  checkingDisabled : reply.checkingDisabled = false
  recursionAvailable : reply.recursionAvailable = true
  authoritative : reply.authoritative = false
  edns : reply.edns = none

theorem truncatedResponse_bare {req : Message} {query : Query} (h : req.queries = [query]) :
    Bare req (truncatedResponse req.id query) :=
  ⟨rfl, rfl, rfl, h.symm, rfl, rfl, rfl, rfl, rfl⟩

theorem servfailResponse_bare {req : Message} {query : Query} (h : req.queries = [query]) :
    Bare req (servfailResponse req.id query) :=
  ⟨rfl, rfl, rfl, h.symm, rfl, rfl, rfl, rfl, rfl⟩

/-- A bare reply is a well-formed answer to plain requests only. -/
theorem Bare.answers_iff {req reply : Message} (h : Bare req reply) : Answers req reply ↔
    PlainRequest req := by
  constructor
  · intro hanswers
    refine ⟨hanswers.opCode.symm.trans h.opCode, hanswers.recursionDesired.symm.trans
      h.recursionDesired, hanswers.checkingDisabled.symm.trans h.checkingDisabled, ?_⟩
    have hedns : none.isSome = req.edns.isSome := h.edns ▸ hanswers.edns
    exact Option.not_isSome_iff_eq_none.mp (by rw [← hedns]; decide)
  · rintro ⟨hopCode, hrd, hcd, hedns⟩
    exact ⟨h.messageType, h.id, h.opCode.trans hopCode.symm, h.queries,
      h.recursionDesired.trans hrd.symm, h.checkingDisabled.trans hcd.symm, h.recursionAvailable,
      h.authoritative, by rw [h.edns, hedns]⟩

section Calls

variable {env : ServerEnv W} {config : LimiterConfig} {c : Circumstances W}

/-- Encoded octets are an answer when the message is. -/
theorem encoded_answers_iff (hkeeps : env.KeepsHeaders) {req msg : Message} {wire : W}
    (hwire : env.encode msg = some wire) :
    (∃ reply, env.decode wire = some reply ∧ Answers req reply) ↔ Answers req msg := by
  obtain ⟨decoded, hdecode, hheader⟩ := hkeeps msg wire hwire
  constructor
  · rintro ⟨reply, hreply, hanswers⟩
    cases hdecode.symm.trans hreply
    exact hheader.symm.answers hanswers
  · intro hanswers
    exact ⟨decoded, hdecode, hheader.answers hanswers⟩

/-- The call comes to a bare reply, and that can be encoded. -/
def SendsBareReply (env : ServerEnv W) (config : LimiterConfig) (c : Circumstances W) (req : Message)
    (query : Query) : Prop :=
  (Challenged env config c req query ∧ (env.encode (truncatedResponse req.id query)).isSome) ∨
    (Failed env config c req query ∧ (env.encode (servfailResponse req.id query)).isSome)

/-- An outcome that sends a bare reply, or nothing if that cannot be encoded. -/
theorem repliesWell_bare (hkeeps : env.KeepsHeaders) {reqWire : W} {req msg : Message}
    {outcome : ProcessOutcome W} (hdecode : env.decode reqWire = some req) (hbare : Bare req msg)
    (hwire : outcome.wire = env.encode msg) :
    RepliesWell env reqWire outcome ↔ PlainRequest req ∨ (env.encode msg).isSome = false := by
  unfold RepliesWell
  rw [hwire]
  cases hencode : env.encode msg with
  | none => simp
  | some wire =>
      have hiff : _ ↔ Answers req msg := encoded_answers_iff hkeeps hencode
      simp only [Option.some.injEq, forall_eq', hdecode, exists_eq_left', Option.isSome_some,
        Bool.true_eq_false, or_false, hiff]
      exact hbare.answers_iff

theorem processDnsQuery_malformed {reqWire : W} {req : Message} (hdecode : env.decode reqWire = some req)
    (hquestion : ¬ ∃ query, req.queries = [query]) :
    processDnsQuery env config c reqWire = .malformed := by
  unfold processDnsQuery
  simp only [hdecode]
  split
  · rename_i query hone
    exact absurd ⟨query, hone⟩ hquestion
  · rfl

/-- The statement for octets that decode to a message with one question. -/
theorem reply_answers_question (hkeeps : env.KeepsHeaders) {reqWire : W} {req : Message} {query : Query}
    (hdecode : env.decode reqWire = some req) (hquestion : req.queries = [query]) :
    RepliesWell env reqWire (processDnsQuery env config c reqWire) ↔
      PlainRequest req ∨ ¬ SendsBareReply env config c req query := by
  have hchallenge (h : Challenged env config c req query) := h.outcome hdecode hquestion
  have hfail (h : Failed env config c req query) := h.outcome hdecode hquestion
  by_cases hchallenged : Challenged env config c req query
  · have hnotFailed : ¬ Failed env config c req query := fun h => by
      cases (hchallenge hchallenged).symm.trans (hfail h)
    rw [hchallenge hchallenged, repliesWell_bare hkeeps hdecode (truncatedResponse_bare hquestion) rfl]
    simp [SendsBareReply, hchallenged, hnotFailed]
  · by_cases hfailed : Failed env config c req query
    · rw [hfail hfailed, repliesWell_bare hkeeps hdecode (servfailResponse_bare hquestion) rfl]
      simp [SendsBareReply, hchallenged, hfailed]
    · refine iff_of_true ?_ (Or.inr (by simp [SendsBareReply, hchallenged, hfailed]))
      rcases processDnsQuery_cases config c hdecode hquestion with
        ⟨-, houtcome⟩ | ⟨-, h | h | ⟨wire, ⟨_, _, _, _, _, htailored⟩, houtcome⟩⟩
      · rw [houtcome]
        intro wire hwire
        cases hwire
      · exact absurd h hchallenged
      · exact absurd h hfailed
      · rw [houtcome]
        rintro _ ⟨⟩
        exact ⟨req, hdecode, (encoded_answers_iff hkeeps htailored).mpr
          (constructClientResponse_answers _ _ _ _ _ _ _ _ _)⟩

/-- **Replies to a request.**  For all octets and in all circumstances: the reply is a well-formed answer
exactly if the request is plain or the call does not come to a bare reply. -/
theorem reply_answers_iff (hkeeps : env.KeepsHeaders) (config : LimiterConfig) (c : Circumstances W)
    (reqWire : W) :
    RepliesWell env reqWire (processDnsQuery env config c reqWire) ↔
      ∀ req query, env.decode reqWire = some req → req.queries = [query] →
        PlainRequest req ∨ ¬ SendsBareReply env config c req query := by
  cases hdecode : env.decode reqWire with
  | none =>
      refine ⟨fun _ req query h => by (cases h), fun _ wire hwire => ?_⟩
      unfold processDnsQuery at hwire
      simp only [hdecode] at hwire
      cases hwire
  | some req =>
      by_cases hquestion : ∃ query, req.queries = [query]
      · obtain ⟨query, hquestion⟩ := hquestion
        have hcondition : (∀ req' query', some req = some req' → req'.queries = [query'] →
            PlainRequest req' ∨ ¬ SendsBareReply env config c req' query') ↔
              (PlainRequest req ∨ ¬ SendsBareReply env config c req query) := by
          constructor
          · exact fun h => h req query rfl hquestion
          · rintro h req' query' ⟨⟩ hquestion'
            cases hquestion.symm.trans hquestion'
            exact h
        rw [hcondition]
        exact reply_answers_question hkeeps hdecode hquestion
      · constructor
        · rintro - req' query ⟨⟩ hone
          exact absurd ⟨query, hone⟩ hquestion
        · intro _ wire hwire
          rw [processDnsQuery_malformed hdecode hquestion] at hwire
          cases hwire

/-- A reply has the question of its request, and no other. -/
theorem reply_question (hkeeps : env.KeepsHeaders) {reqWire replyWire : W}
    (hreply : (processDnsQuery env config c reqWire).wire = some replyWire) :
    ∃ req query reply, env.decode reqWire = some req ∧ req.queries = [query] ∧
      env.decode replyWire = some reply ∧ reply.queries = [query] := by
  cases hdecode : env.decode reqWire with
  | none =>
      unfold processDnsQuery at hreply
      simp only [hdecode] at hreply
      cases hreply
  | some req =>
      by_cases hquestion : ∃ query, req.queries = [query]
      · obtain ⟨query, hquestion⟩ := hquestion
        -- Whatever message was encoded, its only question is that of the request.
        suffices hmessage : ∃ msg, env.encode msg = some replyWire ∧ msg.queries = [query] by
          obtain ⟨msg, hencode, hmsg⟩ := hmessage
          obtain ⟨reply, hdecoded, hheader⟩ := hkeeps msg replyWire hencode
          exact ⟨req, query, reply, rfl, hquestion, hdecoded, hheader.queries.trans hmsg⟩
        rcases processDnsQuery_cases config c hdecode hquestion with
          ⟨-, houtcome⟩ | ⟨-, h | h | ⟨wire, ⟨_, _, _, _, _, htailored⟩, houtcome⟩⟩
        · rw [houtcome] at hreply
          cases hreply
        · rw [h.outcome hdecode hquestion] at hreply
          exact ⟨_, hreply, rfl⟩
        · rw [h.outcome hdecode hquestion] at hreply
          exact ⟨_, hreply, rfl⟩
        · rw [houtcome] at hreply
          cases hreply
          exact ⟨_, htailored, hquestion⟩
      · rw [processDnsQuery_malformed hdecode hquestion] at hreply
        cases hreply

end Calls

/-- **Reply loops.**  A reply of one server that reaches a server with the same codec, in whatever
circumstances, brings no reply exactly if the second rate limiter drops the question of the request. -/
theorem reply_loops_iff {env₁ env₂ : ServerEnv W} (hkeeps : env₁.KeepsHeaders)
    (hcodec : env₂.decode = env₁.decode) {config₁ config₂ : LimiterConfig} {c₁ c₂ : Circumstances W}
    {reqWire replyWire : W} (hreply : (processDnsQuery env₁ config₁ c₁ reqWire).wire = some replyWire) :
    (processDnsQuery env₂ config₂ c₂ replyWire = .malformed ∨
        processDnsQuery env₂ config₂ c₂ replyWire = .dropped) ↔
      ∃ req query, env₁.decode reqWire = some req ∧ req.queries = [query] ∧
        c₂.verdict config₂ query = .drop := by
  obtain ⟨req, query, reply, hdecode, hquestion, hreplyDecode, hreplyQuestion⟩ :=
    reply_question hkeeps hreply
  have hdecode₂ : env₂.decode replyWire = some reply := by rw [hcodec, hreplyDecode]
  have hcondition : (∃ req' query', env₁.decode reqWire = some req' ∧ req'.queries = [query'] ∧
      c₂.verdict config₂ query' = .drop) ↔ c₂.verdict config₂ query = .drop := by
    constructor
    · rintro ⟨req', query', hdecode', hquestion', hdrop⟩
      cases hdecode.symm.trans hdecode'
      cases hquestion.symm.trans hquestion'
      exact hdrop
    · exact fun hdrop => ⟨req, query, hdecode, hquestion, hdrop⟩
  rw [hcondition]
  rcases processDnsQuery_cases config₂ c₂ hdecode₂ hreplyQuestion with
    ⟨hdrop, houtcome⟩ | ⟨hdrop, h | h | ⟨wire, -, houtcome⟩⟩
  · exact iff_of_true (Or.inr houtcome) hdrop
  · rw [h.outcome hdecode₂ hreplyQuestion]
    exact iff_of_false (by rintro (h | h) <;> cases h) hdrop
  · rw [h.outcome hdecode₂ hreplyQuestion]
    exact iff_of_false (by rintro (h | h) <;> cases h) hdrop
  · rw [houtcome]
    exact iff_of_false (by rintro (h | h) <;> cases h) hdrop

/-! ### A resolver that fails -/

/-- The first call on a server that has just started, from an address outside; the resolver fails. -/
def firstCall (protocol : Protocol) : Circumstances Message :=
  ⟨protocol, .v4 ⟨192, 0, 2, 1⟩, 0, .new, .init Message, none⟩

theorem sampleServer_keepsHeaders : sampleServer.KeepsHeaders := by
  rintro msg _ ⟨⟩
  exact ⟨msg, rfl, rfl, rfl, rfl, rfl, rfl, rfl, rfl, rfl, rfl⟩

/-- The reply to a request with RD, CD and EDNS has none of them. -/
theorem failure_drops_flags :
    ¬ ∀ (env : ServerEnv Message) (config : LimiterConfig) (c : Circumstances Message)
        (reqWire : Message), env.KeepsHeaders →
      RepliesWell env reqWire (processDnsQuery env config c reqWire) := by
  intro hclaim
  have hreply : (processDnsQuery sampleServer sampleNode.limiter (firstCall .udp)
      flaggedClient.message).wire = some (servfailResponse 7 leafQuery) := by
    rfl
  obtain ⟨req, hreq, reply, hdecode, hanswers⟩ :=
    hclaim sampleServer sampleNode.limiter (firstCall .udp) flaggedClient.message
      sampleServer_keepsHeaders _ hreply
  cases hreq
  cases hdecode
  exact absurd hanswers.recursionDesired (by decide)

/-- The same request without flags and EDNS is answered well by the same bare reply. -/
theorem reply_answers_iff_plain :
    RepliesWell sampleServer plainClient.message
      (processDnsQuery sampleServer sampleNode.limiter (firstCall .udp) plainClient.message) := by
  refine (reply_answers_iff sampleServer_keepsHeaders sampleNode.limiter (firstCall .udp)
    plainClient.message).mpr ?_
  rintro req query ⟨⟩ -
  exact Or.inl ⟨rfl, rfl, rfl, rfl⟩

/-- A failure is answered by a second failure. -/
theorem failure_answered :
    ¬ ∀ (env : ServerEnv Message) (config : LimiterConfig) (c₁ c₂ : Circumstances Message)
        (reqWire replyWire : Message), env.KeepsHeaders →
      (processDnsQuery env config c₁ reqWire).wire = some replyWire →
        processDnsQuery env config c₂ replyWire = .malformed ∨
          processDnsQuery env config c₂ replyWire = .dropped := by
  intro hclaim
  have hloop := hclaim sampleServer sampleNode.limiter (firstCall .udp) (firstCall .udp)
    plainClient.message (servfailResponse 0 leafQuery) sampleServer_keepsHeaders rfl
  have hreply : processDnsQuery sampleServer sampleNode.limiter (firstCall .udp)
      (servfailResponse 0 leafQuery) = .servFail (some (servfailResponse 0 leafQuery)) := by
    rfl
  rw [hreply] at hloop
  rcases hloop with h | h
  · cases h
  · cases h

/-- A question for all types, asked over TCP. -/
def anyRequest : Message := { Message.new with queries := [⟨Recursor.leafZone, .ANY, .IN⟩] }

/-- The reply to it is dropped when it arrives over UDP. -/
theorem reply_loops_iff_any :
    processDnsQuery sampleServer sampleNode.limiter (firstCall .udp)
        (servfailResponse 0 ⟨Recursor.leafZone, .ANY, .IN⟩) = .malformed ∨
      processDnsQuery sampleServer sampleNode.limiter (firstCall .udp)
        (servfailResponse 0 ⟨Recursor.leafZone, .ANY, .IN⟩) = .dropped := by
  have hreply : (processDnsQuery sampleServer sampleNode.limiter (firstCall .tcp) anyRequest).wire =
      some (servfailResponse 0 ⟨Recursor.leafZone, .ANY, .IN⟩) := by
    rfl
  exact (reply_loops_iff sampleServer_keepsHeaders rfl hreply).mpr
    ⟨anyRequest, ⟨Recursor.leafZone, .ANY, .IN⟩, rfl, rfl, rfl⟩

end Engine
end UnifiedDns
