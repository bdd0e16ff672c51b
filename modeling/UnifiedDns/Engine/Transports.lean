import UnifiedDns.Engine.Streams
import UnifiedDns.Engine.TokenBucket

/-!
# The same call over different transports

`process_dns_query` is told the transport; it matters to the rate limiter and to the check of the size.

* `Circumstances.over` — the same circumstances with another transport.
* `ProcessOutcome.buffer` — the octets that the transports send for an outcome.
* `transports_agree` — streams and HTTP agree on every request, and UDP agrees unless it drops or truncates.
-/

namespace UnifiedDns
namespace Engine

/-- What is sent for an outcome; a wire that could not be encoded is the empty buffer. -/
def ProcessOutcome.buffer : ProcessOutcome (List Byte) → Option (List Byte)
  | .success wire => some wire
  | .servFail wire => some (wire.getD [])
  | .truncated wire => some (wire.getD [])
  | .dropped => none
  | .malformed => none

theorem ProcessOutcome.buffer_cases {outcome : ProcessOutcome (List Byte)} {octets : List Byte}
    (h : outcome.buffer = some octets) : outcome.wire = some octets ∨ octets = [] := by
  have hwire : ∀ wire : Option (List Byte), some (wire.getD []) = some octets →
      wire = some octets ∨ octets = [] := by
    rintro (- | wire) hwire
    · cases hwire
      exact Or.inr rfl
    · exact Or.inl hwire
  cases outcome with
  | success wire => exact Or.inl h
  | servFail wire => exact hwire wire h
  | truncated wire => exact hwire wire h
  | dropped => cases h
  | malformed => cases h

section Calls

variable {W : Type} {env : ServerEnv W} {config : LimiterConfig} {c : Circumstances W}
  {message : Message} {query : Query}

/-- The same circumstances, for a request over another transport. -/
def Circumstances.over (c : Circumstances W) (protocol : Protocol) : Circumstances W :=
  { c with protocol := protocol }

/-- Transports other than UDP are alike to the rate limiter. -/
theorem checkQuery_stream (config : LimiterConfig) (nowMillis : Nat) {protocol : Protocol}
    (hprotocol : protocol ≠ .udp) (clientIp : IpAddr) (qname : Name) (qtype : RecordType)
    (limiter : RateLimiter) :
    checkQuery config nowMillis protocol clientIp qname qtype limiter =
      checkQuery config nowMillis .tcp clientIp qname qtype limiter := by
  cases protocol with
  | udp => exact absurd rfl hprotocol
  | tcp => rfl
  | dot => rfl
  | doh => rfl

/-- They allow a query or drop it, and what UDP does not drop, they allow. -/
theorem verdict_stream (config : LimiterConfig) (c : Circumstances W) (query : Query) :
    ((c.over .tcp).verdict config query = .allow ∨ (c.over .tcp).verdict config query = .drop) ∧
      ((c.over .udp).verdict config query ≠ .drop → (c.over .tcp).verdict config query = .allow) := by
  unfold Circumstances.verdict Circumstances.over
  simp only
  by_cases hloopback : isLoopback c.clientIp = true
  · have hallow : ∀ protocol, (checkQuery config c.nowMillis protocol c.clientIp query.name
        query.queryType c.limiter).1 = .allow := by
      intro protocol
      rw [checkQuery, if_pos hloopback]
    exact ⟨Or.inl (hallow .tcp), fun _ => hallow .tcp⟩
  · rw [checkQuery_counted config c.nowMillis .tcp c.clientIp query.name query.queryType c.limiter
      hloopback (fun h => by cases h.1)]
    by_cases hgranted : ((bucketAt config c.nowMillis (c.limiter.subnetBuckets
        (toSubnet c.clientIp))).spend config c.nowMillis).1 = false
    · rw [if_pos hgranted]
      refine ⟨Or.inr rfl, fun hudp => absurd ?_ hudp⟩
      by_cases hany : query.queryType = .ANY
      · rw [checkQuery, if_neg hloopback, if_pos ⟨rfl, hany⟩]
      · rw [checkQuery_counted config c.nowMillis .udp c.clientIp query.name query.queryType c.limiter
          hloopback (fun h => hany h.2), if_pos hgranted]
    · rw [if_neg hgranted, if_pos (by decide)]
      exact ⟨Or.inl rfl, fun _ => rfl⟩

/-- Nothing is too large for a transport other than UDP. -/
theorem sendTailored_stream {protocol : Protocol} (hprotocol : protocol ≠ .udp) (wire : W) :
    sendTailored env (c.over protocol) message query wire = .success wire := by
  refine if_neg ?_
  unfold TooLarge shouldChallengeLargeResponse
  rw [if_pos (Or.inl (show (c.over protocol).protocol ≠ .udp from hprotocol))]
  exact Bool.false_ne_true

/-- A tailored response goes out over UDP as it does over TCP, or as a challenge. -/
theorem sendTailored_udp (wire : W) :
    sendTailored env (c.over .udp) message query wire =
        .truncated (env.encode (truncatedResponse message.id query)) ∨
      sendTailored env (c.over .udp) message query wire = sendTailored env (c.over .tcp) message query wire := by
  rw [sendTailored_stream (show Protocol.tcp ≠ .udp by decide) wire]
  unfold sendTailored
  split
  · exact Or.inl rfl
  · exact Or.inr rfl

theorem missOutcome_stream {protocol : Protocol} (hprotocol : protocol ≠ .udp) :
    missOutcome env (c.over protocol) message query = missOutcome env (c.over .tcp) message query := by
  unfold missOutcome
  simp only [sendTailored_stream hprotocol, sendTailored_stream (show Protocol.tcp ≠ .udp by decide)]
  rfl

theorem missOutcome_udp :
    missOutcome env (c.over .udp) message query =
        .truncated (env.encode (truncatedResponse message.id query)) ∨
      missOutcome env (c.over .udp) message query = missOutcome env (c.over .tcp) message query := by
  unfold missOutcome
  simp only [show (c.over .udp).result = c.result from rfl, show (c.over .tcp).result = c.result from rfl,
    show (c.over .udp).server = c.server from rfl, show (c.over .tcp).server = c.server from rfl]
  split
  · exact Or.inr rfl
  · split
    · exact Or.inr rfl
    · split
      · exact Or.inr rfl
      · exact sendTailored_udp _

theorem missOutcome_not_truncated (wire : Option W) :
    missOutcome env (c.over .tcp) message query ≠ .truncated wire := by
  unfold missOutcome
  simp only [sendTailored_stream (show Protocol.tcp ≠ .udp by decide)]
  split
  · exact nofun
  · split
    · exact nofun
    · split
      · exact nofun
      · exact nofun

/-- **The transports agree.**  A request in the same circumstances gets the same outcome over TCP, DoT and
DoH, which is never a truncated reply.  Over UDP it gets that outcome too, unless it is dropped or is told to
come back over TCP with a truncated reply to its question. -/
theorem transports_agree (env : ServerEnv W) (config : LimiterConfig) (c : Circumstances W) (reqWire : W) :
    let outcome (protocol : Protocol) := processDnsQuery env config (c.over protocol) reqWire
    outcome .dot = outcome .tcp ∧ outcome .doh = outcome .tcp ∧
      (∀ wire, outcome .tcp ≠ .truncated wire) ∧
      (outcome .udp = outcome .tcp ∨ outcome .udp = .dropped ∨
        ∃ message query, env.decode reqWire = some message ∧ message.queries = [query] ∧
          outcome .udp = .truncated (env.encode (truncatedResponse message.id query))) := by
  intro outcome
  cases hdecode : env.decode reqWire with
  | none =>
      have hmalformed : ∀ protocol, outcome protocol = .malformed := by
        intro protocol
        simp only [outcome, processDnsQuery, hdecode]
      simp only [hmalformed]
      exact ⟨trivial, trivial, nofun, Or.inl trivial⟩
  | some message =>
      by_cases hquestion : ∃ query, message.queries = [query]
      · obtain ⟨query, hquestion⟩ := hquestion
        have heq : ∀ protocol, outcome protocol = _ := fun protocol =>
          processDnsQuery_eq config (c.over protocol) hdecode hquestion
        have hstream : ∀ protocol, protocol ≠ .udp → outcome protocol = outcome .tcp := by
          intro protocol hprotocol
          have hverdict : (c.over protocol).verdict config query = (c.over .tcp).verdict config query :=
            congrArg Prod.fst (checkQuery_stream config c.nowMillis hprotocol c.clientIp query.name
              query.queryType c.limiter)
          rw [heq, heq, hverdict, missOutcome_stream hprotocol]
          simp only [sendTailored_stream hprotocol, sendTailored_stream (show Protocol.tcp ≠ .udp by decide)]
          rfl
        obtain ⟨hcases, hpassed⟩ := verdict_stream config c query
        refine ⟨hstream .dot (by decide), hstream .doh (by decide), fun wire => ?_, ?_⟩
        · rw [heq]
          rcases hcases with hallow | hdrop
          · simp only [hallow]
            split
            · rw [sendTailored_stream (by decide)]
              exact nofun
            · exact missOutcome_not_truncated wire
          · rw [hdrop]
            exact nofun
        · cases hverdict : (c.over .udp).verdict config query with
          | drop =>
              refine Or.inr (Or.inl ?_)
              rw [heq, hverdict]
          | truncate =>
              refine Or.inr (Or.inr ⟨message, query, rfl, hquestion, ?_⟩)
              rw [heq, hverdict]
          | allow =>
              have hallow := hpassed (by rw [hverdict]; decide)
              have hudp := heq .udp
              have htcp := heq .tcp
              simp only [hverdict] at hudp
              simp only [hallow] at htcp
              have hserver : (c.over .udp).server = (c.over .tcp).server := rfl
              rw [hserver] at hudp
              cases hcached : cachedWire env message query (c.over .tcp).server with
              | some wire =>
                  rw [hcached] at hudp htcp
                  rcases @sendTailored_udp W env c message query wire with hlarge | hsame
                  · exact Or.inr (Or.inr ⟨message, query, rfl, hquestion, hudp.trans hlarge⟩)
                  · exact Or.inl (hudp.trans (hsame.trans htcp.symm))
              | none =>
                  rw [hcached] at hudp htcp
                  rcases @missOutcome_udp W env c message query with hlarge | hsame
                  · exact Or.inr (Or.inr ⟨message, query, rfl, hquestion, hudp.trans hlarge⟩)
                  · exact Or.inl (hudp.trans (hsame.trans htcp.symm))
      · have hmalformed : ∀ protocol, outcome protocol = .malformed := fun protocol =>
          processDnsQuery_malformed hdecode hquestion
        simp only [hmalformed]
        exact ⟨trivial, trivial, nofun, Or.inl trivial⟩

end Calls

end Engine
end UnifiedDns
