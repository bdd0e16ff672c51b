import UnifiedDns.Engine.TokenBucket
import UnifiedDns.Lib.Unwinding
import UnifiedDns.Recursor.Upstream

/-!
# Whether networks share a bucket

`check_query` keeps one token bucket for each value of `to_subnet`.  Traffic of one network should not
use up the tokens of another, so distinct networks need distinct buckets.  `to_subnet` takes an address
as it comes, while `acl.rs` first turns the IPv4-mapped form of an IPv6 address into the IPv4 address.

* `clientNetwork` — the network of a client after `normalize_ip`.
* `toSubnet_eq_iff` — two networks share a bucket exactly within `::/64`, where the mapped form lies.
* `tokenDecision`, `tokenDecisions` — what the bucket says to the queries of a run.
* `subnet_isolation` — without such a meeting the queries of other networks make no difference.
-/

namespace UnifiedDns
namespace Engine

open Recursor (mappedIpv4)

/-- `acl::normalize_ip`. -/
def normalizeIp : IpAddr → IpAddr
  | .v4 a => .v4 a
  | .v6 a =>
      if a.s0 = 0 ∧ a.s1 = 0 ∧ a.s2 = 0 ∧ a.s3 = 0 ∧ a.s4 = 0 ∧ a.s5 = 0xffff then
        .v4 (mappedIpv4 a)
      else .v6 a

/-- The network of a client: an IPv4 /24, also for the mapped form, or an IPv6 /64. -/
def clientNetwork (clientIp : IpAddr) : IpAddr := toSubnet (normalizeIp clientIp)

/-- The address lies in `::/64`. -/
def InZeroBlock : IpAddr → Prop
  | .v4 _ => False
  | .v6 a => a.s0 = 0 ∧ a.s1 = 0 ∧ a.s2 = 0 ∧ a.s3 = 0

/-- Outside of `::/64` the bucket stands for the network. -/
theorem clientNetwork_of_not_inZeroBlock {clientIp : IpAddr} (h : ¬ InZeroBlock clientIp) :
    clientNetwork clientIp = toSubnet clientIp := by
  cases clientIp with
  | v4 a => rfl
  | v6 a =>
      have hnot : ¬ (a.s0 = 0 ∧ a.s1 = 0 ∧ a.s2 = 0 ∧ a.s3 = 0 ∧ a.s4 = 0 ∧ a.s5 = 0xffff) :=
        fun hmapped => h ⟨hmapped.1, hmapped.2.1, hmapped.2.2.1, hmapped.2.2.2.1⟩
      rw [clientNetwork, normalizeIp, if_neg hnot]

theorem toSubnet_of_inZeroBlock {clientIp : IpAddr} (h : InZeroBlock clientIp) :
    toSubnet clientIp = .v6 ⟨0, 0, 0, 0, 0, 0, 0, 0⟩ := by
  cases clientIp with
  | v4 a => exact h.elim
  | v6 a =>
      obtain ⟨h0, h1, h2, h3⟩ := h
      simp only [toSubnet, h0, h1, h2, h3]

theorem inZeroBlock_of_toSubnet {clientIp : IpAddr}
    (h : toSubnet clientIp = .v6 ⟨0, 0, 0, 0, 0, 0, 0, 0⟩) : InZeroBlock clientIp := by
  cases clientIp with
  | v4 a => cases h
  | v6 a =>
      simp only [toSubnet, IpAddr.v6.injEq, Ipv6Addr.mk.injEq] at h
      exact ⟨h.1, h.2.1, h.2.2.1, h.2.2.2.1⟩

/-- Clients of different networks come to one bucket exactly when both are in `::/64`. -/
theorem toSubnet_eq_iff {a b : IpAddr} (hnetworks : clientNetwork a ≠ clientNetwork b) :
    toSubnet a = toSubnet b ↔ InZeroBlock a ∧ InZeroBlock b := by
  constructor
  · intro h
    have hsame : InZeroBlock a ↔ InZeroBlock b :=
      ⟨fun ha => inZeroBlock_of_toSubnet (h ▸ toSubnet_of_inZeroBlock ha),
        fun hb => inZeroBlock_of_toSubnet (h ▸ toSubnet_of_inZeroBlock hb)⟩
    by_cases ha : InZeroBlock a
    · exact ⟨ha, hsame.mp ha⟩
    · refine absurd ?_ hnetworks
      rw [clientNetwork_of_not_inZeroBlock ha,
        clientNetwork_of_not_inZeroBlock (fun hb => ha (hsame.mpr hb)), h]
  · rintro ⟨ha, hb⟩
    rw [toSubnet_of_inZeroBlock ha, toSubnet_of_inZeroBlock hb]

/-! ### The decisions of a run -/

/-- The address of a query that asks for a token. -/
def LimiterEvent.client? : LimiterEvent → Option IpAddr
  | .query _ protocol clientIp _ qtype =>
      if isLoopback clientIp || (decide (protocol = .udp) && decide (qtype = .ANY)) then none
      else some clientIp
  | .cleanup _ _ => none

/-- The queries of the network, and the cleanup passes. -/
def LimiterEvent.concerns (net : IpAddr) : LimiterEvent → Bool
  | .query _ _ clientIp _ _ => decide (clientNetwork clientIp = net)
  | .cleanup _ _ => true

/-- What the token bucket says to a query that asks for a token. -/
def tokenDecision (config : LimiterConfig) (limiter : RateLimiter) (event : LimiterEvent) :
    Option Bool :=
  event.client?.map fun clientIp =>
    ((bucketAt config event.time (limiter.subnetBuckets (toSubnet clientIp))).spend config
      event.time).1

/-- A query that gets no token is dropped; one that gets it is allowed, except that over UDP the
duplicate policy comes next. -/
theorem checkQuery_tokenDecision (config : LimiterConfig) (nowMillis : Nat) (protocol : Protocol)
    (clientIp : IpAddr) (qname : Name) (qtype : RecordType) (limiter : RateLimiter) :
    (tokenDecision config limiter (.query nowMillis protocol clientIp qname qtype) = some false →
      (checkQuery config nowMillis protocol clientIp qname qtype limiter).1 = .drop) ∧
    (tokenDecision config limiter (.query nowMillis protocol clientIp qname qtype) = some true →
      protocol ≠ .udp →
      (checkQuery config nowMillis protocol clientIp qname qtype limiter).1 = .allow) := by
  by_cases hloopback : isLoopback clientIp = true
  · simp [tokenDecision, LimiterEvent.client?, hloopback]
  · by_cases hany : protocol = .udp ∧ qtype = .ANY
    · simp [tokenDecision, LimiterEvent.client?, hany]
    · have hclient : LimiterEvent.client? (.query nowMillis protocol clientIp qname qtype) =
          some clientIp := by
        have hcond : (isLoopback clientIp ||
            (decide (protocol = .udp) && decide (qtype = .ANY))) = false := by
          rw [Bool.or_eq_false_iff]
          exact ⟨by simpa using hloopback, by simpa using hany⟩
        rw [LimiterEvent.client?, hcond]
        rfl
      rw [checkQuery_counted config nowMillis protocol clientIp qname qtype limiter hloopback hany]
      simp only [tokenDecision, hclient, Option.map_some, Option.some.injEq, LimiterEvent.time]
      constructor
      · intro hdenied
        rw [if_pos hdenied]
      · intro hgranted hprotocol
        rw [if_neg (by simp [hgranted]), if_pos hprotocol]

/-- The decisions on the queries of a network, in the order of the run; a cleanup pass shows nothing. -/
def tokenDecisions (config : LimiterConfig) (net : IpAddr) (limiter : RateLimiter)
    (events : List LimiterEvent) : List (Option Bool) :=
  observations (limiterStep config) (tokenDecision config) (LimiterEvent.concerns net) limiter events

/-- The clients of a run that ask for tokens. -/
def clients (events : List LimiterEvent) : List IpAddr := events.filterMap LimiterEvent.client?

/-- No client of the network meets one of another network in `::/64`. -/
def Separated (net : IpAddr) (events : List LimiterEvent) : Prop :=
  ∀ own ∈ clients events, ∀ foreign ∈ clients events, clientNetwork own = net →
    clientNetwork foreign ≠ net → ¬ (InZeroBlock own ∧ InZeroBlock foreign)

/-- Only a client that comes to it pays a query's visit to a bucket. -/
theorem visit_of_query {nowMillis : Nat} {protocol : Protocol} {clientIp key : IpAddr} {qname : Name}
    {qtype : RecordType}
    (h : LimiterEvent.client? (.query nowMillis protocol clientIp qname qtype) = some clientIp →
      toSubnet clientIp ≠ key) :
    LimiterEvent.visit key (.query nowMillis protocol clientIp qname qtype) = none := by
  refine if_neg fun hcomes => ?_
  simp only [comesTo, Bool.and_eq_true, Bool.not_eq_true', decide_eq_true_eq] at hcomes
  obtain ⟨⟨hloopback, hany⟩, hkey⟩ := hcomes
  refine h ?_ hkey
  rw [LimiterEvent.client?, hloopback, hany]
  rfl

/-- The limiters agree on the buckets of these clients. -/
def AgreeOn (own : IpAddr → Prop) (s t : RateLimiter) : Prop :=
  ∀ client, own client → s.subnetBuckets (toSubnet client) = t.subnetBuckets (toSubnet client)

/-- The client of an event is one of these clients if it is of the network, and keeps off their buckets
if it is not. -/
def KeepsOff (net : IpAddr) (own : IpAddr → Prop) (event : LimiterEvent) : Prop :=
  ∀ client, event.client? = some client →
    (clientNetwork client = net → own client) ∧
    (clientNetwork client ≠ net → ∀ other, own other → toSubnet client ≠ toSubnet other)

theorem client?_eq_some {nowMillis : Nat} {protocol : Protocol} {clientIp client : IpAddr}
    {qname : Name} {qtype : RecordType}
    (h : LimiterEvent.client? (.query nowMillis protocol clientIp qname qtype) = some client) :
    client = clientIp := by
  rw [LimiterEvent.client?] at h
  split at h
  · cases h
  · cases h
    rfl

theorem agreeOn_unwinding (config : LimiterConfig) (net : IpAddr) (own : IpAddr → Prop) :
    Unwinding (limiterStep config) (tokenDecision config) (LimiterEvent.concerns net)
      (KeepsOff net own) (AgreeOn own) where
  output_eq := by
    intro s t event hagree hevent hvisible
    cases hclient : event.client? with
    | none => rw [tokenDecision, tokenDecision, hclient]; rfl
    | some client =>
        have hown : own client := by
          cases event with
          | query nowMillis protocol clientIp qname qtype =>
              refine (hevent client hclient).1 ?_
              rw [client?_eq_some hclient]
              simpa [LimiterEvent.concerns] using hvisible
          | cleanup nowMillis maxAgeMillis => cases hclient
        rw [tokenDecision, tokenDecision, hclient, Option.map_some, Option.map_some,
          hagree client hown]
  consistent := by
    intro s t event hagree _ _ client hown
    rw [limiterStep_bucket, limiterStep_bucket, hagree client hown]
  respects := by
    intro s t event hagree hevent hvisible client hown
    cases event with
    | query nowMillis protocol clientIp qname qtype =>
        have hforeign : clientNetwork clientIp ≠ net := by
          simpa [LimiterEvent.concerns] using hvisible
        -- A query of another network visits another bucket.
        have hvisit := @visit_of_query nowMillis protocol clientIp (toSubnet client) qname qtype
          fun hclient => (hevent clientIp hclient).2 hforeign client hown
        rw [limiterStep_bucket, hvisit]
        exact hagree client hown
    | cleanup nowMillis maxAgeMillis => cases hvisible

theorem Separated.keepsOff {net : IpAddr} {events : List LimiterEvent} (h : Separated net events) :
    ∀ event ∈ events,
      KeepsOff net (fun client => client ∈ clients events ∧ clientNetwork client = net) event := by
  intro event hevent client hclient
  have hmem : client ∈ clients events := List.mem_filterMap.mpr ⟨event, hevent, hclient⟩
  refine ⟨fun hnet => ⟨hmem, hnet⟩, fun hforeign other hother hbucket => ?_⟩
  obtain ⟨hotherMem, hotherNet⟩ := hother
  have hnetworks : clientNetwork other ≠ clientNetwork client := by
    rw [hotherNet]
    exact Ne.symm hforeign
  exact h other hotherMem client hmem hotherNet hforeign
    ((toSubnet_eq_iff hnetworks).mp hbucket.symm)

/-- **Subnet isolation.**  Two runs with the same queries of a network and the same cleanup passes decide
alike on these queries, when in neither run the network meets another one in `::/64`. -/
theorem subnet_isolation (config : LimiterConfig) (net : IpAddr) (limiter : RateLimiter)
    {events₁ events₂ : List LimiterEvent}
    (hsame : events₁.filter (LimiterEvent.concerns net) = events₂.filter (LimiterEvent.concerns net))
    (hseparated₁ : Separated net events₁) (hseparated₂ : Separated net events₂) :
    tokenDecisions config net limiter events₁ = tokenDecisions config net limiter events₂ :=
  observations_eq (agreeOn_unwinding config net _) (agreeOn_unwinding config net _)
    hseparated₁.keepsOff hseparated₂.keepsOff hsame (fun _ _ => rfl) fun _ _ => rfl

/-- A query over TCP. -/
def queryFrom (nowMillis : Nat) (clientIp : IpAddr) : LimiterEvent :=
  .query nowMillis .tcp clientIp .root .A

/-- The IPv4-mapped form of an address whose octets are given in two segments. -/
def mappedClient (high low : BitVec 16) : IpAddr := .v6 ⟨0, 0, 0, 0, 0, 0xffff, high, low⟩

/-- Two queries of 198.51.100.7 in between leave the mapped client 192.0.2.1 alone. -/
theorem subnet_isolation_separated :
    tokenDecisions slowLimiter (.v4 ⟨192, 0, 2, 0⟩) .new
        [tcpQuery 0, queryFrom 0 (mappedClient 0xc000 0x0201), tcpQuery 0] =
      tokenDecisions slowLimiter (.v4 ⟨192, 0, 2, 0⟩) .new
        [queryFrom 0 (mappedClient 0xc000 0x0201)] := by
  have hthem : ¬ InZeroBlock (.v4 ⟨198, 51, 100, 7⟩) := id
  refine subnet_isolation slowLimiter _ .new rfl ?_ ?_
  · intro own _ foreign hforeign _ hnet hzero
    have hclients : clients [tcpQuery 0, queryFrom 0 (mappedClient 0xc000 0x0201), tcpQuery 0] =
        [.v4 ⟨198, 51, 100, 7⟩, mappedClient 0xc000 0x0201, .v4 ⟨198, 51, 100, 7⟩] := by decide
    rw [hclients] at hforeign
    simp only [List.mem_cons, List.not_mem_nil, or_false] at hforeign
    rcases hforeign with rfl | rfl | rfl
    · exact hthem hzero.2
    · exact hnet (by decide)
    · exact hthem hzero.2
  · intro own _ foreign hforeign _ hnet _
    have hclients : clients [queryFrom 0 (mappedClient 0xc000 0x0201)] =
        [mappedClient 0xc000 0x0201] := by decide
    rw [hclients, List.mem_singleton] at hforeign
    exact hnet (by rw [hforeign]; decide)

/-- Two mapped clients of 198.51.100.0/24 use up the tokens of a mapped client of 192.0.2.0/24. -/
theorem mapped_networks_interfere :
    ¬ ∀ (config : LimiterConfig) (net : IpAddr) (events₁ events₂ : List LimiterEvent),
      events₁.filter (LimiterEvent.concerns net) = events₂.filter (LimiterEvent.concerns net) →
        tokenDecisions config net .new events₁ = tokenDecisions config net .new events₂ := by
  intro hclaim
  have hdecisions := hclaim slowLimiter (.v4 ⟨192, 0, 2, 0⟩)
    [queryFrom 0 (mappedClient 0xc633 0x6401), queryFrom 0 (mappedClient 0xc633 0x6402),
      queryFrom 0 (mappedClient 0xc000 0x0201)]
    [queryFrom 0 (mappedClient 0xc000 0x0201)] rfl
  revert hdecisions
  decide

end Engine
end UnifiedDns
