import UnifiedDns.Dnssec.Nsec
import UnifiedDns.Lib.SerialNumber
import UnifiedDns.Platform

/-!
# Cache entries and client responses

The pure parts of `cache.rs` and `engine.rs`.

* `CacheEntry`, `freshnessAt` — an entry and its age classes.
* `calculateCacheTtl` — the lifetime of a `secure` message is bounded by its signatures.
* `cacheKey` — the key of an entry.
* `canonicalResponse`, `prewarmResponse` — the header of a message as the writers of the cache leave it.
* `constructClientResponse` — a response for one client, made of a cached or a fresh message.
-/

namespace UnifiedDns
namespace Engine

open Dnssec (DnssecStatus)

inductive CacheFreshness
  | fresh
  | stale
  | expired
deriving DecidableEq, Repr

/-- A cache entry; `W` stands for the octets of a message. -/
structure CacheEntry (W : Type) where
  rawWire : W
  minTtl : Nat
  cachedAt : Nat
  lastRevalidatedAt : Nat
  dnssecStatus : DnssecStatus
  /-- A ghost: the question whose resolution created the entry. -/
  origin : Query

/-- `CacheEntry::freshness_at`; the sum saturates at 64 bits. -/
def CacheEntry.freshnessAt {W : Type} (entry : CacheEntry W) (now maxStale : Nat) :
    CacheFreshness :=
  let age := now - entry.cachedAt
  let ttl := entry.minTtl
  if age < ttl then .fresh
  else if age < min (ttl + maxStale) (2 ^ 64 - 1) then .stale
  else .expired

/-- `STALE_SERVE_TTL`. -/
def staleServeTtl : Nat := 30

/-- `is_cacheable`. -/
def isCacheable (msg : Message) : Bool :=
  decide (msg.responseCode = .noError) || decide (msg.responseCode = .nxDomain)

/-- `is_cacheable_dnssec`. -/
def isCacheableDnssec (status : DnssecStatus) : Bool :=
  decide (status = .secure) || decide (status = .insecureUnsigned)

/-- `is_dnssec_record`. -/
def isDnssecRecord (rtype : RecordType) : Bool :=
  [RecordType.RRSIG, .NSEC, .NSEC3].any fun t => decide (rtype = t)

/-- How long a signature is still good: a 32-bit serial distance, negative when it has expired. -/
def remainingValidity (sig : RRSIG) (now : Nat) : Int :=
  Serial.distance (BitVec.ofNat 32 now) sig.sigExpiration

theorem remainingValidity_lt (sig : RRSIG) (now : Nat) : remainingValidity sig now < 2 ^ 31 :=
  BitVec.toInt_lt

/-- While a signature is good, its remaining validity shrinks as time passes. -/
theorem remainingValidity_elapsed {sig : RRSIG} {cachedAt t : Nat} (hpast : cachedAt ≤ t)
    (h : ((t - cachedAt : Nat) : Int) < remainingValidity sig cachedAt) :
    remainingValidity sig t = remainingValidity sig cachedAt - (t - cachedAt : Nat) := by
  have helapsed := Serial.distance_elapsed h
  rwa [show cachedAt + (t - cachedAt) = t by omega] at helapsed

/-- The signatures of the answer and authority sections. -/
def messageRrsigs (msg : Message) : List RRSIG :=
  (msg.answers ++ msg.nameServers).filterMap Record.rrsig?

/-- The loop of `calculate_cache_ttl`: the least remaining validity, or nothing when a signature has
expired. -/
def minRrsigValidity (now : Nat) : List RRSIG → Nat → Option Nat
  | [], least => some least
  | sig :: rest, least =>
      if 0 < remainingValidity sig now then
        minRrsigValidity now rest (min least (remainingValidity sig now).toNat)
      else none

/-- `calculate_cache_ttl`. -/
def calculateCacheTtl (msg : Message) (status : DnssecStatus) (now : Nat) : Nat :=
  let ttl := calculateMinTtl msg
  if status = .secure then
    match minRrsigValidity now (messageRrsigs msg) 4294967295 with
    | none => 0
    | some least => if least ≠ 4294967295 then min ttl least else ttl
  else ttl

/-- The canonical key: name, type and the class `IN`. -/
def cacheKey (P : Platform) (name : Name) (rtype : RecordType) : Text :=
  P.lowercase (P.nameAscii name) ++ asciiText ":" ++ P.typeText rtype ++ asciiText ":IN"

/-- The header `process_dns_query` gives a resolved message. -/
def canonicalResponse (msg : Message) (status : DnssecStatus) : Message :=
  { msg with
    authenticData := decide (status = .secure)
    authoritative := false
    recursionAvailable := true }

/-- The header `preload_domains` gives a resolved message. -/
def prewarmResponse (msg : Message) (status : DnssecStatus) : Message :=
  { msg with
    id := 0
    authoritative := false
    recursionAvailable := true
    recursionDesired := false
    checkingDisabled := false
    authenticData := decide (status = .secure) }

/-- The time to live a record is served with. -/
def computeTtl (freshness : CacheFreshness) (age origTtl : Nat) : Nat :=
  match freshness with
  | .fresh => origTtl - age
  | .stale => staleServeTtl
  | .expired => 0

/-- One section of a client response. -/
def presentRecords (dnssecOk : Bool) (qtype : RecordType) (freshness : CacheFreshness) (age : Nat)
    (records : List Record) : List Record :=
  (records.filter fun r =>
    dnssecOk || !isDnssecRecord r.recordType || decide (r.recordType = qtype)).map fun r =>
      { r with ttl := computeTtl freshness age r.ttl }

/-- The payload size and the DO flag of a request. -/
def clientEdns (req : Message) : Nat × Bool :=
  match req.edns with
  | some edns => (max 512 (min edns.maxPayload 1232), edns.dnssecOk)
  | none => (512, false)

/-- The message `construct_client_response` encodes.  The age is taken modulo 32 bits. -/
def constructClientResponse (base : Message) (qtype : RecordType) (status : DnssecStatus)
    (freshness : CacheFreshness) (cachedAt : Nat) (req : Message) (maxPayload : Nat)
    (dnssecOk : Bool) (now : Nat) : Message :=
  let age := (now - cachedAt) % 2 ^ 32
  { Message.new with
    id := req.id
    messageType := .response
    opCode := req.opCode
    authoritative := false
    truncated := false
    recursionAvailable := true
    recursionDesired := req.recursionDesired
    checkingDisabled := req.checkingDisabled
    responseCode := base.responseCode
    queries := req.queries
    authenticData := decide (status = .secure) && decide (freshness = .fresh) &&
      (dnssecOk || req.authenticData) && !req.checkingDisabled
    answers := presentRecords dnssecOk qtype freshness age base.answers
    nameServers := presentRecords dnssecOk qtype freshness age base.nameServers
    additionals := presentRecords dnssecOk qtype freshness age
      (base.additionals.filter fun r => decide (r.recordType ≠ .OPT))
    edns := if req.edns.isSome then some ⟨maxPayload % 2 ^ 16, dnssecOk, 0⟩ else none }

/-- The message `make_truncated_wire` encodes. -/
def truncatedResponse (id : UInt16) (query : Query) : Message :=
  { Message.new with
    id := id
    messageType := .response
    truncated := true
    recursionAvailable := true
    authoritative := false
    queries := [query] }

/-- The message `make_servfail_wire` encodes. -/
def servfailResponse (id : UInt16) (query : Query) : Message :=
  { Message.new with
    id := id
    messageType := .response
    responseCode := .servFail
    recursionAvailable := true
    authoritative := false
    queries := [query] }

end Engine
end UnifiedDns
