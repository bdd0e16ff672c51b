import UnifiedDns.Record

/-!
# Upstream addresses and responses

The pure helpers of `recursor.rs`.

* `isSafeUpstreamIp`, `filterSafeIps` — the addresses the resolver is willing to contact.
* `rootServers` — the built-in root servers.
* `mergeRedirectionResponse` — the response to an alias, put together from its hop and its target.
* `delegationTtl` — how long a delegation is remembered.
-/

namespace UnifiedDns
namespace Recursor

inductive RecursorError
  | depthExceeded
  | stepLimitExceeded
  | allNameserversFailed
  | glueResolutionFailed
  | noProgress
deriving DecidableEq, Repr

/-- `MAX_DEPTH`. -/
def maxDepth : Nat := 16

/-- `MAX_STEPS`. -/
def maxSteps : Nat := 16

/-- `MIN_DELEGATION_TTL`. -/
def minDelegationTtl : Nat := 300

/-- `MAX_DELEGATION_TTL`. -/
def maxDelegationTtl : Nat := 172800

def ip4 (o0 o1 o2 o3 : Byte) : IpAddr := .v4 ⟨o0, o1, o2, o3⟩

/-- `ROOT_SERVERS`, parsed. -/
def rootServers : List IpAddr :=
  [ip4 198 41 0 4, ip4 199 9 14 201, ip4 192 33 4 12, ip4 199 7 91 13, ip4 192 203 230 10,
    ip4 192 5 5 241, ip4 192 112 36 4, ip4 198 97 190 53, ip4 192 36 148 17, ip4 192 58 128 30,
    ip4 193 0 14 129, ip4 199 7 83 42, ip4 202 12 27 33]

/-- `Ipv4Addr::is_private`. -/
def isPrivate (a : Ipv4Addr) : Bool :=
  decide (a.o0 = 10) || (decide (a.o0 = 172) && decide (a.o1.val / 16 = 1)) ||
    (decide (a.o0 = 192) && decide (a.o1 = 168))

/-- `Ipv4Addr::is_documentation`. -/
def isDocumentation (a : Ipv4Addr) : Bool :=
  (decide (a.o0 = 192) && decide (a.o1 = 0) && decide (a.o2 = 2)) ||
    (decide (a.o0 = 198) && decide (a.o1 = 51) && decide (a.o2 = 100)) ||
    (decide (a.o0 = 203) && decide (a.o1 = 0) && decide (a.o2 = 113))

/-- The IPv4 half of `is_safe_upstream_ip`: private, loopback, link-local, broadcast, documentation,
unspecified, multicast, shared, benchmarking and "this network" addresses are refused. -/
def isSafeIpv4 (a : Ipv4Addr) : Bool :=
  if isPrivate a || decide (a.o0 = 127) || (decide (a.o0 = 169) && decide (a.o1 = 254)) ||
      decide (a = ⟨255, 255, 255, 255⟩) || isDocumentation a || decide (a = ⟨0, 0, 0, 0⟩) ||
      decide (a.o0.val / 16 = 14) then false
  else if decide (a.o0 = 100) && decide (a.o1.val / 64 = 1) then false
  else if decide (a.o0 = 198) && (decide (a.o1 = 18) || decide (a.o1 = 19)) then false
  else if a.o0 = 0 then false
  else true

/-- The IPv4 address in the last two segments. -/
def mappedIpv4 (a : Ipv6Addr) : Ipv4Addr :=
  ⟨Fin.ofNat 256 (a.s6.toNat / 256), Fin.ofNat 256 a.s6.toNat,
    Fin.ofNat 256 (a.s7.toNat / 256), Fin.ofNat 256 a.s7.toNat⟩

/-- `is_safe_upstream_ip`. -/
def isSafeUpstreamIp : IpAddr → Bool
  | .v4 a => isSafeIpv4 a
  | .v6 a =>
      if decide (a = ⟨0, 0, 0, 0, 0, 0, 0, 1⟩) || decide (a = ⟨0, 0, 0, 0, 0, 0, 0, 0⟩) ||
          decide (a.s0 &&& 0xff00 = 0xff00) then false
      else if a.s0 &&& 0xfe00 = 0xfc00 then false
      else if a.s0 &&& 0xffc0 = 0xfe80 then false
      else if a.s0 = 0 ∧ a.s1 = 0 ∧ a.s2 = 0 ∧ a.s3 = 0 ∧ a.s4 = 0 ∧ a.s5 = 0xffff then
        isSafeIpv4 (mappedIpv4 a)
      else true

/-- `filter_safe_ips`. -/
def filterSafeIps (ips : List IpAddr) : List IpAddr := ips.filter isSafeUpstreamIp

/-- The address of an A or AAAA record. -/
def addressOf (rec : Record) : Option IpAddr :=
  match rec.data with
  | .a addr => some (.v4 addr)
  | .aaaa addr => some (.v6 addr)
  | _ => none

/-- Push the record unless an equal one is there. -/
def pushNew (records : List Record) (rec : Record) : List Record :=
  if records.any (· == rec) then records else records ++ [rec]

theorem foldl_pushNew (new records : List Record) :
    ∃ added, new.foldl pushNew records = records ++ added ∧ ∀ r ∈ added, r ∈ new := by
  induction new generalizing records with
  | nil => exact ⟨[], by simp⟩
  | cons rec rest ih =>
      obtain ⟨added, hadded, hmem⟩ := ih (pushNew records rec)
      rw [List.foldl_cons, hadded, pushNew]
      split
      · exact ⟨added, rfl, fun r hr => List.mem_cons_of_mem _ (hmem r hr)⟩
      · refine ⟨rec :: added, by simp, fun r hr => ?_⟩
        rcases List.mem_cons.mp hr with rfl | htail
        · exact List.mem_cons_self
        · exact List.mem_cons_of_mem _ (hmem r htail)

/-- A record of a hop's authority section that is kept: the proofs. -/
def isProofRecord (rec : Record) : Bool :=
  [RecordType.NSEC, .NSEC3, .RRSIG].any fun t => decide (rec.recordType = t)

/-- A record of a hop's additional section that is kept. -/
def isKeyRecord (rec : Record) : Bool :=
  [RecordType.RRSIG, .DNSKEY].any fun t => decide (rec.recordType = t)

/-- `merge_redirection_response`. -/
def mergeRedirectionResponse (origName : Name) (origType : RecordType)
    (firstHopMsg finalMsg : Message) : Message where
  id := finalMsg.id
  messageType := .response
  opCode := finalMsg.opCode
  authoritative := finalMsg.authoritative
  truncated := finalMsg.truncated
  recursionDesired := finalMsg.recursionDesired
  recursionAvailable := finalMsg.recursionAvailable
  authenticData := finalMsg.authenticData
  checkingDisabled := finalMsg.checkingDisabled
  responseCode := finalMsg.responseCode
  queries := [⟨origName, origType, .IN⟩]
  answers := finalMsg.answers.foldl pushNew firstHopMsg.answers
  nameServers := (firstHopMsg.nameServers.filter isProofRecord).foldl pushNew finalMsg.nameServers
  additionals := (firstHopMsg.additionals.filter isKeyRecord).foldl pushNew
    (finalMsg.additionals.filter fun r => decide (r.recordType ≠ .OPT))
  edns := finalMsg.edns

/-- `delegation_ttl`. -/
def delegationTtl (msg : Message) : Nat :=
  let minTtl := (msg.nameServers ++ msg.additionals).foldl (fun acc r => min acc r.ttl) 4294967295
  if minTtl = 4294967295 then minDelegationTtl else min minTtl maxDelegationTtl

end Recursor
end UnifiedDns
