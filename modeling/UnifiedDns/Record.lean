import UnifiedDns.Name

/-!
# Resource records and messages

The parts of `hickory_proto::rr` and `hickory_proto::op` that the resolver reads and writes.

* `RecordType`, `DnsClass` — open enumerations over their 16-bit codes.
* `RData` — the RDATA forms some function looks into; every other type is kept as its octets, and a
  record that arrived with an empty RDATA keeps only its type (`update0`).
* `Record` — equality ignores the TTL, as the library's does.
* `Message` — header, question and the three sections.
-/

namespace UnifiedDns

/-- A record type by its number.  `RecordType::Unknown(n)` is the type numbered `n`. -/
structure RecordType where
  code : UInt16
deriving DecidableEq, Repr

namespace RecordType

def A : RecordType := ⟨1⟩
def NS : RecordType := ⟨2⟩
def CNAME : RecordType := ⟨5⟩
def SOA : RecordType := ⟨6⟩
def AAAA : RecordType := ⟨28⟩
def OPT : RecordType := ⟨41⟩
def DS : RecordType := ⟨43⟩
def RRSIG : RecordType := ⟨46⟩
def NSEC : RecordType := ⟨47⟩
def DNSKEY : RecordType := ⟨48⟩
def NSEC3 : RecordType := ⟨50⟩
def ANY : RecordType := ⟨255⟩

end RecordType

/-- `recursor::DNAME_RECORD_TYPE`: the library has no name for type 39. -/
def dnameRecordType : RecordType := ⟨39⟩

/-- A class by its number. -/
structure DnsClass where
  code : UInt16
deriving DecidableEq, Repr

def DnsClass.IN : DnsClass := ⟨1⟩

/-- An IPv4 address by its octets. -/
structure Ipv4Addr where
  o0 : Byte
  o1 : Byte
  o2 : Byte
  o3 : Byte
deriving DecidableEq, Repr

/-- An IPv6 address by its segments. -/
structure Ipv6Addr where
  s0 : BitVec 16
  s1 : BitVec 16
  s2 : BitVec 16
  s3 : BitVec 16
  s4 : BitVec 16
  s5 : BitVec 16
  s6 : BitVec 16
  s7 : BitVec 16
deriving DecidableEq, Repr

inductive IpAddr
  | v4 (addr : Ipv4Addr)
  | v6 (addr : Ipv6Addr)
deriving DecidableEq, Repr

/-- RRSIG RDATA.  The two times are 32-bit serial numbers. -/
structure RRSIG where
  typeCovered : RecordType
  algorithm : Byte
  numLabels : Byte
  originalTtl : BitVec 32
  sigExpiration : BitVec 32
  sigInception : BitVec 32
  keyTag : UInt16
  signerName : Name
  sig : List Byte
deriving BEq

/-- DNSKEY RDATA; the protocol octet is always 3. -/
structure DNSKEY where
  flags : BitVec 16
  algorithm : Byte
  publicKey : List Byte
deriving DecidableEq

/-- DS RDATA. -/
structure DS where
  keyTag : UInt16
  algorithm : Byte
  digestType : Byte
  digest : List Byte
deriving DecidableEq

/-- NSEC RDATA. -/
structure NSEC where
  nextDomainName : Name
  typeBitMaps : List RecordType
deriving BEq

/-- NSEC3 RDATA. -/
structure NSEC3 where
  hashAlgorithm : Byte
  flags : BitVec 8
  iterations : Nat
  salt : List Byte
  nextHashedOwnerName : List Byte
  typeBitMaps : List RecordType
deriving DecidableEq

inductive RData
  | a (addr : Ipv4Addr)
  | aaaa (addr : Ipv6Addr)
  | cname (target : Name)
  | ns (nsdname : Name)
  | soa (octets : List Byte)
  | ds (ds : DS)
  | dnskey (key : DNSKEY)
  | rrsig (sig : RRSIG)
  | nsec (nsec : NSEC)
  | nsec3 (nsec3 : NSEC3)
  | update0 (rtype : RecordType)
  | other (rtype : RecordType) (octets : List Byte)
deriving BEq

/-- `RData::record_type`. -/
def RData.recordType : RData → RecordType
  | .a _ => .A
  | .aaaa _ => .AAAA
  | .cname _ => .CNAME
  | .ns _ => .NS
  | .soa _ => .SOA
  | .ds _ => .DS
  | .dnskey _ => .DNSKEY
  | .rrsig _ => .RRSIG
  | .nsec _ => .NSEC
  | .nsec3 _ => .NSEC3
  | .update0 rtype => rtype
  | .other rtype _ => rtype

/-- The RDATA with its names in lower case. -/
def RData.folded : RData → RData
  | .cname target => .cname target.toLowercase
  | .ns nsdname => .ns nsdname.toLowercase
  | .rrsig sig => .rrsig { sig with signerName := sig.signerName.toLowercase }
  | .nsec proof => .nsec { proof with nextDomainName := proof.nextDomainName.toLowercase }
  | data => data

theorem RRSIG.fold_of_beq {a b : RRSIG} (h : (a == b) = true) :
    { a with signerName := a.signerName.toLowercase } =
      ({ b with signerName := b.signerName.toLowercase } : RRSIG) := by
  obtain ⟨⟩ := a
  obtain ⟨⟩ := b
  change instBEqRRSIG.beq _ _ = true at h
  simp only [instBEqRRSIG.beq, Bool.and_eq_true, beq_iff_eq, Name.beq_iff_path] at h
  simp only [RRSIG.mk.injEq]
  exact ⟨h.1, h.2.1, h.2.2.1, h.2.2.2.1, h.2.2.2.2.1, h.2.2.2.2.2.1, h.2.2.2.2.2.2.1,
    Name.toLowercase_congr h.2.2.2.2.2.2.2.1, h.2.2.2.2.2.2.2.2⟩

theorem NSEC.fold_of_beq {a b : NSEC} (h : (a == b) = true) :
    { a with nextDomainName := a.nextDomainName.toLowercase } =
      ({ b with nextDomainName := b.nextDomainName.toLowercase } : NSEC) := by
  obtain ⟨⟩ := a
  obtain ⟨⟩ := b
  change instBEqNSEC.beq _ _ = true at h
  simp only [instBEqNSEC.beq, Bool.and_eq_true, beq_iff_eq, Name.beq_iff_path] at h
  rw [NSEC.mk.injEq]
  exact ⟨Name.toLowercase_congr h.1, h.2⟩

/-- RDATA that are equal for the library differ in the case of their names at most. -/
theorem RData.folded_of_beq {a b : RData} (h : (a == b) = true) : a.folded = b.folded := by
  cases a <;> cases b <;> try (exact absurd h Bool.false_ne_true)
  case cname.cname a b => exact congrArg RData.cname (Name.toLowercase_congr (Name.beq_iff_path.mp h))
  case ns.ns a b => exact congrArg RData.ns (Name.toLowercase_congr (Name.beq_iff_path.mp h))
  case rrsig.rrsig a b => exact congrArg RData.rrsig (RRSIG.fold_of_beq h)
  case nsec.nsec a b => exact congrArg RData.nsec (NSEC.fold_of_beq h)
  case other.other =>
    have hboth := Bool.and_eq_true_iff.mp h
    rw [eq_of_beq hboth.1, eq_of_beq hboth.2]
  all_goals
    rename_i x y
    have heq : x = y := eq_of_beq h
    rw [heq]

@[simp] theorem RData.recordType_folded (data : RData) : data.folded.recordType = data.recordType := by
  cases data <;> rfl

/-- RDATA that differ from a CNAME in case only are a CNAME to the same name. -/
theorem RData.eq_cname_of_folded {data : RData} {target : Name}
    (h : data.folded = (RData.cname target).folded) :
    ∃ target', data = .cname target' ∧ target'.path = target.path := by
  cases data <;> try cases h
  case cname target' =>
    have hlower : target'.toLowercase = target.toLowercase := RData.cname.inj h
    refine ⟨target', rfl, ?_⟩
    rw [← Name.path_toLowercase, hlower, Name.path_toLowercase]

/-- A resource record.  Times to live are 32-bit in the source and never overflow where they are
used. -/
structure Record where
  name : Name
  dnsClass : DnsClass
  ttl : Nat
  data : RData

namespace Record

/-- `Record: PartialEq`: the TTL does not count. -/
instance : BEq Record :=
  ⟨fun a b => a.name == b.name && decide (a.dnsClass = b.dnsClass) && a.data == b.data⟩

/-- `Record::record_type`. -/
def recordType (r : Record) : RecordType := r.data.recordType

/-- `matches!(r.data(), RData::SOA(_))`. -/
def isSoa (r : Record) : Bool :=
  match r.data with
  | .soa _ => true
  | _ => false

/-- The signature an RRSIG record holds. -/
def rrsig? (r : Record) : Option RRSIG :=
  match r.data with
  | .rrsig sig => some sig
  | _ => none

def nsec? (r : Record) : Option NSEC :=
  match r.data with
  | .nsec nsec => some nsec
  | _ => none

def nsec3? (r : Record) : Option NSEC3 :=
  match r.data with
  | .nsec3 nsec3 => some nsec3
  | _ => none

def ds? (r : Record) : Option DS :=
  match r.data with
  | .ds ds => some ds
  | _ => none

def dnskey? (r : Record) : Option DNSKEY :=
  match r.data with
  | .dnskey key => some key
  | _ => none

def cname? (r : Record) : Option Name :=
  match r.data with
  | .cname target => some target
  | _ => none

end Record

/-- The records of `records` with this owner and type: an RRset of the section. -/
def rrset (records : List Record) (owner : Name) (rtype : RecordType) : List Record :=
  records.filter fun r => r.name == owner && decide (r.recordType = rtype)

/-- The signatures in `records` that stand at `owner` and cover `rtype`. -/
def coveringRrsigs (records : List Record) (owner : Name) (rtype : RecordType) : List RRSIG :=
  records.filterMap fun r =>
    match r.data with
    | .rrsig sig => if sig.typeCovered = rtype && r.name == owner then some sig else none
    | _ => none

theorem mem_rrset {records : List Record} {owner : Name} {rtype : RecordType} {r : Record} :
    r ∈ rrset records owner rtype ↔
      r ∈ records ∧ r.name.path = owner.path ∧ r.recordType = rtype := by
  simp [rrset, Name.beq_iff_path]

theorem mem_coveringRrsigs {records : List Record} {owner : Name} {rtype : RecordType}
    {sig : RRSIG} :
    sig ∈ coveringRrsigs records owner rtype ↔
      ∃ r ∈ records, r.data = .rrsig sig ∧ sig.typeCovered = rtype ∧
        r.name.path = owner.path := by
  simp only [coveringRrsigs, List.mem_filterMap]
  constructor
  · rintro ⟨r, hr, hsome⟩
    split at hsome
    · rename_i sig' hdata
      split at hsome
      · rename_i hcond
        cases hsome
        simp only [Bool.and_eq_true, decide_eq_true_eq, Name.beq_iff_path] at hcond
        exact ⟨r, hr, hdata, hcond.1, hcond.2⟩
      · cases hsome
    · cases hsome
  · rintro ⟨r, hr, hdata, htype, hname⟩
    refine ⟨r, hr, ?_⟩
    simp [hdata, htype, Name.beq_iff_path, hname]

inductive ResponseCode
  | noError
  | formErr
  | servFail
  | nxDomain
  | yxDomain
  | other (code : Nat)
deriving DecidableEq, Repr

inductive MessageType
  | query
  | response
deriving DecidableEq, Repr

/-- An operation code by its number; `OpCode::Query` is 0. -/
structure OpCode where
  code : Byte
deriving DecidableEq, Repr

def OpCode.query : OpCode := ⟨0⟩

structure Query where
  name : Name
  queryType : RecordType
  queryClass : DnsClass

/-- The EDNS fields the resolver reads or writes. -/
structure Edns where
  maxPayload : Nat
  dnssecOk : Bool
  version : Nat
deriving DecidableEq, Repr

structure Message where
  id : UInt16
  messageType : MessageType
  opCode : OpCode
  authoritative : Bool
  truncated : Bool
  recursionDesired : Bool
  recursionAvailable : Bool
  authenticData : Bool
  checkingDisabled : Bool
  responseCode : ResponseCode
  queries : List Query
  answers : List Record
  nameServers : List Record
  additionals : List Record
  edns : Option Edns

/-- `calculate_min_ttl`: the least time to live of a message, capped at a day; 300 for a message
without records. -/
def calculateMinTtl (msg : Message) : Nat :=
  let minTtl := (msg.answers ++ msg.nameServers ++ msg.additionals).foldl
    (fun acc r => min acc r.ttl) 4294967295
  if minTtl = 4294967295 then 300 else min minTtl 86400

theorem foldl_min_ttl_le_iff (records : List Record) (start bound : Nat) :
    records.foldl (fun acc r => min acc r.ttl) start ≤ bound ↔
      start ≤ bound ∨ ∃ r ∈ records, r.ttl ≤ bound := by
  induction records generalizing start with
  | nil => simp
  | cons rec rest ih =>
      rw [List.foldl_cons, ih, List.exists_mem_cons_iff, ← or_assoc]
      exact or_congr_left (by omega)

/-- The lifetime of a message is at most `bound` when some record's is, or the cap, or the default of a
message in which every TTL is the largest one. -/
theorem calculateMinTtl_le_iff (msg : Message) (bound : Nat) :
    calculateMinTtl msg ≤ bound ↔
      (∃ r ∈ msg.answers ++ msg.nameServers ++ msg.additionals, r.ttl ≤ bound) ∨ 86400 ≤ bound ∨
        300 ≤ bound ∧
          ∀ r ∈ msg.answers ++ msg.nameServers ++ msg.additionals, 4294967295 ≤ r.ttl := by
  have hbound := foldl_min_ttl_le_iff (msg.answers ++ msg.nameServers ++ msg.additionals) 4294967295
    bound
  have hmax := foldl_min_ttl_le_iff (msg.answers ++ msg.nameServers ++ msg.additionals) 4294967295
    4294967294
  have hcap := (foldl_min_ttl_le_iff (msg.answers ++ msg.nameServers ++ msg.additionals) 4294967295
    4294967295).mpr (Or.inl le_rfl)
  simp only [calculateMinTtl]
  split
  · rename_i heq
    rw [heq] at hmax hbound
    have hall : ∀ r ∈ msg.answers ++ msg.nameServers ++ msg.additionals, 4294967295 ≤ r.ttl := by
      intro r hr
      by_contra hlt
      have hle := hmax.mpr (Or.inr ⟨r, hr, by omega⟩)
      omega
    constructor
    · exact fun h => Or.inr (Or.inr ⟨h, hall⟩)
    · rintro (⟨r, hr, hle⟩ | hle | ⟨hle, -⟩)
      · have hr := hall r hr
        omega
      · omega
      · exact hle
  · rename_i hne
    rw [show ∀ x, min x 86400 ≤ bound ↔ x ≤ bound ∨ 86400 ≤ bound by omega, hbound]
    constructor
    · rintro ((hle | hex) | hle)
      · exact Or.inr (Or.inl (by omega))
      · exact Or.inl hex
      · exact Or.inr (Or.inl hle)
    · rintro (hex | hle | ⟨-, hall⟩)
      · exact Or.inl (Or.inr hex)
      · exact Or.inr hle
      · obtain ⟨r, hr, hle⟩ := (hmax.mp (by omega)).resolve_left (by omega)
        have hr := hall r hr
        omega

/-- No record outlives the lifetime of its message. -/
theorem calculateMinTtl_le {msg : Message} {r : Record}
    (hr : r ∈ msg.answers ++ msg.nameServers ++ msg.additionals) : calculateMinTtl msg ≤ r.ttl :=
  (calculateMinTtl_le_iff msg r.ttl).mpr (Or.inl ⟨r, hr, le_rfl⟩)

/-- `Message::new`. -/
def Message.new : Message where
  id := 0
  messageType := .query
  opCode := .query
  authoritative := false
  truncated := false
  recursionDesired := false
  recursionAvailable := false
  authenticData := false
  checkingDisabled := false
  responseCode := .noError
  queries := []
  answers := []
  nameServers := []
  additionals := []
  edns := none

end UnifiedDns
