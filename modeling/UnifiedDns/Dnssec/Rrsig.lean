import Mathlib.Data.List.Sort
import UnifiedDns.Platform

/-!
# Signatures over RRsets

`dnssec.rs`: the validity period of an RRSIG, the signed data of RFC 4034 section 6, key tags and
`verify_rrsig`.  The cryptographic verification itself is left to the platform.

* `rrsigTimeValid` — the RFC 1982 comparison of inception, clock and expiration.
* `buildTbs` — the RRSIG fields followed by the canonical records.
* `verifyRrsig` — a signature is accepted at a clock reading under one key.
-/

namespace UnifiedDns
namespace Dnssec

/-- `u16::to_be_bytes`. -/
def be16 (n : Nat) : List Byte := [Fin.ofNat 256 (n / 256), Fin.ofNat 256 n]

/-- `u32::to_be_bytes`. -/
def be32 (n : Nat) : List Byte := be16 (n / 65536) ++ be16 (n % 65536)

/-- A label on the wire: its length and its octets. -/
def labelWire (l : Label) : List Byte := Fin.ofNat 256 l.length :: l

/-- A name as `BinEncoder` emits it without compression, in the letter case it has. -/
def nameWire (n : Name) : List Byte := n.labels.flatMap labelWire ++ [0]

/-- DNSKEY RDATA on the wire: flags, protocol, algorithm, key. -/
def dnskeyWire (key : DNSKEY) : List Byte :=
  be16 key.flags.toNat ++ 3 :: key.algorithm :: key.publicKey

/-- `rrsig_time_valid`. -/
def rrsigTimeValid (sig : RRSIG) (now : Nat) : Bool :=
  let now32 := BitVec.ofNat 32 now
  decide (0 ≤ (now32 - sig.sigInception).toInt) &&
    decide (0 ≤ (sig.sigExpiration - now32).toInt) &&
    decide (0 < (sig.sigExpiration - sig.sigInception).toInt)

/-- The sum of the fallback branch of `compute_key_tag`: even positions count 256-fold. -/
def keyTagSum : List Byte → Nat
  | [] => 0
  | [b] => b.val * 256
  | b :: c :: rest => b.val * 256 + c.val + keyTagSum rest

/-- `compute_key_tag`.  The fallback emits the key itself, which cannot fail. -/
def computeKeyTag (P : Platform) (key : DNSKEY) : Option UInt16 :=
  match P.calculateKeyTag key with
  | some tag => some tag
  | none =>
      let ac := keyTagSum (dnskeyWire key)
      some (UInt16.ofNat (ac + ac / 65536 % 65536))

/-- `KeyTagExt::key_tag_matches`. -/
def keyTagMatches (P : Platform) (key : DNSKEY) (tag : UInt16) : Bool :=
  decide ((computeKeyTag P key).getD 65535 = tag)

/-- `compute_ds_digest`. -/
def computeDsDigest (P : Platform) (owner : Name) (key : DNSKEY) (digestType : Byte) :
    Option (List Byte) :=
  let buf := nameWire owner ++ dnskeyWire key
  if digestType = 2 then some (P.sha256 buf)
  else if digestType = 4 then some (P.sha384 buf)
  else none

/-- The owner name `build_tbs` signs over: the record's own, or, when the RRSIG has fewer labels than
the owner, `*.` in front of the printed last labels, read as a name again.  A text that does not parse
leaves the owner, and the name that is read need not be the wildcard that was printed. -/
def signedOwner (P : Platform) (rrsig : RRSIG) (owner : Name) : Name :=
  if rrsig.numLabels.val < owner.numLabels then
    let base := owner.trimTo rrsig.numLabels.val
    (P.parseName (asciiText "*." ++ P.nameText base)).getD owner
  else owner

/-- One record of the signed data: owner, type, class, original TTL, RDATA. -/
def canonicalRecord (rrsig : RRSIG) (canonicalOwner : Name) (rec : Record)
    (rdata : List Byte) : List Byte :=
  nameWire canonicalOwner ++ be16 rec.recordType.code.toNat ++ be16 rec.dnsClass.code.toNat ++
    be32 rrsig.originalTtl.toNat ++ be16 rdata.length ++ rdata

/-- The canonical RDATA and wire form of each record, or nothing when one cannot be emitted. -/
def canonicalEntries (P : Platform) (rrsig : RRSIG) (canonicalOwner : Name) :
    List Record → Option (List (List Byte × List Byte))
  | [] => some []
  | rec :: rest =>
      match P.rdataWire rec.data with
      | none => none
      | some rdata =>
          match canonicalEntries P rrsig canonicalOwner rest with
          | none => none
          | some entries =>
              some ((rdata, canonicalRecord rrsig canonicalOwner rec rdata) :: entries)

/-- The RRSIG RDATA without the signature. -/
def rrsigHeader (rrsig : RRSIG) : List Byte :=
  be16 rrsig.typeCovered.code.toNat ++ rrsig.algorithm :: rrsig.numLabels ::
    (be32 rrsig.originalTtl.toNat ++ be32 rrsig.sigExpiration.toNat ++
      be32 rrsig.sigInception.toNat ++ be16 rrsig.keyTag.toNat ++
        nameWire rrsig.signerName.toLowercase)

/-- `build_tbs`. -/
def buildTbs (P : Platform) (rrsig : RRSIG) (owner : Name) (records : List Record) :
    Option (List Byte) :=
  match records with
  | [] => none
  | first :: _ =>
      if records.all fun rec =>
          decide (rec.recordType = rrsig.typeCovered) &&
            decide (rec.dnsClass = first.dnsClass) && rec.name == owner then
        match canonicalEntries P rrsig (signedOwner P rrsig owner).toLowercase records with
        | none => none
        | some entries =>
            let sorted := entries.insertionSort fun a b => a.1 ≤ b.1
            some (rrsigHeader rrsig ++ sorted.flatMap Prod.snd)
      else none

/-- `verify_rrsig` at the clock reading `now`. -/
def verifyRrsig (P : Platform) (now : Nat) (rrsig : RRSIG) (key : DNSKEY) (owner : Name)
    (records : List Record) : Bool :=
  if !rrsigTimeValid rrsig now then false
  else if rrsig.algorithm ≠ key.algorithm then false
  else
    match buildTbs P rrsig owner records with
    | none => false
    | some tbs =>
        P.verifySignature rrsig.algorithm key.publicKey tbs rrsig.sig ||
          P.publicKeyVerify key.algorithm key.publicKey tbs rrsig.sig

/-- An accepted signature is within its validity period and verifies over the signed data. -/
theorem verifyRrsig_accepted {P : Platform} {now : Nat} {rrsig : RRSIG} {key : DNSKEY}
    {owner : Name} {records : List Record}
    (h : verifyRrsig P now rrsig key owner records = true) :
    rrsigTimeValid rrsig now = true ∧ ∃ tbs, buildTbs P rrsig owner records = some tbs ∧
      P.acceptsSignature key.algorithm key.publicKey tbs rrsig.sig = true := by
  unfold verifyRrsig at h
  split at h
  · cases h
  · rename_i hvalid
    split at h
    · cases h
    · rename_i halg
      split at h
      · cases h
      · rename_i tbs htbs
        rw [not_not.mp halg] at h
        exact ⟨by simpa using hvalid, tbs, htbs, h⟩

end Dnssec
end UnifiedDns
