import UnifiedDns.Lib.LengthFraming
import UnifiedDns.Dnssec.Downgrade
import UnifiedDns.Recursor.MergedDenial

/-!
# Signature schemes

`verify_signature`: the scheme is chosen by the algorithm number, the public key is taken apart, and a library
does the mathematics.  What the libraries accept is a parameter, and so is the library's own check of a DNSKEY,
which `verify_rrsig` asks when `verify_signature` says no.

* `parseRsaPublicKey` — the exponent behind its length, the modulus behind the exponent.
* `Backends`, `Backends.verifySignature` — the dispatch; `Backends.over` puts it into a platform.
* `RsaKey`, `Scheme` — the well-formed RSA keys, and the ways to be accepted.
* `supportedDs_iff` — the DS records that `build_trust_chain` can use are those whose algorithm can verify.
* `Sealed`, `secure_schemes` — what a `secure` verdict rests on was accepted by one of the schemes, or by the
  library's own check.
-/

namespace UnifiedDns
namespace Dnssec

/-! ### RSA keys -/

/-- The length of the exponent, and what stands behind it. -/
def rsaExponentLength : List Byte → Option (Nat × List Byte)
  | [] => none
  | first :: tail =>
      if first = 0 then
        match tail with
        | high :: low :: rest => some (decodeLength high low, rest)
        | _ => none
      else some (first.val, tail)

/-- `parse_rsa_public_key`: the exponent and the modulus. -/
def parseRsaPublicKey (bytes : List Byte) : Option (List Byte × List Byte) :=
  match rsaExponentLength bytes with
  | none => none
  | some (expLen, rest) =>
      if rest.length < expLen then none
      else
        let exponent := rest.take expLen
        let modulus := rest.drop expLen
        if modulus.isEmpty || decide (modulus.length < 256) || decide (1024 < modulus.length) then none
        else some (exponent, modulus)

/-- A modulus of 2048 to 8192 bits behind an exponent, whose length stands before it in one octet that is not
zero, or in two octets behind a zero. -/
structure RsaKey (exponent modulus key : List Byte) : Prop where
  least : 256 ≤ modulus.length
  greatest : modulus.length ≤ 1024
  layout : (0 < exponent.length ∧ exponent.length < 256 ∧
      key = Fin.ofNat 256 exponent.length :: (exponent ++ modulus)) ∨
    (exponent.length < 2 ^ 16 ∧ key = 0 :: (frame exponent ++ modulus))

theorem rsaExponentLength_eq_some_iff {bytes rest : List Byte} {expLen : Nat} :
    rsaExponentLength bytes = some (expLen, rest) ↔
      (0 < expLen ∧ expLen < 256 ∧ bytes = Fin.ofNat 256 expLen :: rest) ∨
        (expLen < 2 ^ 16 ∧ bytes = 0 :: (encodeLength expLen ++ rest)) := by
  constructor
  · intro h
    unfold rsaExponentLength at h
    split at h
    · cases h
    · rename_i first tail
      split at h
      · rename_i hzero
        split at h
        · rename_i high low rest'
          cases h
          refine Or.inr ⟨?_, ?_⟩
          · have hhigh := high.isLt
            have hlow := low.isLt
            unfold decodeLength
            omega
          · rw [encodeLength_decodeLength, hzero]
            rfl
        · cases h
      · rename_i hnonzero
        cases h
        refine Or.inl ⟨?_, first.isLt, ?_⟩
        · exact Nat.pos_of_ne_zero fun hval => hnonzero (Fin.ext hval)
        · rw [Fin.ofNat_val_eq_self]
  · rintro (⟨hpos, hlt, rfl⟩ | ⟨hlt, rfl⟩)
    · have hval : (Fin.ofNat 256 expLen : Byte).val = expLen := Nat.mod_eq_of_lt hlt
      have hnonzero : (Fin.ofNat 256 expLen : Byte) ≠ 0 := by
        intro hzero
        rw [hzero] at hval
        exact absurd hval (Nat.ne_of_lt hpos)
      unfold rsaExponentLength
      simp only [if_neg hnonzero, hval]
    · have hlength := decodeLength_encodeLength hlt
      simp only [encodeLength, List.cons_append, List.nil_append, rsaExponentLength, if_true, hlength]

/-- The parser accepts the well-formed keys and takes them apart. -/
theorem parseRsaPublicKey_eq_some_iff {bytes exponent modulus : List Byte} :
    parseRsaPublicKey bytes = some (exponent, modulus) ↔ RsaKey exponent modulus bytes := by
  constructor
  · intro h
    unfold parseRsaPublicKey at h
    split at h
    · cases h
    · rename_i expLen rest hlength
      split at h
      · cases h
      · rename_i hfits
        simp only at h
        split at h
        · cases h
        · rename_i hmodulus
          cases h
          simp only [Bool.or_eq_true, decide_eq_true_eq, not_or, Nat.not_lt] at hmodulus
          have htaken : (rest.take expLen).length = expLen := List.length_take_of_le (Nat.not_lt.mp hfits)
          refine ⟨hmodulus.1.2, hmodulus.2, ?_⟩
          rw [htaken, frame, htaken, List.append_assoc, List.take_append_drop]
          exact rsaExponentLength_eq_some_iff.mp hlength
  · rintro ⟨hleast, hgreatest, hlayout⟩
    have hlength : rsaExponentLength bytes = some (exponent.length, exponent ++ modulus) := by
      rw [rsaExponentLength_eq_some_iff, ← List.append_assoc]
      exact hlayout
    have hnonempty : modulus.isEmpty = false := by
      rw [List.isEmpty_eq_false_iff]
      rintro rfl
      exact absurd hleast (by decide)
    have hfits : ¬ (exponent ++ modulus).length < exponent.length := by
      rw [List.length_append]
      omega
    have hbounds : ¬ (modulus.isEmpty || decide (modulus.length < 256) ||
        decide (1024 < modulus.length)) = true := by
      simp only [hnonempty, Bool.false_or, Bool.or_eq_true, decide_eq_true_eq]
      omega
    simp only [parseRsaPublicKey, hlength, if_neg hfits, List.take_left, List.drop_left, if_neg hbounds]

/-! ### The dispatch -/

/-- `RSA_PKCS1_2048_8192_SHA256` and `RSA_PKCS1_2048_8192_SHA512`. -/
inductive RsaParameters
  | sha256
  | sha512
deriving DecidableEq

/-- `ECDSA_P256_SHA256_FIXED`, `ECDSA_P384_SHA384_FIXED` and `ED25519`. -/
inductive UnparsedAlgorithm
  | ecdsaP256
  | ecdsaP384
  | ed25519
deriving DecidableEq

/-- The libraries that verify signatures. -/
structure Backends where
  /-- `RsaPublicKeyComponents::verify`: modulus, exponent, message, signature. -/
  rsaVerify : RsaParameters → List Byte → List Byte → List Byte → List Byte → Bool
  /-- `UnparsedPublicKey::verify`: key, message, signature. -/
  unparsedVerify : UnparsedAlgorithm → List Byte → List Byte → List Byte → Bool
  /-- A decoded ML-DSA-44 signature. -/
  MlDsaSignature : Type
  /-- `MlDsaSignature::decode`. -/
  mldsaDecode : List Byte → Option MlDsaSignature
  /-- `VerifyingKey::verify`, with the encoded key. -/
  mldsaVerify : List Byte → List Byte → MlDsaSignature → Bool

/-- `verify_mldsa44`. -/
def Backends.verifyMldsa44 (B : Backends) (pubkeyBytes message sig : List Byte) : Bool :=
  if pubkeyBytes.length ≠ 1312 then false
  else if sig.length ≠ 2420 then false
  else
    match B.mldsaDecode sig with
    | none => false
    | some sigObj => B.mldsaVerify pubkeyBytes message sigObj

/-- `verify_signature` with RSA. -/
def Backends.verifyRsa (B : Backends) (verifyAlg : RsaParameters) (pubkeyBytes message sig : List Byte) :
    Bool :=
  match parseRsaPublicKey pubkeyBytes with
  | none => false
  | some (exponent, modulus) => B.rsaVerify verifyAlg modulus exponent message sig

/-- `verify_signature`. -/
def Backends.verifySignature (B : Backends) (algorithm : Byte) (pubkeyBytes message sig : List Byte) : Bool :=
  if algorithm = 8 then B.verifyRsa .sha256 pubkeyBytes message sig
  else if algorithm = 10 then B.verifyRsa .sha512 pubkeyBytes message sig
  else if algorithm = 13 then B.unparsedVerify .ecdsaP256 (4 :: pubkeyBytes) message sig
  else if algorithm = 14 then B.unparsedVerify .ecdsaP384 (4 :: pubkeyBytes) message sig
  else if algorithm = 15 then B.unparsedVerify .ed25519 pubkeyBytes message sig
  else if algorithm = 18 then B.verifyMldsa44 pubkeyBytes message sig
  else false

/-- A platform that verifies with these libraries. -/
def Backends.over (B : Backends) (P : Platform) : Platform := { P with verifySignature := B.verifySignature }

/-- The ways in which a signature is accepted: algorithm, public key, message, signature. -/
inductive Scheme (B : Backends) : Byte → List Byte → List Byte → List Byte → Prop
  | rsa {algorithm : Byte} {parameters : RsaParameters} {key message sig exponent modulus : List Byte}
      (halgorithm : algorithm = 8 ∧ parameters = .sha256 ∨ algorithm = 10 ∧ parameters = .sha512)
      (hkey : RsaKey exponent modulus key)
      (hverify : B.rsaVerify parameters modulus exponent message sig = true) :
      Scheme B algorithm key message sig
  | ecdsa {algorithm : Byte} {curve : UnparsedAlgorithm} {key message sig : List Byte}
      (halgorithm : algorithm = 13 ∧ curve = .ecdsaP256 ∨ algorithm = 14 ∧ curve = .ecdsaP384)
      (hverify : B.unparsedVerify curve (4 :: key) message sig = true) : Scheme B algorithm key message sig
  | ed25519 {key message sig : List Byte} (hverify : B.unparsedVerify .ed25519 key message sig = true) :
      Scheme B 15 key message sig
  | mldsa44 {key message sig : List Byte} {sigObj : B.MlDsaSignature} (hkey : key.length = 1312)
      (hsig : sig.length = 2420) (hdecode : B.mldsaDecode sig = some sigObj)
      (hverify : B.mldsaVerify key message sigObj = true) : Scheme B 18 key message sig

section Schemes

variable {B : Backends} {algorithm : Byte} {key message sig : List Byte}

theorem Backends.verifyRsa_iff {parameters : RsaParameters} :
    B.verifyRsa parameters key message sig = true ↔
      ∃ exponent modulus, RsaKey exponent modulus key ∧
        B.rsaVerify parameters modulus exponent message sig = true := by
  unfold Backends.verifyRsa
  split
  · rename_i hnone
    refine iff_of_false Bool.false_ne_true ?_
    rintro ⟨exponent, modulus, hkey, -⟩
    rw [parseRsaPublicKey_eq_some_iff.mpr hkey] at hnone
    cases hnone
  · rename_i exponent modulus hparsed
    refine ⟨fun h => ⟨exponent, modulus, parseRsaPublicKey_eq_some_iff.mp hparsed, h⟩, ?_⟩
    rintro ⟨exponent', modulus', hkey, hverify⟩
    rw [parseRsaPublicKey_eq_some_iff.mpr hkey] at hparsed
    cases hparsed
    exact hverify

theorem Backends.verifyMldsa44_iff : B.verifyMldsa44 key message sig = true ↔
    key.length = 1312 ∧ sig.length = 2420 ∧
      ∃ sigObj, B.mldsaDecode sig = some sigObj ∧ B.mldsaVerify key message sigObj = true := by
  unfold Backends.verifyMldsa44
  by_cases hkey : key.length = 1312
  · by_cases hsig : sig.length = 2420
    · cases hdecode : B.mldsaDecode sig with
      | none => simp [hkey, hsig]
      | some sigObj => simp [hkey, hsig]
    · simp [hsig]
  · simp [hkey]

/-- `verify_signature` accepts just what the schemes do. -/
theorem Backends.verifySignature_iff :
    B.verifySignature algorithm key message sig = true ↔ Scheme B algorithm key message sig := by
  constructor
  · intro h
    unfold Backends.verifySignature at h
    split at h
    · rename_i halgorithm
      obtain ⟨exponent, modulus, hkey, hverify⟩ := Backends.verifyRsa_iff.mp h
      exact .rsa (Or.inl ⟨halgorithm, rfl⟩) hkey hverify
    split at h
    · rename_i halgorithm
      obtain ⟨exponent, modulus, hkey, hverify⟩ := Backends.verifyRsa_iff.mp h
      exact .rsa (Or.inr ⟨halgorithm, rfl⟩) hkey hverify
    split at h
    · rename_i halgorithm
      exact .ecdsa (Or.inl ⟨halgorithm, rfl⟩) h
    split at h
    · rename_i halgorithm
      exact .ecdsa (Or.inr ⟨halgorithm, rfl⟩) h
    split at h
    · rename_i halgorithm
      subst halgorithm
      exact .ed25519 h
    split at h
    · rename_i halgorithm
      subst halgorithm
      obtain ⟨hkey, hsig, sigObj, hdecode, hverify⟩ := Backends.verifyMldsa44_iff.mp h
      exact .mldsa44 hkey hsig hdecode hverify
    · cases h
  · intro h
    cases h with
    | rsa halgorithm hkey hverify =>
        have hrsa := Backends.verifyRsa_iff.mpr ⟨_, _, hkey, hverify⟩
        rcases halgorithm with ⟨rfl, rfl⟩ | ⟨rfl, rfl⟩
        · exact hrsa
        · exact hrsa
    | ecdsa halgorithm hverify =>
        rcases halgorithm with ⟨rfl, rfl⟩ | ⟨rfl, rfl⟩
        · exact hverify
        · exact hverify
    | ed25519 hverify => exact hverify
    | mldsa44 hkey hsig hdecode hverify =>
        exact Backends.verifyMldsa44_iff.mpr ⟨hkey, hsig, _, hdecode, hverify⟩

end Schemes

/-- Libraries that accept whatever they are given. -/
def Backends.lenient : Backends where
  rsaVerify _ _ _ _ _ := true
  unparsedVerify _ _ _ _ := true
  MlDsaSignature := Unit
  mldsaDecode _ := some ()
  mldsaVerify _ _ _ := true

/-- An algorithm that some library could verify with, given the right key. -/
def HasScheme (algorithm : Byte) : Prop :=
  ∃ (B : Backends) (key message sig : List Byte), B.verifySignature algorithm key message sig = true

theorem hasScheme_iff {algorithm : Byte} :
    HasScheme algorithm ↔ algorithm ∈ ([8, 10, 13, 14, 15, 18] : List Byte) := by
  constructor
  · rintro ⟨B, key, message, sig, hverify⟩
    cases Backends.verifySignature_iff.mp hverify with
    | rsa halgorithm =>
        rcases halgorithm with ⟨rfl, -⟩ | ⟨rfl, -⟩
        · decide
        · decide
    | ecdsa halgorithm =>
        rcases halgorithm with ⟨rfl, -⟩ | ⟨rfl, -⟩
        · decide
        · decide
    | ed25519 => decide
    | mldsa44 => decide
  · have hmodulus : (List.replicate 256 (0 : Byte)).length = 256 := List.length_replicate
    have hrsa : RsaKey [3] (List.replicate 256 0) (1 :: ([3] ++ List.replicate 256 0)) :=
      ⟨hmodulus.ge, by omega, Or.inl ⟨by decide, by decide, rfl⟩⟩
    intro h
    simp only [List.mem_cons, List.not_mem_nil, or_false] at h
    refine ⟨.lenient, ?_⟩
    rcases h with rfl | rfl | rfl | rfl | rfl | rfl
    · exact ⟨_, [], [], Backends.verifySignature_iff.mpr (.rsa (Or.inl ⟨rfl, rfl⟩) hrsa rfl)⟩
    · exact ⟨_, [], [], Backends.verifySignature_iff.mpr (.rsa (Or.inr ⟨rfl, rfl⟩) hrsa rfl)⟩
    · exact ⟨[], [], [], Backends.verifySignature_iff.mpr (.ecdsa (Or.inl ⟨rfl, rfl⟩) rfl)⟩
    · exact ⟨[], [], [], Backends.verifySignature_iff.mpr (.ecdsa (Or.inr ⟨rfl, rfl⟩) rfl)⟩
    · exact ⟨[], [], [], Backends.verifySignature_iff.mpr (.ed25519 rfl)⟩
    · have hkey : (List.replicate 1312 (0 : Byte)).length = 1312 := List.length_replicate
      have hsig : (List.replicate 2420 (0 : Byte)).length = 2420 := List.length_replicate
      exact ⟨_, [], _, Backends.verifySignature_iff.mpr (.mldsa44 hkey hsig rfl rfl)⟩

/-- The two lists of algorithms agree: `build_trust_chain` can use a DS record just when its digest is SHA-256
or SHA-384 and `verify_signature` has a scheme for its algorithm. -/
theorem supportedDs_iff (d : DS) :
    supportedDs d = true ↔ (d.digestType = 2 ∨ d.digestType = 4) ∧ HasScheme d.algorithm := by
  rw [hasScheme_iff]
  simp only [supportedDs, Bool.and_eq_true, Bool.or_eq_true, decide_eq_true_eq, List.any_eq_true,
    exists_eq_right']

/-! ### What a verdict rests on -/

/-- One of the schemes accepts a signature over the RRset, or the library's own check of the key does. -/
def Sealed (B : Backends) (P : Platform) (records : List Record) (owner : Name) (rtype : RecordType) : Prop :=
  ∃ rrsig ∈ coveringRrsigs records owner rtype, ∃ (key : DNSKEY) (tbs : List Byte),
    rrsig.algorithm = key.algorithm ∧ buildTbs P rrsig owner (rrset records owner rtype) = some tbs ∧
      (Scheme B key.algorithm key.publicKey tbs rrsig.sig ∨
        P.publicKeyVerify key.algorithm key.publicKey tbs rrsig.sig = true)

section Verdicts

variable {B : Backends} {env : Env} {msg : Message} {qname : Name} {qtype : RecordType} {s : VState}

theorem sealed_of_verified (hbackends : env.platform.verifySignature = B.verifySignature)
    {records : List Record} {owner : Name} {rtype : RecordType} {rrsig : RRSIG} {key : DNSKEY} {now : Nat}
    (hrrsig : rrsig ∈ coveringRrsigs records owner rtype)
    (h : verifyRrsig env.platform now rrsig key owner (rrset records owner rtype) = true) :
    Sealed B env.platform records owner rtype := by
  obtain ⟨-, tbs, htbs, hverify⟩ := verifyRrsig_accepted h
  rw [Platform.acceptsSignature, Bool.or_eq_true, hbackends, Backends.verifySignature_iff] at hverify
  refine ⟨rrsig, hrrsig, key, tbs, ?_, htbs, hverify⟩
  by_contra hother
  simp [verifyRrsig, hother] at h

theorem Authenticated.sealed (hbackends : env.platform.verifySignature = B.verifySignature)
    {records : List Record} {owner : Name} {rtype : RecordType} {s s' : VState}
    (h : Authenticated env records owner rtype s s') : Sealed B env.platform records owner rtype := by
  obtain ⟨rrsig, hrrsig, keys, ttl, key, -, tick, -, -, -, hverify⟩ := h
  exact sealed_of_verified hbackends hrrsig hverify

theorem sealed_of_verifiedDenial (hbackends : env.platform.verifySignature = B.verifySignature)
    {keys : List DNSKEY} {authority : List Record} {rec : Record}
    (h : VerifiedDenial env keys authority rec) :
    Sealed B env.platform authority rec.name rec.recordType := by
  obtain ⟨rrsig, hrrsig, key, -, tick, hverify⟩ := h
  exact sealed_of_verified hbackends hrrsig hverify

/-- **What a secure verdict rests on.**  Whatever the libraries accept: every RRset on the way to a `secure`
answer, and every RRset that a `secure` denial is judged by, carries a signature over it under a key of the same
algorithm: one of the six schemes has accepted it, with a key of the form that the scheme asks for, or the
library's own check of the key has. -/
theorem secure_schemes (hbackends : env.platform.verifySignature = B.verifySignature)
    (hsecure : (validateMessage env msg qname qtype s).1 = .secure) :
    (judgedNegative msg = false ∧ ∃ chain, redirections env qname qtype msg.answers = .complete chain ∧
        (∀ step ∈ chain, Sealed B env.platform msg.answers step.rrsetKey.1 step.rrsetKey.2) ∧
        Sealed B env.platform msg.answers (finalOwner qname chain) qtype) ∨
      (judgedNegative msg = true ∧
        (∃ soaRec, denialSoa msg = some soaRec ∧
          Sealed B env.platform msg.nameServers soaRec.name .SOA) ∧
        ∀ rec ∈ shownDenial msg.nameServers,
          Sealed B env.platform msg.nameServers rec.name rec.recordType) := by
  -- A denial is judged by `validate_negative`, an answer by `validate_answer`.
  have hdenial : (validateNegative env msg qname qtype { s with budget := .default }).1 = .secure →
      (∃ soaRec, denialSoa msg = some soaRec ∧ Sealed B env.platform msg.nameServers soaRec.name .SOA) ∧
        ∀ rec ∈ shownDenial msg.nameServers,
          Sealed B env.platform msg.nameServers rec.name rec.recordType := by
    intro h
    obtain ⟨soaRec, keys, ttl, s₁, s₂, hsoa, -, -, hverify, hdenial⟩ := Recursor.validateNegative_secure h
    obtain ⟨-, hverified⟩ := Recursor.denies_of_validateDenial hdenial
    refine ⟨⟨soaRec, hsoa, ?_⟩, fun rec hrec => ?_⟩
    · have hsealed := sealed_of_verifiedDenial hbackends
        (verifyNegativeRrset_verified (congrArg Prod.fst hverify))
      rwa [Recursor.denialSoa_type hsoa] at hsealed
    · exact sealed_of_verifiedDenial hbackends (verifyDenialRecords_verified hverified rec hrec)
  unfold validateMessage validateMessageWithBudget at hsecure
  split at hsecure
  · rename_i hcode
    exact Or.inr ⟨by simp [judgedNegative, hcode], hdenial hsecure⟩
  · rename_i hcode
    split at hsecure
    · rename_i hempty
      exact Or.inr ⟨by simp [judgedNegative, hempty], hdenial hsecure⟩
    · rename_i hanswers
      obtain ⟨chain, hchain, hsteps, hfinal⟩ := validateAnswer_secure hsecure
      exact Or.inl ⟨by simp [judgedNegative, hcode, hanswers], chain, hchain,
        fun step hstep => (hsteps step hstep).sealed hbackends, hfinal.sealed hbackends⟩
  · cases hsecure

end Verdicts

/-- Libraries to evaluate the model on: RSA signatures are good when they are the single octet 1. -/
def Backends.plain : Backends where
  rsaVerify _ _ _ _ sig := decide (sig = [1])
  unparsedVerify _ _ _ _ := false
  MlDsaSignature := Unit
  mldsaDecode _ := none
  mldsaVerify _ _ _ := false

/-- The root zone behind these libraries; its key is an RSA key with the exponent 65537. -/
def rsaEnv : Env := { rootEnv fun _ _ => none with platform := Backends.plain.over rootPlatform }

/-- A denial by the root zone is judged by RSA signatures. -/
theorem secure_schemes_root :
    (judgedNegative forgedDenial = false ∧ ∃ chain,
        redirections rsaEnv (topName 98) .A forgedDenial.answers = .complete chain ∧
        (∀ step ∈ chain, Sealed .plain rsaEnv.platform forgedDenial.answers step.rrsetKey.1
          step.rrsetKey.2) ∧
        Sealed .plain rsaEnv.platform forgedDenial.answers (finalOwner (topName 98) chain) .A) ∨
      (judgedNegative forgedDenial = true ∧
        (∃ soaRec, denialSoa forgedDenial = some soaRec ∧
          Sealed .plain rsaEnv.platform forgedDenial.nameServers soaRec.name .SOA) ∧
        ∀ rec ∈ shownDenial forgedDenial.nameServers,
          Sealed .plain rsaEnv.platform forgedDenial.nameServers rec.name rec.recordType) :=
  @secure_schemes .plain rsaEnv forgedDenial (topName 98) .A .init rfl (by decide +kernel)

end Dnssec
end UnifiedDns
