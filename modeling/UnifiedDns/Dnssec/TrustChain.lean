import UnifiedDns.Dnssec.Negative

/-!
# The chain of trust

`build_trust_chain`: from the root anchors down to a zone, one step for each label of the zone's name.
A step takes the keys of a zone from the cache, or authenticates them by the DS RRset of the parent
and the zone's own DNSKEY RRset.

* `rootTrustAnchors`, `hexDecode` — the anchors compiled into the program.
* `fetchDs` — the DS question, and what its answer makes of the zone.
* `fetchDnskey` — the DNSKEY question.
* `chainStep`, `buildTrustChain` — one zone, and the walk.
* `dsAnswers` — a ghost: the answers to the DS questions of a walk, with the parent's keys and the
  state in which each arrived.
-/

namespace UnifiedDns
namespace Dnssec

/-- `u8::from_str_radix(_, 16)` on one digit. -/
def hexValue (c : Char) : Option Nat :=
  if '0' ≤ c ∧ c ≤ '9' then some (c.toNat - 48)
  else if 'A' ≤ c ∧ c ≤ 'F' then some (c.toNat - 55)
  else if 'a' ≤ c ∧ c ≤ 'f' then some (c.toNat - 87)
  else none

/-- The digits of a text, two at a time. -/
def hexPairs : List Char → Option (List Byte)
  | [] => some []
  | [_] => none
  | high :: low :: rest =>
      match hexValue high, hexValue low, hexPairs rest with
      | some h, some l, some octets => some (Fin.ofNat 256 (h * 16 + l) :: octets)
      | _, _, _ => none

/-- `hex_decode`. -/
def hexDecode (s : String) : Option (List Byte) := hexPairs s.toList

/-- `ROOT_TRUST_ANCHORS`. -/
def rootTrustAnchors : List (UInt16 × Byte × Byte × String) :=
  [(20326, 8, 2, "E06D44B80B8F1D39A95C0B0D7C65D08458E880409BBC683457104237C7F8EC8D"),
   (38696, 8, 2, "683D2D0ACB8C9B712A1948B27F741219298D0A450D612C483AF444A4C0FB2B16")]

/-- The root anchors as DS data. -/
def rootDs : List DS :=
  rootTrustAnchors.filterMap fun (tag, alg, digestType, hex) =>
    match hexDecode hex with
    | some digest => some ⟨tag, alg, digestType, digest⟩
    | none => none

/-- A DS record the code can use: SHA-256 or SHA-384, and an algorithm it verifies. -/
def supportedDs (d : DS) : Bool :=
  (decide (d.digestType = 2) || decide (d.digestType = 4)) &&
    [8, 10, 13, 14, 15, 18].any fun alg => decide (d.algorithm = alg)

/-- The DS data for `zone` in an answer section. -/
def dsRecords (answers : List Record) (zone : Name) : List DS :=
  (answers.filter fun r => r.name == zone).filterMap Record.ds?

/-- The signatures of an answer section that cover `rtype`, wherever they stand. -/
def rrsigsOver (answers : List Record) (rtype : RecordType) : List RRSIG :=
  (answers.filterMap Record.rrsig?).filter fun sig => decide (sig.typeCovered = rtype)

/-- The keys for `zone` in an answer section. -/
def dnskeyRecords (answers : List Record) (zone : Name) : List DNSKEY :=
  (answers.filter fun r => r.name == zone).filterMap Record.dnskey?

/-- What the check of an empty DS answer says. -/
def denyDs (env : Env) (parentKeys : List DNSKEY) (zone : Name) (authority : List Record)
    (s : VState) : DnssecStatus × VState :=
  if authority.any fun r => decide (r.recordType = .NSEC3) then
    validateNsec3 env parentKeys zone .DS authority s
  else if authority.any fun r => decide (r.recordType = .NSEC) then
    validateNsec env parentKeys zone .DS authority s
  else (.bogus, s)

/-- What the parent says of a zone. -/
inductive DsOutcome
  | anchors (trustedDs : List DS) (ttl : Nat)
  | stop (result : ChainResult)

/-- What the answer to the DS question makes of the zone. -/
def judgeDs (env : Env) (parentKeys : List DNSKEY) (zone : Name) (dsMsg : Message)
    (s : VState) : DsOutcome × VState :=
  let ttl := calculateMinTtl dsMsg
  let records := dsRecords dsMsg.answers zone
  if records.isEmpty then
    match denyDs env parentKeys zone dsMsg.nameServers s with
    | (.secure, s) => (.stop (.unsigned ttl), s)
    | (.insecureUnsigned, s) => (.stop (.unsigned ttl), s)
    | (.insecureUnknown, s) => (.stop .bogus, s)
    | (.bogus, s) => (.stop .bogus, s)
  else
    let rrsigs := rrsigsOver dsMsg.answers .DS
    if rrsigs.isEmpty then (.stop .bogus, s)
    else
      match searchSignatures env zone (rrset dsMsg.answers zone .DS)
          (signaturePairs rrsigs parentKeys) s with
      | (.verified, s) =>
          let anchors := records.filter supportedDs
          if anchors.isEmpty then (.stop (.unsigned ttl), s) else (.anchors anchors ttl, s)
      | (.exhausted, s) => (.stop .bogus, s)
      | (.unverified, s) => (.stop .bogus, s)

/-- The DS question for a zone. -/
def fetchDs (env : Env) (parentKeys : List DNSKEY) (zone : Name) (s : VState) :
    DsOutcome × VState :=
  match s.ask env zone .DS with
  | (none, s) => (.stop .bogus, s)
  | (some dsMsg, s) => judgeDs env parentKeys zone dsMsg s

/-- The published keys that one of the DS records stands for, once for each DS record. -/
def matchedKeys (P : Platform) (zone : Name) (trustedDs : List DS) (candidates : List DNSKEY) :
    List DNSKEY :=
  candidates.flatMap fun cand =>
    let tag := (computeKeyTag P cand).getD 65535
    trustedDs.filterMap fun d =>
      if d.keyTag = tag ∧ d.algorithm = cand.algorithm ∧
          computeDsDigest P zone cand d.digestType = some d.digest then some cand
      else none

/-- The zone-key flag of a DNSKEY. -/
def isZoneKey (key : DNSKEY) : Bool := decide (key.flags &&& 0x0100 ≠ 0)

/-- The DNSKEY question for a zone: its authenticated keys and the time to live of the answer. -/
def fetchDnskey (env : Env) (zone : Name) (trustedDs : List DS) (s : VState) :
    Option (List DNSKEY × Nat) × VState :=
  match s.ask env zone .DNSKEY with
  | (none, s) => (none, s)
  | (some dnskeyMsg, s) =>
      let candidates := dnskeyRecords dnskeyMsg.answers zone
      if candidates.isEmpty then (none, s)
      else
        let rrsigs := rrsigsOver dnskeyMsg.answers .DNSKEY
        if rrsigs.isEmpty then (none, s)
        else
          let keys := matchedKeys env.platform zone trustedDs candidates
          if keys.isEmpty then (none, s)
          else
            match searchSignatures env zone (rrset dnskeyMsg.answers zone .DNSKEY)
                (signaturePairs rrsigs keys) s with
            | (.verified, s) =>
                (some (candidates.filter isZoneKey, calculateMinTtl dnskeyMsg), s)
            | (.exhausted, s) => (none, s)
            | (.unverified, s) => (none, s)

/-- The cached keys of a zone that have not expired. -/
def cachedKeys (env : Env) (zone : Name) (s : VState) : Option (List DNSKEY) × VState :=
  match s.keyTrustCache (env.platform.nameKey zone) with
  | none => (none, s)
  | some cached =>
      let (now, s) := s.readClock env
      if now < cached.expiresAt then (some cached.keys, s) else (none, s)

/-- Remember the keys of a zone. -/
def storeKeys (env : Env) (zone : Name) (keys : List DNSKEY) (ttl : Nat) (s : VState) : VState :=
  let (now, s) := s.readClock env
  { s with keyTrustCache :=
      s.keyTrustCache.insert (env.platform.nameKey zone) ⟨keys, now + ttl⟩ }

/-- What one zone of the walk comes to: its keys, with the time to live if they were fetched, or the
end of the walk. -/
inductive StepOutcome
  | next (keys : List DNSKEY) (ttl : Option Nat)
  | stop (result : ChainResult)

/-- The DNSKEY half of a step. -/
def fetchZoneKeys (env : Env) (zone : Name) (trustedDs : List DS) (parentDsTtl : Nat)
    (s : VState) : StepOutcome × VState :=
  match fetchDnskey env zone trustedDs s with
  | (none, s) => (.stop .bogus, s)
  | (some (keys, dnskeyTtl), s) =>
      let effectiveTtl := if zone.isRoot then dnskeyTtl else min dnskeyTtl parentDsTtl
      (.next keys (some effectiveTtl), storeKeys env zone keys effectiveTtl s)

/-- One turn of the loop of `build_trust_chain`. -/
def chainStep (env : Env) (zone : Name) (parentKeys : Option (List DNSKEY)) (s : VState) :
    StepOutcome × VState :=
  match cachedKeys env zone s with
  | (some keys, s) => (.next keys none, s)
  | (none, s) =>
      if zone.isRoot then fetchZoneKeys env zone rootDs 300 s
      else
        match parentKeys with
        | none => (.stop .bogus, s)
        | some parentKeys =>
            match fetchDs env parentKeys zone s with
            | (.stop result, s) => (.stop result, s)
            | (.anchors trustedDs ttl, s) => fetchZoneKeys env zone trustedDs ttl s

/-- The loop of `build_trust_chain` over the zones that are left. -/
def chainFrom (env : Env) :
    List Name → Option (List DNSKEY) → Nat → VState → ChainResult × VState
  | [], some keys, lastTtl, s => (.trusted keys lastTtl, s)
  | [], none, lastTtl, s => (.unsigned lastTtl, s)
  | zone :: rest, parentKeys, lastTtl, s =>
      match chainStep env zone parentKeys s with
      | (.next keys ttl, s) => chainFrom env rest (some keys) (ttl.getD lastTtl) s
      | (.stop result, s) => (result, s)

/-- The zones of a walk, the root first. -/
def zonePath (targetZone : Name) : List Name := targetZone.ancestors.reverse

/-- `build_trust_chain`.  The result is also put on the ghost log. -/
def buildTrustChain (env : Env) (targetZone : Name) (s : VState) : ChainResult × VState :=
  let (result, s) := chainFrom env (zonePath targetZone) none 300 s
  (result, s.logChain targetZone result)

theorem denyDs_closed {env : Env} {R : VState → VState → Prop} (hR : ReadClosed env R)
    (parentKeys : List DNSKEY) (zone : Name) (authority : List Record) (s : VState) :
    R s (denyDs env parentKeys zone authority s).2 := by
  unfold denyDs
  split
  · exact validateNsec3_closed hR parentKeys zone .DS authority s
  · split
    · exact validateNsec_closed hR parentKeys zone .DS authority s
    · exact hR.refl s

theorem judgeDs_closed {env : Env} {R : VState → VState → Prop} (hR : ReadClosed env R)
    (parentKeys : List DNSKEY) (zone : Name) (dsMsg : Message) (s : VState) :
    R s (judgeDs env parentKeys zone dsMsg s).2 := by
  have hdeny := denyDs_closed hR parentKeys zone dsMsg.nameServers s
  have hsearch := searchSignatures_closed hR zone (rrset dsMsg.answers zone .DS)
    (signaturePairs (rrsigsOver dsMsg.answers .DS) parentKeys) s
  simp only [judgeDs]
  split
  · split
    all_goals
      rename_i heq
      rw [heq] at hdeny
      exact hdeny
  · split
    · exact hR.refl s
    · split
      · rename_i heq
        rw [heq] at hsearch
        split
        · exact hsearch
        · exact hsearch
      all_goals
        rename_i heq
        rw [heq] at hsearch
        exact hsearch

theorem fetchDs_closed {env : Env} {R : VState → VState → Prop} (hR : ReadClosed env R)
    (parentKeys : List DNSKEY) (zone : Name) (s : VState) :
    R s (fetchDs env parentKeys zone s).2 := by
  have hask := hR.ask zone .DS s
  unfold fetchDs
  split
  · rename_i heq
    rw [heq] at hask
    exact hask
  · rename_i heq
    rw [heq] at hask
    exact hR.trans hask (judgeDs_closed hR parentKeys zone _ _)

theorem fetchDs_sameTables (env : Env) (parentKeys : List DNSKEY) (zone : Name) (s : VState) :
    s.SameTables (fetchDs env parentKeys zone s).2 :=
  fetchDs_closed (VState.SameTables.readClosed env) parentKeys zone s

theorem fetchDnskey_closed {env : Env} {R : VState → VState → Prop} (hR : ReadClosed env R)
    (zone : Name) (trustedDs : List DS) (s : VState) : R s (fetchDnskey env zone trustedDs s).2 := by
  have hask := hR.ask zone .DNSKEY s
  unfold fetchDnskey
  split
  · rename_i heq
    rw [heq] at hask
    exact hask
  · rename_i dnskeyMsg s₁ heq
    rw [heq] at hask
    simp only
    split
    · exact hask
    · split
      · exact hask
      · split
        · exact hask
        · have hsearch := searchSignatures_closed hR zone
            (rrset dnskeyMsg.answers zone .DNSKEY)
            (signaturePairs (rrsigsOver dnskeyMsg.answers .DNSKEY)
              (matchedKeys env.platform zone trustedDs
                (dnskeyRecords dnskeyMsg.answers zone))) s₁
          split
          all_goals
            rename_i heq₂
            rw [heq₂] at hsearch
            exact hR.trans hask hsearch

theorem fetchDnskey_sameTables (env : Env) (zone : Name) (trustedDs : List DS) (s : VState) :
    s.SameTables (fetchDnskey env zone trustedDs s).2 :=
  fetchDnskey_closed (VState.SameTables.readClosed env) zone trustedDs s

theorem cachedKeys_closed {env : Env} {R : VState → VState → Prop} (hR : ReadClosed env R)
    (zone : Name) (s : VState) : R s (cachedKeys env zone s).2 := by
  unfold cachedKeys
  split
  · exact hR.refl s
  · simp only
    split
    · exact hR.clock s
    · exact hR.clock s

theorem cachedKeys_sameTables (env : Env) (zone : Name) (s : VState) :
    s.SameTables (cachedKeys env zone s).2 :=
  cachedKeys_closed (VState.SameTables.readClosed env) zone s

theorem storeKeys_sameLog (env : Env) (zone : Name) (keys : List DNSKEY) (ttl : Nat)
    (s : VState) : s.SameLog (storeKeys env zone keys ttl s) :=
  ⟨Nat.le_succ _, rfl, rfl⟩

/-- A relation that a walk keeps: it also fills the key cache. -/
structure KeyClosed (env : Env) (R : VState → VState → Prop) : Prop extends ReadClosed env R where
  store (zone : Name) (keys : List DNSKEY) (ttl : Nat) (s : VState) :
    R s (storeKeys env zone keys ttl s)

theorem VState.SameLog.keyClosed (env : Env) : KeyClosed env VState.SameLog where
  refl := VState.SameLog.refl
  trans := VState.SameLog.trans
  clock s := (VState.readClock_sameTables env s).sameLog
  ask name rtype s := (VState.ask_sameTables env name rtype s).sameLog
  spend s := s.canCheckSig_sameTables.sameLog
  check rrsig key owner records s _ :=
    (s.canCheckSig_sameTables.trans
      (checkRrsig_sameTables env rrsig key owner records s.canCheckSig.2)).sameLog
  store := storeKeys_sameLog env

theorem fetchZoneKeys_closed {env : Env} {R : VState → VState → Prop} (hR : KeyClosed env R)
    (zone : Name) (trustedDs : List DS) (ttl : Nat) (s : VState) :
    R s (fetchZoneKeys env zone trustedDs ttl s).2 := by
  have hfetch := fetchDnskey_closed hR.toReadClosed zone trustedDs s
  unfold fetchZoneKeys
  split
  · rename_i heq
    rw [heq] at hfetch
    exact hfetch
  · rename_i heq
    rw [heq] at hfetch
    exact hR.trans hfetch (hR.store zone _ _ _)

theorem chainStep_closed {env : Env} {R : VState → VState → Prop} (hR : KeyClosed env R)
    (zone : Name) (parentKeys : Option (List DNSKEY)) (s : VState) :
    R s (chainStep env zone parentKeys s).2 := by
  have hcached := cachedKeys_closed hR.toReadClosed zone s
  unfold chainStep
  split
  · rename_i heq
    rw [heq] at hcached
    exact hcached
  · rename_i s₁ heq
    rw [heq] at hcached
    split
    · exact hR.trans hcached (fetchZoneKeys_closed hR zone rootDs 300 s₁)
    · split
      · exact hcached
      · rename_i keys
        have hds := fetchDs_closed hR.toReadClosed keys zone s₁
        split
        · rename_i heq₂
          rw [heq₂] at hds
          exact hR.trans hcached hds
        · rename_i heq₂
          rw [heq₂] at hds
          exact hR.trans (hR.trans hcached hds) (fetchZoneKeys_closed hR zone _ _ _)

theorem chainStep_sameLog (env : Env) (zone : Name) (parentKeys : Option (List DNSKEY))
    (s : VState) : s.SameLog (chainStep env zone parentKeys s).2 :=
  chainStep_closed (VState.SameLog.keyClosed env) zone parentKeys s

theorem chainFrom_closed {env : Env} {R : VState → VState → Prop} (hR : KeyClosed env R)
    (zones : List Name) (parentKeys : Option (List DNSKEY)) (lastTtl : Nat) (s : VState) :
    R s (chainFrom env zones parentKeys lastTtl s).2 := by
  induction zones generalizing parentKeys lastTtl s with
  | nil => cases parentKeys <;> exact hR.refl s
  | cons zone rest ih =>
      have hstep := chainStep_closed hR zone parentKeys s
      simp only [chainFrom]
      split
      · rename_i heq
        rw [heq] at hstep
        exact hR.trans hstep (ih _ _ _)
      · rename_i heq
        rw [heq] at hstep
        exact hstep

theorem chainFrom_sameLog (env : Env) (zones : List Name) (parentKeys : Option (List DNSKEY))
    (lastTtl : Nat) (s : VState) :
    s.SameLog (chainFrom env zones parentKeys lastTtl s).2 :=
  chainFrom_closed (VState.SameLog.keyClosed env) zones parentKeys lastTtl s

/-- `build_trust_chain` leaves one entry on the log and does not touch the table of signed zones. -/
theorem buildTrustChain_frame (env : Env) (zone : Name) (s : VState) :
    s.tick ≤ (buildTrustChain env zone s).2.tick ∧
      (buildTrustChain env zone s).2.signedZoneCache = s.signedZoneCache ∧
        (buildTrustChain env zone s).2.chainLog =
          (zone, (buildTrustChain env zone s).1) :: s.chainLog := by
  have hwalk := chainFrom_sameLog env (zonePath zone) none 300 s
  refine ⟨hwalk.tick_le, hwalk.signedZoneCache_eq, ?_⟩
  have hlog := hwalk.chainLog_eq
  simp only [buildTrustChain, VState.logChain]
  rw [hlog]

theorem buildTrustChain_extends (env : Env) (zone : Name) (s : VState) :
    s.Extends (buildTrustChain env zone s).2 := by
  obtain ⟨htick, -, hlog⟩ := buildTrustChain_frame env zone s
  refine ⟨htick, ?_⟩
  rw [hlog]
  exact List.suffix_cons _ _

theorem buildTrustChain_mem_log (env : Env) (zone : Name) (s : VState) :
    (zone, (buildTrustChain env zone s).1) ∈ (buildTrustChain env zone s).2.chainLog := by
  rw [(buildTrustChain_frame env zone s).2.2]
  exact List.mem_cons_self

/-! ### The DS answers of a walk -/

/-- The answer to the DS question for one zone of a walk. -/
structure DsAnswer where
  zone : Name
  parentKeys : List DNSKEY
  message : Message
  state : VState

/-- The DS answer a step waits for, if it asks. -/
def dsAnswerAt (env : Env) (zone : Name) (parentKeys : Option (List DNSKEY)) (s : VState) :
    Option DsAnswer :=
  match cachedKeys env zone s with
  | (some _, _) => none
  | (none, s) =>
      if zone.isRoot then none
      else
        match parentKeys with
        | none => none
        | some parentKeys =>
            match s.ask env zone .DS with
            | (none, _) => none
            | (some dsMsg, s) => some ⟨zone, parentKeys, dsMsg, s⟩

/-- The DS answers the loop gets on the zones that are left. -/
def dsAnswersFrom (env : Env) :
    List Name → Option (List DNSKEY) → VState → List DsAnswer
  | [], _, _ => []
  | zone :: rest, parentKeys, s =>
      (dsAnswerAt env zone parentKeys s).toList ++
        match chainStep env zone parentKeys s with
        | (.next keys _, s) => dsAnswersFrom env rest (some keys) s
        | (.stop _, _) => []

/-- The DS answers `build_trust_chain` gets. -/
def dsAnswers (env : Env) (targetZone : Name) (s : VState) : List DsAnswer :=
  dsAnswersFrom env (zonePath targetZone) none s

/-! ### The root zone

The key of the first root anchor, and an environment in which it signs everything. -/

def rootKey : DNSKEY := ⟨257, 8,
  [3, 1, 0, 1, 172, 255, 180, 9, 188, 201, 57, 248, 49, 247, 161, 229, 236, 136, 247, 165, 146,
    85, 236, 83, 4, 11, 228, 50, 2, 115, 144, 164, 206, 137, 109, 111, 144, 134, 243, 197, 225,
    119, 251, 254, 17, 129, 99, 170, 236, 122, 241, 70, 44, 71, 148, 89, 68, 196, 226, 192, 38,
    190, 94, 152, 187, 205, 237, 37, 151, 130, 114, 225, 227, 224, 121, 197, 9, 77, 87, 63, 14,
    131, 201, 47, 2, 179, 45, 53, 19, 177, 85, 11, 130, 105, 41, 200, 13, 208, 249, 44, 172, 150,
    109, 23, 118, 159, 213, 134, 123, 100, 124, 63, 56, 2, 154, 189, 196, 129, 82, 235, 143, 32,
    113, 89, 236, 197, 210, 50, 199, 193, 83, 124, 121, 244, 183, 172, 40, 255, 17, 104, 47, 33,
    104, 27, 246, 214, 171, 165, 85, 3, 43, 246, 249, 240, 54, 190, 178, 170, 165, 179, 119, 141,
    110, 235, 251, 166, 191, 158, 161, 145, 190, 74, 176, 202, 234, 117, 158, 47, 119, 58, 31,
    144, 41, 199, 62, 203, 141, 87, 53, 185, 50, 29, 176, 133, 241, 184, 226, 216, 3, 143, 226,
    148, 25, 146, 84, 140, 238, 13, 103, 221, 69, 71, 225, 29, 214, 58, 249, 201, 252, 28, 84,
    102, 251, 104, 76, 240, 9, 215, 25, 124, 44, 247, 158, 121, 42, 181, 1, 230, 168, 161, 202,
    81, 154, 242, 203, 155, 95, 99, 103, 233, 76, 13, 71, 80, 36, 81, 53, 123, 225, 181]⟩

/-- The plain platform with SHA-256 and the key tag as they are on the root key. -/
def rootPlatform : Platform := { Platform.plain with
  calculateKeyTag := fun key => if key = rootKey then some 20326 else none
  sha256 := fun wire =>
    if wire = nameWire .root ++ dnskeyWire rootKey then
      [224, 109, 68, 184, 11, 143, 29, 57, 169, 92, 11, 13, 124, 101, 208, 132, 88, 232, 128, 64,
        155, 188, 104, 52, 87, 16, 66, 55, 199, 248, 236, 141]
    else [] }

/-- The signature of the root over the RRset of `rtype` at `owner`. -/
def rootSigned (owner : Name) (rtype : RecordType) : Record :=
  ⟨owner, .IN, 300,
    .rrsig ⟨rtype, 8, Fin.ofNat 256 owner.numLabels, 300, 100, 0, 20326, .root, [1]⟩⟩

def rootDnskeyAnswer : Message := { Message.new with
  answers := [⟨.root, .IN, 300, .dnskey rootKey⟩, rootSigned .root .DNSKEY] }

/-- The root key is published, at the fixed time 50; all other questions go to `resolve`. -/
def rootEnv (resolve : Name → RecordType → Option Message) : Env where
  platform := rootPlatform
  clock _ := 50
  resolve _ name rtype :=
    if name.isRoot && decide (rtype = .DNSKEY) then some rootDnskeyAnswer else resolve name rtype

/-- A name of one label with one octet. -/
def topName (b : Byte) : Name := ⟨[[b]], by simp [ValidLabels, wireLength]⟩

/-- A record of the root zone. -/
def rootRecord (owner : Name) (data : RData) : Record := ⟨owner, .IN, 300, data⟩

/-- An NSEC record of the root zone. -/
def rootNsec (owner next : Name) (types : List RecordType) : Record :=
  rootRecord owner (.nsec ⟨next, types⟩)

/-- The SOA of the root, two of its NSEC records and their signatures: `.` is followed by `a.` and
`a.` by `.` again. -/
def rootDenial : List Record :=
  [rootRecord .root (.soa []), rootSigned .root .SOA,
    rootNsec .root (topName 97) [.NS, .SOA, .RRSIG, .NSEC, .DNSKEY], rootSigned .root .NSEC,
    rootNsec (topName 97) .root [.A, .RRSIG, .NSEC], rootSigned (topName 97) .NSEC]

/-- The fallback of `compute_key_tag` agrees with the tag of the anchor. -/
example :
    computeKeyTag { Platform.plain with calculateKeyTag := fun _ => none } rootKey = some 20326 := by
  decide +kernel

/-- From empty caches the root is trusted with its own key. -/
example : (buildTrustChain (rootEnv fun _ _ => none) .root .init).1 = .trusted [rootKey] 300 := by
  decide +kernel

end Dnssec
end UnifiedDns
