import UnifiedDns.Dnssec.Redirection
import UnifiedDns.Dnssec.TrustChain

/-!
# Judging a message

The rest of `DnssecValidator`: `validate_message`, its positive and negative pipelines, and the search
for the zone of a name that has no signature.

* `validateRrset` — one RRset of the answer section.
* `validateAnswer` — the redirections from the query name, then the RRset they end at.
* `validateNegative` — the SOA of the authority section, then the denial.
* `isZoneSigned`, `findZoneApex` — what an RRset without a signature means.
* `validateMessage` — the choice between the pipelines by response code.
-/

namespace UnifiedDns
namespace Dnssec

/-- The loop over the SOA owners of a response: the longest one at or above `name`, the first of
these. -/
def bestSoa (name : Name) : List Record → Option Name → Option Name
  | [], best => best
  | rec :: rest, best =>
      if rec.isSoa && (rec.name == name || rec.name.zoneOf name) then
        match best with
        | none => bestSoa name rest (some rec.name)
        | some current =>
            if current.numLabels < rec.name.numLabels then bestSoa name rest (some rec.name)
            else bestSoa name rest best
      else bestSoa name rest best

/-- What the SOA answer for one candidate says of the apex of `name`. -/
def apexFrom (name candidate : Name) (msg : Message) : Option Name :=
  if msg.answers.any fun r => r.name == candidate && decide (r.recordType = .SOA) then
    some candidate
  else if msg.answers.any fun r => r.name == candidate && decide (r.recordType = .CNAME) then
    none
  else bestSoa name (msg.answers ++ msg.nameServers) none

/-- The loop of `find_zone_apex` over the candidates that are left. -/
def findZoneApexFrom (env : Env) (name : Name) : List Name → VState → Option Name × VState
  | [], s => (none, s)
  | candidate :: rest, s =>
      match s.ask env candidate .SOA with
      | (none, s) => findZoneApexFrom env name rest s
      | (some msg, s) =>
          match apexFrom name candidate msg with
          | some zone => (some zone, s)
          | none => findZoneApexFrom env name rest s

/-- `find_zone_apex`. -/
def findZoneApex (env : Env) (name : Name) (s : VState) : Option Name × VState :=
  findZoneApexFrom env name name.ancestors s

/-- The loop of `is_zone_signed` over the table of signed zones. -/
def cachedSignedness (env : Env) (name : Name) : List Name → VState → Option ZoneSignedness × VState
  | [], s => (none, s)
  | cur :: rest, s =>
      match s.signedZoneCache (env.platform.nameKey cur) with
      | none => cachedSignedness env name rest s
      | some entry =>
          let (now, s) := s.readClock env
          if now < entry.expiresAt then
            match entry.signedness with
            | .provenUnsigned => (some .provenUnsigned, s)
            | .signed =>
                if cur == name then (some .signed, s) else cachedSignedness env name rest s
            | .unknown => cachedSignedness env name rest s
          else cachedSignedness env name rest s

/-- The signedness a chain result stands for, with the time to live of the proof. -/
def ChainResult.signedness : ChainResult → ZoneSignedness × Nat
  | .trusted _ ttl => (.signed, ttl)
  | .unsigned ttl => (.provenUnsigned, ttl)
  | .bogus => (.unknown, 0)

/-- Remember what was found out about a zone, unless that was nothing. -/
def storeSignedness (env : Env) (zone : Name) (signedness : ZoneSignedness) (proofTtl : Nat)
    (s : VState) : VState :=
  if signedness = .unknown then s
  else
    let (now, s) := s.readClock env
    let entry : SignedZoneEntry := ⟨signedness, now + min proofTtl 86400⟩
    { s with signedZoneCache := s.signedZoneCache.insert (env.platform.nameKey zone) entry }

/-- `is_zone_signed`. -/
def isZoneSigned (env : Env) (name : Name) (s : VState) : ZoneSignedness × VState :=
  match cachedSignedness env name name.ancestors s with
  | (some signedness, s) => (signedness, s)
  | (none, s) =>
      let (apex, s) := findZoneApex env name s
      let zone := apex.getD (if name.isRoot then .root else name.baseName)
      let (result, s) := buildTrustChain env zone s
      (result.signedness.1,
        storeSignedness env zone result.signedness.1 result.signedness.2 s)

/-- The keys of a trusted zone tried on one signature: `secure`, `bogus` when the budget is spent, or
nothing. -/
def tryKeys (env : Env) (rrsig : RRSIG) (owner : Name) (targetRecords : List Record) :
    List DNSKEY → VState → Option DnssecStatus × VState
  | [], s => (none, s)
  | dnskey :: rest, s =>
      match s.canCheckSig with
      | (false, s) => (some .bogus, s)
      | (true, s) =>
          if keyTagMatches env.platform dnskey rrsig.keyTag then
            match checkRrsig env rrsig dnskey owner targetRecords s with
            | (true, s) => (some .secure, s)
            | (false, s) => tryKeys env rrsig owner targetRecords rest s
          else tryKeys env rrsig owner targetRecords rest s

/-- The loop of `validate_rrset` over the signatures whose time and signer are acceptable. -/
def tryCandidates (env : Env) (owner : Name) (targetRecords : List Record) :
    List RRSIG → Bool → VState → DnssecStatus × VState
  | [], anyTrustedChain, s => (if anyTrustedChain then .bogus else .insecureUnsigned, s)
  | rrsig :: rest, anyTrustedChain, s =>
      match buildTrustChain env rrsig.signerName s with
      | (.trusted keys _, s) =>
          match tryKeys env rrsig owner targetRecords keys s with
          | (some status, s) => (status, s)
          | (none, s) => tryCandidates env owner targetRecords rest true s
      | (.unsigned _, s) => tryCandidates env owner targetRecords rest anyTrustedChain s
      | (.bogus, s) => (.bogus, s)

/-- The status of an RRset without a signature. -/
def ZoneSignedness.unsignedRrset : ZoneSignedness → DnssecStatus
  | .signed => .bogus
  | .provenUnsigned => .insecureUnsigned
  | .unknown => .insecureUnknown

/-- `validate_rrset`. -/
def validateRrset (env : Env) (owner : Name) (rtype : RecordType) (targetRecords allRecords :
    List Record) (s : VState) : DnssecStatus × VState :=
  let rrsigs := coveringRrsigs allRecords owner rtype
  if rrsigs.isEmpty then
    let (signedness, s) := isZoneSigned env owner s
    (signedness.unsignedRrset, s)
  else
    let (now, s) := s.readClock env
    let candidates := rrsigs.filter fun rrsig =>
      rrsigTimeValid rrsig now && (rrsig.signerName.zoneOf owner || rrsig.signerName == owner)
    if candidates.isEmpty then (.bogus, s)
    else tryCandidates env owner targetRecords candidates false s

/-- The RRset of `owner` and `rtype` in the answer section must be there and come out `secure`. -/
def validateHop (env : Env) (owner : Name) (rtype : RecordType) (allRecords : List Record)
    (s : VState) : DnssecStatus × VState :=
  let records := rrset allRecords owner rtype
  if records.isEmpty then (.bogus, s) else validateRrset env owner rtype records allRecords s

/-- One redirection of `validate_answer`. -/
def validateStep (env : Env) (allRecords : List Record) (step : RedirectionStep) (s : VState) :
    DnssecStatus × VState :=
  match step with
  | .cname owner _ => validateHop env owner .CNAME allRecords s
  | .dname dnameOwner _ inputName _ =>
      match validateHop env dnameOwner dnameRecordType allRecords s with
      | (.secure, s) =>
          let synthCnameRecords := rrset allRecords inputName .CNAME
          let hasRrsig := !(coveringRrsigs allRecords inputName .CNAME).isEmpty
          if !synthCnameRecords.isEmpty && hasRrsig then
            validateRrset env inputName .CNAME synthCnameRecords allRecords s
          else (.secure, s)
      | (status, s) => (status, s)

/-- The loop of `validate_answer` over the redirections. -/
def validateSteps (env : Env) (allRecords : List Record) :
    List RedirectionStep → VState → DnssecStatus × VState
  | [], s => (.secure, s)
  | step :: rest, s =>
      match validateStep env allRecords step s with
      | (.secure, s) => validateSteps env allRecords rest s
      | (status, s) => (status, s)

/-- The redirections `validate_answer` follows; a question for a CNAME follows none. -/
def redirections (env : Env) (name : Name) (rtype : RecordType) (allRecords : List Record) :
    RedirectionChainResult :=
  if rtype = .CNAME then .complete [] else collectRedirectionChain env.platform name allRecords

/-- `validate_answer`. -/
def validateAnswer (env : Env) (name : Name) (rtype : RecordType) (allRecords : List Record)
    (s : VState) : DnssecStatus × VState :=
  match redirections env name rtype allRecords with
  | .loop => (.bogus, s)
  | .tooLong => (.bogus, s)
  | .complete chain =>
      match validateSteps env allRecords chain s with
      | (.secure, s) =>
          let owner := finalOwner name chain
          let targetRecords := rrset allRecords owner rtype
          if targetRecords.isEmpty then (.insecureUnknown, s)
          else validateRrset env owner rtype targetRecords allRecords s
      | (status, s) => (status, s)

/-- The name a negative response denies: the target of the last CNAME of the answer section, and the
query name when there is none. -/
def finalTarget (msg : Message) (qname : Name) : Name :=
  match (msg.answers.reverse.find? fun r => decide (r.recordType = .CNAME)) with
  | some r => r.cname?.getD qname
  | none => qname

/-- The SOA record a negative response is judged by. -/
def denialSoa (msg : Message) : Option Record := msg.nameServers.find? Record.isSoa

/-- The SOA owner stands above neither the denied name nor the query name. -/
def foreignSoa (zone target qname : Name) : Bool :=
  !zone.zoneOf target && zone != target && !zone.zoneOf qname && zone != qname

/-- The denial of a negative response whose SOA has been verified. -/
def validateDenial (env : Env) (keys : List DNSKEY) (target : Name) (qtype : RecordType)
    (authority : List Record) (s : VState) : DnssecStatus × VState :=
  if authority.any fun r => decide (r.recordType = .NSEC3) then
    validateNsec3 env keys target qtype authority s
  else if authority.any fun r => decide (r.recordType = .NSEC) then
    validateNsec env keys target qtype authority s
  else (.bogus, s)

/-- `validate_negative`. -/
def validateNegative (env : Env) (msg : Message) (qname : Name) (qtype : RecordType)
    (s : VState) : DnssecStatus × VState :=
  match denialSoa msg with
  | none => (.insecureUnknown, s)
  | some soaRec =>
      let zone := soaRec.name
      let target := finalTarget msg qname
      if foreignSoa zone target qname then (.bogus, s)
      else
        match buildTrustChain env zone s with
        | (.unsigned _, s) => (.insecureUnsigned, s)
        | (.bogus, s) => (.bogus, s)
        | (.trusted keys _, s) =>
            match verifyNegativeRrset env soaRec msg.nameServers keys s with
            | (false, s) => (.bogus, s)
            | (true, s) => validateDenial env keys target qtype msg.nameServers s

/-- `validate_message_with_budget`. -/
def validateMessageWithBudget (env : Env) (msg : Message) (qname : Name) (qtype : RecordType)
    (s : VState) : DnssecStatus × VState :=
  match msg.responseCode with
  | .nxDomain => validateNegative env msg qname qtype s
  | .noError =>
      if msg.answers.isEmpty then validateNegative env msg qname qtype s
      else validateAnswer env qname qtype msg.answers s
  | _ => (.insecureUnknown, s)

/-- `validate_message`: the same with a fresh budget. -/
def validateMessage (env : Env) (msg : Message) (qname : Name) (qtype : RecordType)
    (s : VState) : DnssecStatus × VState :=
  validateMessageWithBudget env msg qname qtype { s with budget := .default }

/-! ### Every function moves on -/

/-- Every zone the table calls unsigned has a logged chain that ended in `unsigned`. -/
def UnsignedBacked (env : Env) (s : VState) : Prop :=
  ∀ key entry, s.signedZoneCache key = some entry → entry.signedness = .provenUnsigned →
    ∃ zone ttl, env.platform.nameKey zone = key ∧ (zone, ChainResult.unsigned ttl) ∈ s.chainLog

theorem UnsignedBacked.mono {env : Env} {s s' : VState} (h : UnsignedBacked env s)
    (hextends : s.Extends s') (htable : s'.signedZoneCache = s.signedZoneCache) :
    UnsignedBacked env s' := by
  intro key entry hentry hunsigned
  rw [htable] at hentry
  obtain ⟨zone, ttl, hkey, hmem⟩ := h key entry hentry hunsigned
  exact ⟨zone, ttl, hkey, hextends.mem hmem⟩

theorem storeSignedness_extends (env : Env) (zone : Name) (signedness : ZoneSignedness)
    (proofTtl : Nat) (s : VState) :
    s.Extends (storeSignedness env zone signedness proofTtl s) := by
  unfold storeSignedness
  split
  · exact VState.Extends.refl s
  · exact ⟨Nat.le_succ _, List.suffix_rfl⟩

/-- A zone is stored as proven unsigned after its chain has ended so. -/
theorem UnsignedBacked.store {env : Env} {zone : Name} {signedness : ZoneSignedness}
    {proofTtl : Nat} {s : VState} (h : UnsignedBacked env s)
    (hlog : signedness = .provenUnsigned → ∃ ttl, (zone, ChainResult.unsigned ttl) ∈ s.chainLog) :
    UnsignedBacked env (storeSignedness env zone signedness proofTtl s) := by
  unfold storeSignedness
  split
  · exact h
  · intro key entry hentry hunsigned
    rcases TextMap.insert_eq_some hentry with ⟨hkey, hnew⟩ | hold
    · rw [hnew] at hunsigned
      obtain ⟨ttl, hmem⟩ := hlog hunsigned
      exact ⟨zone, ttl, hkey.symm, hmem⟩
    · exact h key entry hold hunsigned

/-- What the functions of the validator do to the state, one after another: they count events and spend
the budget, walk a chain of trust, or remember what a finished walk said of a zone. -/
inductive Progress (env : Env) : VState → VState → Prop
  | same {s s' : VState} (h : s.SameTables s') : Progress env s s'
  | chain (zone : Name) (s : VState) : Progress env s (buildTrustChain env zone s).2
  | store {zone : Name} {signedness : ZoneSignedness} {proofTtl : Nat} {s : VState}
      (hlog : signedness = .provenUnsigned → ∃ ttl, (zone, ChainResult.unsigned ttl) ∈ s.chainLog) :
      Progress env s (storeSignedness env zone signedness proofTtl s)
  | trans {a b c : VState} (hab : Progress env a b) (hbc : Progress env b c) : Progress env a c

namespace Progress

theorem refl (env : Env) (s : VState) : Progress env s s := .same (VState.SameTables.refl s)

theorem toExtends {env : Env} {s s' : VState} (h : Progress env s s') : s.Extends s' := by
  induction h with
  | same h => exact h.extends
  | chain zone s => exact buildTrustChain_extends env zone s
  | store hlog => exact storeSignedness_extends env _ _ _ _
  | trans _ _ ihab ihbc => exact ihab.trans ihbc

/-- The table of signed zones stays backed by the log. -/
theorem backed {env : Env} {s s' : VState} (h : Progress env s s') (hbacked : UnsignedBacked env s) :
    UnsignedBacked env s' := by
  induction h with
  | same h =>
      exact hbacked.mono h.extends h.signedZoneCache_eq
  | chain zone s =>
      exact hbacked.mono (buildTrustChain_extends env zone s) (buildTrustChain_frame env zone s).2.1
  | store hlog => exact hbacked.store hlog
  | trans _ _ ihab ihbc => exact ihbc (ihab hbacked)

end Progress

theorem findZoneApexFrom_closed {env : Env} {R : VState → VState → Prop} (hR : ReadClosed env R)
    (name : Name) (candidates : List Name) (s : VState) :
    R s (findZoneApexFrom env name candidates s).2 := by
  induction candidates generalizing s with
  | nil => exact hR.refl s
  | cons candidate rest ih =>
      have hask := hR.ask candidate .SOA s
      simp only [findZoneApexFrom]
      split
      · rename_i heq
        rw [heq] at hask
        exact hR.trans hask (ih _)
      · rename_i heq
        rw [heq] at hask
        split
        · exact hask
        · exact hR.trans hask (ih _)

theorem findZoneApexFrom_sameTables (env : Env) (name : Name) (candidates : List Name)
    (s : VState) : s.SameTables (findZoneApexFrom env name candidates s).2 :=
  findZoneApexFrom_closed (VState.SameTables.readClosed env) name candidates s

theorem cachedSignedness_closed {env : Env} {R : VState → VState → Prop} (hR : ReadClosed env R)
    (name : Name) (names : List Name) (s : VState) : R s (cachedSignedness env name names s).2 := by
  induction names generalizing s with
  | nil => exact hR.refl s
  | cons cur rest ih =>
      have hclock := hR.clock s
      simp only [cachedSignedness]
      split
      · exact ih s
      · split
        · split
          · exact hclock
          · split
            · exact hclock
            · exact hR.trans hclock (ih _)
          · exact hR.trans hclock (ih _)
        · exact hR.trans hclock (ih _)

theorem cachedSignedness_sameTables (env : Env) (name : Name) (names : List Name) (s : VState) :
    s.SameTables (cachedSignedness env name names s).2 :=
  cachedSignedness_closed (VState.SameTables.readClosed env) name names s

theorem bestSoa_zoneOf {name zone : Name} {records : List Record} {best : Option Name}
    (hbest : ∀ b, best = some b → b.zoneOf name = true)
    (h : bestSoa name records best = some zone) : zone.zoneOf name = true := by
  induction records generalizing best with
  | nil => exact hbest zone h
  | cons rec rest ih =>
      simp only [bestSoa] at h
      split at h
      · rename_i hcond
        have habove : rec.name.zoneOf name = true := by
          simp only [Bool.and_eq_true, Bool.or_eq_true] at hcond
          rcases hcond.2 with heq | hzone
          · rw [Name.zoneOf_iff, Name.beq_iff_path.mp heq]
          · exact hzone
        have hnew : ∀ b, some rec.name = some b → b.zoneOf name = true := by
          intro b hb
          cases hb
          exact habove
        split at h
        · exact ih hnew h
        · split at h
          · exact ih hnew h
          · exact ih hbest h
      · exact ih hbest h

theorem apexFrom_zoneOf {name candidate zone : Name} {msg : Message}
    (hcandidate : candidate.zoneOf name = true) (h : apexFrom name candidate msg = some zone) :
    zone.zoneOf name = true := by
  unfold apexFrom at h
  split at h
  · cases h
    exact hcandidate
  · split at h
    · cases h
    · exact bestSoa_zoneOf (by simp) h

theorem findZoneApexFrom_zoneOf {env : Env} {name zone : Name} {candidates : List Name}
    {s : VState} (hcandidates : ∀ candidate ∈ candidates, candidate.zoneOf name = true)
    (h : (findZoneApexFrom env name candidates s).1 = some zone) : zone.zoneOf name = true := by
  induction candidates generalizing s with
  | nil => cases h
  | cons candidate rest ih =>
      obtain ⟨hcandidate, hrest⟩ := List.forall_mem_cons.mp hcandidates
      simp only [findZoneApexFrom] at h
      split at h
      · exact ih hrest h
      · split at h
        · rename_i hapex
          cases h
          exact apexFrom_zoneOf hcandidate hapex
        · exact ih hrest h

/-- The zone `is_zone_signed` asks the chain of stands at or above the name. -/
theorem signedZone_zoneOf (env : Env) (name : Name) (s : VState) :
    ((findZoneApex env name s).1.getD
      (if name.isRoot then .root else name.baseName)).zoneOf name = true := by
  cases hapex : (findZoneApex env name s).1 with
  | some zone => exact findZoneApexFrom_zoneOf (fun _ => Name.mem_ancestors) hapex
  | none =>
      show Name.zoneOf (if name.isRoot then Name.root else name.baseName) name = true
      split
      · simp [Name.zoneOf_iff]
      · exact Name.baseName_zoneOf name

/-- The signedness of a name comes from the table, or from the chain of a zone at or above the name. -/
theorem isZoneSigned_cases (env : Env) (name : Name) (s : VState) :
    (∃ signedness, (cachedSignedness env name name.ancestors s).1 = some signedness ∧
      isZoneSigned env name s =
        (signedness, (cachedSignedness env name name.ancestors s).2)) ∨
    ∃ zone s₁, zone.zoneOf name = true ∧ s.SameTables s₁ ∧
      isZoneSigned env name s =
        ((buildTrustChain env zone s₁).1.signedness.1,
          storeSignedness env zone (buildTrustChain env zone s₁).1.signedness.1
            (buildTrustChain env zone s₁).1.signedness.2 (buildTrustChain env zone s₁).2) := by
  have hcached := cachedSignedness_sameTables env name name.ancestors s
  unfold isZoneSigned
  split
  · rename_i signedness s₁ heq
    exact Or.inl ⟨signedness, by rw [heq], by rw [heq]⟩
  · rename_i s₁ heq
    rw [heq] at hcached
    have hapex := findZoneApexFrom_sameTables env name name.ancestors s₁
    exact Or.inr ⟨_, _, signedZone_zoneOf env name s₁, hcached.trans hapex, rfl⟩

theorem isZoneSigned_progress (env : Env) (name : Name) (s : VState) :
    Progress env s (isZoneSigned env name s).2 := by
  rcases isZoneSigned_cases env name s with ⟨signedness, -, heq⟩ | ⟨zone, s₁, -, htables, heq⟩
  · rw [heq]
    exact .same (cachedSignedness_sameTables env name name.ancestors s)
  · rw [heq]
    refine ((Progress.same htables).trans (.chain zone s₁)).trans (.store fun hunsigned => ?_)
    -- Only the result `unsigned` stands for a zone that is proven unsigned.
    have hmem := buildTrustChain_mem_log env zone s₁
    cases hresult : (buildTrustChain env zone s₁).1 with
    | trusted keys ttl => simp [hresult, ChainResult.signedness] at hunsigned
    | unsigned ttl =>
        rw [hresult] at hmem
        exact ⟨ttl, hmem⟩
    | bogus => simp [hresult, ChainResult.signedness] at hunsigned

theorem tryKeys_closed {env : Env} {R : VState → VState → Prop} (hR : ReadClosed env R)
    (rrsig : RRSIG) (owner : Name) (targetRecords : List Record) (keys : List DNSKEY) (s : VState) :
    R s (tryKeys env rrsig owner targetRecords keys s).2 := by
  induction keys generalizing s with
  | nil => exact hR.refl s
  | cons dnskey rest ih =>
      have hspend := hR.spend s
      have hcheck := hR.check rrsig dnskey owner targetRecords s
      simp only [tryKeys]
      split
      · rename_i heq
        rw [heq] at hspend
        exact hspend
      · rename_i s₁ heq
        rw [heq] at hspend hcheck
        have hcheck := hcheck rfl
        split
        · split
          · rename_i heq₂
            rw [heq₂] at hcheck
            exact hcheck
          · rename_i heq₂
            rw [heq₂] at hcheck
            exact hR.trans hcheck (ih _)
        · exact hR.trans hspend (ih s₁)

theorem tryKeys_sameTables (env : Env) (rrsig : RRSIG) (owner : Name)
    (targetRecords : List Record) (keys : List DNSKEY) (s : VState) :
    s.SameTables (tryKeys env rrsig owner targetRecords keys s).2 :=
  tryKeys_closed (VState.SameTables.readClosed env) rrsig owner targetRecords keys s

/-- A relation that a validation keeps: it also walks chains of trust and asks what an RRset without
a signature means. -/
structure RunClosed (env : Env) (R : VState → VState → Prop) : Prop extends ReadClosed env R where
  chain (zone : Name) (s : VState) : R s (buildTrustChain env zone s).2
  zoneSigned (name : Name) (s : VState) : R s (isZoneSigned env name s).2

theorem Progress.runClosed (env : Env) : RunClosed env (Progress env) where
  refl := Progress.refl env
  trans := Progress.trans
  clock s := .same (VState.readClock_sameTables env s)
  ask name rtype s := .same (VState.ask_sameTables env name rtype s)
  spend s := .same s.canCheckSig_sameTables
  check rrsig key owner records s hpaid :=
    .same ((VState.SameTables.readClosed env).check rrsig key owner records s hpaid)
  chain := Progress.chain
  zoneSigned := isZoneSigned_progress env

theorem tryCandidates_closed {env : Env} {R : VState → VState → Prop} (hR : RunClosed env R)
    (owner : Name) (targetRecords : List Record) (candidates : List RRSIG)
    (anyTrustedChain : Bool) (s : VState) :
    R s (tryCandidates env owner targetRecords candidates anyTrustedChain s).2 := by
  induction candidates generalizing anyTrustedChain s with
  | nil => exact hR.refl s
  | cons rrsig rest ih =>
      have hchain := hR.chain rrsig.signerName s
      simp only [tryCandidates]
      split
      · rename_i keys _ s₁ heq
        rw [heq] at hchain
        have hkeys := tryKeys_closed hR.toReadClosed rrsig owner targetRecords keys s₁
        split
        · rename_i heq₂
          rw [heq₂] at hkeys
          exact hR.trans hchain hkeys
        · rename_i heq₂
          rw [heq₂] at hkeys
          exact hR.trans (hR.trans hchain hkeys) (ih _ _)
      · rename_i heq
        rw [heq] at hchain
        exact hR.trans hchain (ih _ _)
      · rename_i heq
        rw [heq] at hchain
        exact hchain

theorem tryCandidates_progress (env : Env) (owner : Name) (targetRecords : List Record)
    (candidates : List RRSIG) (anyTrustedChain : Bool) (s : VState) :
    Progress env s (tryCandidates env owner targetRecords candidates anyTrustedChain s).2 :=
  tryCandidates_closed (Progress.runClosed env) owner targetRecords candidates anyTrustedChain s

theorem validateRrset_closed {env : Env} {R : VState → VState → Prop} (hR : RunClosed env R)
    (owner : Name) (rtype : RecordType) (targetRecords allRecords : List Record) (s : VState) :
    R s (validateRrset env owner rtype targetRecords allRecords s).2 := by
  simp only [validateRrset]
  split
  · exact hR.zoneSigned owner s
  · have hclock := hR.clock s
    split
    · exact hclock
    · exact hR.trans hclock (tryCandidates_closed hR owner targetRecords _ false _)

theorem validateRrset_progress (env : Env) (owner : Name) (rtype : RecordType)
    (targetRecords allRecords : List Record) (s : VState) :
    Progress env s (validateRrset env owner rtype targetRecords allRecords s).2 :=
  validateRrset_closed (Progress.runClosed env) owner rtype targetRecords allRecords s

theorem validateHop_closed {env : Env} {R : VState → VState → Prop} (hR : RunClosed env R)
    (owner : Name) (rtype : RecordType) (allRecords : List Record) (s : VState) :
    R s (validateHop env owner rtype allRecords s).2 := by
  simp only [validateHop]
  split
  · exact hR.refl s
  · exact validateRrset_closed hR owner rtype _ allRecords s

theorem validateHop_progress (env : Env) (owner : Name) (rtype : RecordType)
    (allRecords : List Record) (s : VState) :
    Progress env s (validateHop env owner rtype allRecords s).2 :=
  validateHop_closed (Progress.runClosed env) owner rtype allRecords s

theorem validateStep_closed {env : Env} {R : VState → VState → Prop} (hR : RunClosed env R)
    (allRecords : List Record) (step : RedirectionStep) (s : VState) :
    R s (validateStep env allRecords step s).2 := by
  cases step with
  | cname owner target => exact validateHop_closed hR owner .CNAME allRecords s
  | dname dnameOwner target inputName redirectedName =>
      have hhop := validateHop_closed hR dnameOwner dnameRecordType allRecords s
      simp only [validateStep]
      split
      · rename_i heq
        rw [heq] at hhop
        split
        · exact hR.trans hhop (validateRrset_closed hR inputName .CNAME _ allRecords _)
        · exact hhop
      · rename_i heq
        rw [heq] at hhop
        exact hhop

theorem validateStep_progress (env : Env) (allRecords : List Record) (step : RedirectionStep)
    (s : VState) : Progress env s (validateStep env allRecords step s).2 :=
  validateStep_closed (Progress.runClosed env) allRecords step s

theorem validateSteps_closed {env : Env} {R : VState → VState → Prop} (hR : RunClosed env R)
    (allRecords : List Record) (chain : List RedirectionStep) (s : VState) :
    R s (validateSteps env allRecords chain s).2 := by
  induction chain generalizing s with
  | nil => exact hR.refl s
  | cons step rest ih =>
      have hstep := validateStep_closed hR allRecords step s
      simp only [validateSteps]
      split
      · rename_i heq
        rw [heq] at hstep
        exact hR.trans hstep (ih _)
      · rename_i heq
        rw [heq] at hstep
        exact hstep

theorem validateSteps_progress (env : Env) (allRecords : List Record)
    (chain : List RedirectionStep) (s : VState) :
    Progress env s (validateSteps env allRecords chain s).2 :=
  validateSteps_closed (Progress.runClosed env) allRecords chain s

theorem validateAnswer_closed {env : Env} {R : VState → VState → Prop} (hR : RunClosed env R)
    (name : Name) (rtype : RecordType) (allRecords : List Record) (s : VState) :
    R s (validateAnswer env name rtype allRecords s).2 := by
  unfold validateAnswer
  split
  · exact hR.refl s
  · exact hR.refl s
  · rename_i chain _
    have hsteps := validateSteps_closed hR allRecords chain s
    split
    · rename_i heq
      rw [heq] at hsteps
      simp only
      split
      · exact hsteps
      · exact hR.trans hsteps (validateRrset_closed hR _ rtype _ allRecords _)
    · rename_i heq
      rw [heq] at hsteps
      exact hsteps

theorem validateDenial_closed {env : Env} {R : VState → VState → Prop} (hR : ReadClosed env R)
    (keys : List DNSKEY) (target : Name) (qtype : RecordType) (authority : List Record)
    (s : VState) : R s (validateDenial env keys target qtype authority s).2 := by
  unfold validateDenial
  split
  · exact validateNsec3_closed hR keys target qtype authority s
  · split
    · exact validateNsec_closed hR keys target qtype authority s
    · exact hR.refl s

theorem validateDenial_sameTables (env : Env) (keys : List DNSKEY) (target : Name)
    (qtype : RecordType) (authority : List Record) (s : VState) :
    s.SameTables (validateDenial env keys target qtype authority s).2 :=
  validateDenial_closed (VState.SameTables.readClosed env) keys target qtype authority s

theorem validateNegative_closed {env : Env} {R : VState → VState → Prop} (hR : RunClosed env R)
    (msg : Message) (qname : Name) (qtype : RecordType) (s : VState) :
    R s (validateNegative env msg qname qtype s).2 := by
  unfold validateNegative
  split
  · exact hR.refl s
  · rename_i soaRec _
    have hchain := hR.chain soaRec.name s
    simp only
    split
    · exact hR.refl s
    · split
      · rename_i heq
        rw [heq] at hchain
        exact hchain
      · rename_i heq
        rw [heq] at hchain
        exact hchain
      · rename_i keys _ s₁ heq
        rw [heq] at hchain
        have hsoa := verifyNegativeRrset_closed hR.toReadClosed soaRec msg.nameServers keys s₁
        split
        · rename_i heq₂
          rw [heq₂] at hsoa
          exact hR.trans hchain hsoa
        · rename_i s₂ heq₂
          rw [heq₂] at hsoa
          have hdenial := validateDenial_closed hR.toReadClosed keys (finalTarget msg qname) qtype
            msg.nameServers s₂
          exact hR.trans hchain (hR.trans hsoa hdenial)

theorem validateMessageWithBudget_closed {env : Env} {R : VState → VState → Prop}
    (hR : RunClosed env R) (msg : Message) (qname : Name) (qtype : RecordType) (s : VState) :
    R s (validateMessageWithBudget env msg qname qtype s).2 := by
  unfold validateMessageWithBudget
  split
  · exact validateNegative_closed hR msg qname qtype s
  · split
    · exact validateNegative_closed hR msg qname qtype s
    · exact validateAnswer_closed hR qname qtype msg.answers s
  · exact hR.refl s

theorem validateMessage_progress (env : Env) (msg : Message) (qname : Name)
    (qtype : RecordType) (s : VState) :
    Progress env s (validateMessage env msg qname qtype s).2 := by
  have hfresh : Progress env s { s with budget := .default } :=
    .same ⟨le_rfl, rfl, rfl, rfl⟩
  exact hfresh.trans
    (validateMessageWithBudget_closed (Progress.runClosed env) msg qname qtype _)

end Dnssec
end UnifiedDns
