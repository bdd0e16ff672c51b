import UnifiedDns.Dnssec.AnswerSection

/-!
# A signed DNAME with the CNAME made of it

A server that redirects by DNAME also sends the CNAME it made of it, unsigned, and the resolver adds
that CNAME itself when it follows the DNAME.  `collect_redirection_chain` looks for a CNAME first, so
`validate_answer` judges the synthesized record like any other CNAME.

* `DnameAnswer` — an answer section that consists of a signed DNAME RRset, the synthesized CNAME and a
  signed RRset at the new name.
* `validateAnswer_of_unsigned_cname` — an unsigned CNAME at the query name decides the verdict.
* `validateAnswer_dname_not_secure` — no such section is ever secure.
-/

namespace UnifiedDns
namespace Dnssec

/-- One of the signatures over the RRset is good under a key of its signer's trusted chain, at
whatever time of the validation it is looked at. -/
def VerifiesUnderTrust (env : Env) (records : List Record) (owner : Name) (rtype : RecordType)
    (s : VState) : Prop :=
  ∃ rrsig ∈ coveringRrsigs records owner rtype, ∃ keys ttl, ∃ key ∈ keys,
    (buildTrustChain env rrsig.signerName s).1 = .trusted keys ttl ∧
      ∀ tick, s.tick ≤ tick →
        verifyRrsig env.platform (env.clock tick) rrsig key owner (rrset records owner rtype) = true

/-- The kinds of records in the answer to a question that a DNAME redirects. -/
inductive DnameAnswerRecord (name owner target redirected : Name) (rtype : RecordType)
    (r : Record) : Prop
  | dname (howner : r.name.path = owner.path) (htarget : extractDnameTarget r = some target)
  | dnameRrsig (howner : r.name.path = owner.path) (sig : RRSIG) (hdata : r.data = .rrsig sig)
      (hcovered : sig.typeCovered = dnameRecordType)
  | synthesized (howner : r.name.path = name.path) (hdata : r.data = .cname redirected)
  | final (howner : r.name.path = redirected.path) (htype : r.recordType = rtype)
  | finalRrsig (howner : r.name.path = redirected.path) (sig : RRSIG) (hdata : r.data = .rrsig sig)
      (hcovered : sig.typeCovered = rtype)

/-- The answer section of a signed DNAME redirection: the DNAME at `owner` above `name`, the unsigned
CNAME it makes of `name`, and the RRset of the requested type at the new name. -/
structure DnameAnswer (env : Env) (name owner target redirected : Name) (rtype : RecordType)
    (records : List Record) (s : VState) : Prop where
  above : owner.zoneOf name = true
  proper : owner.path ≠ name.path
  substituted : dnameSubstitute env.platform name owner target = .ok redirected
  consists : ∀ r ∈ records, DnameAnswerRecord name owner target redirected rtype r
  dname : ∃ r ∈ records, r.name.path = owner.path ∧ extractDnameTarget r = some target
  synthesized : ∃ r ∈ records, r.name.path = name.path ∧ r.data = .cname redirected
  unsigned : coveringRrsigs records name .CNAME = []
  final : ∃ r ∈ records, r.name.path = redirected.path ∧ r.recordType = rtype
  dname_verifies : VerifiesUnderTrust env records owner dnameRecordType s
  final_verifies : VerifiesUnderTrust env records redirected rtype s

/-- `validate_rrset` accepts the DNAME RRset and then, with the budget that is left, the final
RRset. -/
def BudgetSuffices (env : Env) (owner redirected : Name) (rtype : RecordType)
    (records : List Record) (s : VState) : Prop :=
  (validateHop env owner dnameRecordType records s).1 = .secure ∧
    (validateHop env redirected rtype records
      (validateHop env owner dnameRecordType records s).2).1 = .secure

theorem cnameTargetAt_isSome {records : List Record} {current : Name} {r : Record} {target : Name}
    (hr : r ∈ records) (howner : r.name.path = current.path) (hdata : r.data = .cname target) :
    ∃ first, cnameTargetAt records current = some first := by
  rw [← Option.isSome_iff_exists, cnameTargetAt, List.findSome?_isSome_iff]
  have htype : r.recordType = .CNAME := by rw [Record.recordType, hdata, RData.recordType]
  have hcname : r.cname? = some target := by rw [Record.cname?, hdata]
  exact ⟨r, hr, Option.isSome_iff_exists.mpr ⟨target, cnameOf_eq_some.mpr ⟨howner, htype, hcname⟩⟩⟩

/-- An RRset without a signature is never secure. -/
theorem validateRrset_of_unsigned {env : Env} {owner : Name} {rtype : RecordType}
    {targetRecords records : List Record} (s : VState)
    (hunsigned : coveringRrsigs records owner rtype = []) :
    (validateRrset env owner rtype targetRecords records s).1 =
      (isZoneSigned env owner s).1.unsignedRrset := by
  simp [validateRrset, hunsigned]

theorem ZoneSignedness.unsignedRrset_ne_secure (signedness : ZoneSignedness) :
    signedness.unsignedRrset ≠ .secure := by
  cases signedness <;> simp [ZoneSignedness.unsignedRrset]

/-- A CNAME record at the query name is the first redirection, whatever DNAME stands above it. -/
theorem redirections_of_cname {env : Env} {name target : Name} {rtype : RecordType}
    {records : List Record} {chain : List RedirectionStep} (hrtype : rtype ≠ .CNAME)
    (htarget : cnameTargetAt records name = some target)
    (hchain : redirections env name rtype records = .complete chain) :
    ∃ rest, chain = .cname name target :: rest := by
  rw [redirections, if_neg hrtype, collectRedirectionChain, maxCnameChain,
    collectRedirectionChainFrom, if_neg (by simp)] at hchain
  simp only [htarget] at hchain
  obtain ⟨rest, -, hcons⟩ := RedirectionChainResult.cons_eq_complete hchain
  exact ⟨rest, hcons⟩

/-- A redirection that is not secure ends the loop with its status. -/
theorem validateSteps_of_not_secure {env : Env} {records : List Record} {step : RedirectionStep}
    {rest : List RedirectionStep} {s : VState}
    (hstep : (validateStep env records step s).1 ≠ .secure) :
    (validateSteps env records (step :: rest) s).1 = (validateStep env records step s).1 := by
  rcases hresult : validateStep env records step s with ⟨status, s₁⟩
  rw [hresult] at hstep
  simp only [validateSteps, hresult]

theorem validateAnswer_of_not_secure {env : Env} {name : Name} {rtype : RecordType}
    {records : List Record} {chain : List RedirectionStep} {s : VState}
    (hchain : redirections env name rtype records = .complete chain)
    (hsteps : (validateSteps env records chain s).1 ≠ .secure) :
    (validateAnswer env name rtype records s).1 = (validateSteps env records chain s).1 := by
  rcases hresult : validateSteps env records chain s with ⟨status, s₁⟩
  rw [hresult] at hsteps
  simp only [validateAnswer, hchain, hresult]

/-- An unsigned CNAME at the query name decides: the verdict is `bogus`, or what an RRset without a
signature gets there. -/
theorem validateAnswer_of_unsigned_cname {env : Env} {name : Name} {rtype : RecordType}
    {records : List Record} (s : VState) (hrtype : rtype ≠ .CNAME)
    (hcname : ∃ r ∈ records, ∃ target, r.name.path = name.path ∧ r.data = .cname target)
    (hunsigned : coveringRrsigs records name .CNAME = []) :
    (validateAnswer env name rtype records s).1 = .bogus ∨
      (validateAnswer env name rtype records s).1 =
        (isZoneSigned env name s).1.unsignedRrset := by
  obtain ⟨r, hr, target, howner, hdata⟩ := hcname
  obtain ⟨first, hfirst⟩ := cnameTargetAt_isSome hr howner hdata
  have htype : r.recordType = .CNAME := by rw [Record.recordType, hdata, RData.recordType]
  have hstep : (validateStep env records (.cname name first) s).1 =
      (isZoneSigned env name s).1.unsignedRrset := by
    have hrecords : rrset records name .CNAME ≠ [] :=
      List.ne_nil_of_mem (mem_rrset.mpr ⟨hr, howner, htype⟩)
    rw [validateStep, validateHop, if_neg (by simpa using hrecords)]
    exact validateRrset_of_unsigned s hunsigned
  cases hchain : redirections env name rtype records with
  | loop => exact Or.inl (by simp [validateAnswer, hchain])
  | tooLong => exact Or.inl (by simp [validateAnswer, hchain])
  | complete chain =>
      obtain ⟨rest, rfl⟩ := redirections_of_cname hrtype hfirst hchain
      have hne : (validateStep env records (.cname name first) s).1 ≠ .secure := by
        rw [hstep]
        exact ZoneSignedness.unsignedRrset_ne_secure _
      have hsteps : (validateSteps env records (.cname name first :: rest) s).1 = _ :=
        validateSteps_of_not_secure hne
      refine Or.inr ?_
      rw [validateAnswer_of_not_secure hchain (by rwa [hsteps]), hsteps, hstep]

/-- **A signed DNAME redirection never validates.**  For every answer section of that form, whatever
the budget, the verdict is not `secure`. -/
theorem validateAnswer_dname_not_secure {env : Env} {name owner target redirected : Name}
    {rtype : RecordType} {records : List Record} {s : VState} (hrtype : rtype ≠ .CNAME)
    (hanswer : DnameAnswer env name owner target redirected rtype records s) :
    (validateAnswer env name rtype records s).1 ≠ .secure := by
  obtain ⟨r, hr, howner, hdata⟩ := hanswer.synthesized
  rcases validateAnswer_of_unsigned_cname s hrtype ⟨r, hr, redirected, howner, hdata⟩
    hanswer.unsigned with hbogus | hunsigned
  · rw [hbogus]
    simp
  · rw [hunsigned]
    exact ZoneSignedness.unsignedRrset_ne_secure _

/-! ### A DNAME of the root zone -/

/-- The name `c.a.` -/
def belowA : Name := ⟨[[99], [97]], by decide⟩

/-- The name `c.b.` -/
def belowB : Name := ⟨[[99], [98]], by decide⟩

/-- `a. DNAME b.` with its signature, the CNAME of `c.a.` and the signed address of `c.b.` -/
def dnameSection : List Record :=
  [rootRecord (topName 97) (.other dnameRecordType [1, 98, 0]),
    rootSigned (topName 97) dnameRecordType, rootRecord belowA (.cname belowB),
    rootRecord belowB (.a ⟨1, 2, 3, 4⟩), rootSigned belowB .A]

/-- The root zone answers for its SOA. -/
def rootSoaEnv : Env := rootEnv fun _ rtype =>
  if rtype = .SOA then some { Message.new with nameServers := [rootRecord .root (.soa [])] }
  else none

/-- The root is trusted with the key that signed the section. -/
theorem rootSoaEnv_chain : (buildTrustChain rootSoaEnv .root .init).1 = .trusted [rootKey] 300 := by
  decide +kernel

theorem dnameSection_answer :
    DnameAnswer rootSoaEnv belowA (topName 97) (topName 98) belowB .A dnameSection .init where
  above := by decide
  proper := by decide
  substituted := by rfl
  consists := by
    simp only [dnameSection, List.forall_mem_cons]
    refine ⟨.dname rfl rfl, .dnameRrsig rfl _ rfl rfl, .synthesized rfl rfl, .final rfl rfl,
      .finalRrsig rfl _ rfl rfl, by simp⟩
  dname := ⟨_, List.mem_cons_self, rfl, by rfl⟩
  synthesized := ⟨rootRecord belowA (.cname belowB), by simp [dnameSection], rfl, rfl⟩
  unsigned := by decide
  final := ⟨rootRecord belowB (.a ⟨1, 2, 3, 4⟩), by simp [dnameSection], rfl, rfl⟩
  dname_verifies := by
    refine ⟨_, mem_coveringRrsigs.mpr ⟨rootSigned (topName 97) dnameRecordType,
      by simp [dnameSection], rfl, rfl, rfl⟩, [rootKey], 300, rootKey, List.mem_singleton_self _,
      rootSoaEnv_chain, fun _ _ => ?_⟩
    show verifyRrsig rootPlatform 50 _ _ _ _ = true
    decide +kernel
  final_verifies := by
    refine ⟨_, mem_coveringRrsigs.mpr ⟨rootSigned belowB .A, by simp [dnameSection], rfl, rfl, rfl⟩,
      [rootKey], 300, rootKey, List.mem_singleton_self _, rootSoaEnv_chain, fun _ _ => ?_⟩
    show verifyRrsig rootPlatform 50 _ _ _ _ = true
    decide +kernel

/-- Each signed part is accepted on its own, the whole is not. -/
theorem signed_dname_bogus :
    ¬ ∀ (env : Env) (name owner target redirected : Name) (rtype : RecordType)
        (records : List Record) (s : VState), rtype ≠ .CNAME →
        DnameAnswer env name owner target redirected rtype records s →
        BudgetSuffices env owner redirected rtype records s →
        (validateAnswer env name rtype records s).1 = .secure := by
  intro hclaim
  have hbudget : BudgetSuffices rootSoaEnv (topName 97) belowB .A dnameSection .init := by
    constructor <;> decide +kernel
  have hsecure := hclaim rootSoaEnv belowA (topName 97) (topName 98) belowB .A dnameSection .init
    (by decide) dnameSection_answer hbudget
  have hbogus : (validateAnswer rootSoaEnv belowA .A dnameSection .init).1 = .bogus := by
    decide +kernel
  rw [hbogus] at hsecure
  cases hsecure

theorem validateAnswer_dname_not_secure_root :
    (validateAnswer rootSoaEnv belowA .A dnameSection .init).1 ≠ .secure :=
  validateAnswer_dname_not_secure (by decide) dnameSection_answer

end Dnssec
end UnifiedDns
