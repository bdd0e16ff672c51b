import UnifiedDns.Dnssec.Validator
import UnifiedDns.Recursor.Upstream

/-!
# The denial behind an alias

`resolve_internal` answers a question for an alias with one message: the alias and the response for
its target, put together by `merge_redirection_response`.  The proofs of the alias (the NSEC records of
a wildcard expansion, say) are appended to the authority section, where `validate_negative` takes
every NSEC3 record, or every NSEC record, for a part of the denial of the final name.

* `MergedAccepted` — the condition under which the merged message is still a good denial.
* `validateMessage_merged_secure_iff` — it decides whether the verdict on the final response survives.
* `merged_secure_of_plain_hop` — a hop without denial records of its own never spoils it.
-/

namespace UnifiedDns
namespace Recursor

open Dnssec

/-! ### A negative response that is judged secure -/

/-- What the records of a denial say once their signatures have verified: the NSEC3 records, when
there are any, have usable parameters, and the records looked at deny the name. -/
def DeniesName (P : Platform) (target : Name) (qtype : RecordType) (authority : List Record) :
    Prop :=
  (∃ first, UsableNsec3 authority first ∧
    nsec3Verdict P target qtype (denialRecords .NSEC3 authority) first.salt first.iterations =
      .secure) ∨
  ((∀ r ∈ authority, r.recordType ≠ .NSEC3) ∧ denialRecords .NSEC authority ≠ [] ∧
    nsecVerdict P target qtype (denialRecords .NSEC authority) = .secure)

theorem denialRecords_ne_nil_iff {rtype : RecordType} {authority : List Record} :
    denialRecords rtype authority ≠ [] ↔ ∃ r ∈ authority, r.recordType = rtype := by
  rw [denialRecords, Ne, List.take_eq_nil_iff, List.filter_eq_nil_iff]
  simp [maxNegativeRecords]

/-- With a denial that holds, the verdict hangs on the signatures alone. -/
theorem validateDenial_of_denies {env : Env} {keys : List DNSKEY} {target : Name}
    {qtype : RecordType} {authority : List Record} (s : VState)
    (h : DeniesName env.platform target qtype authority) :
    validateDenial env keys target qtype authority s =
      (if (verifyDenialRecords env authority keys (shownDenial authority) s).1 then .secure
        else .bogus,
        (verifyDenialRecords env authority keys (shownDenial authority) s).2) := by
  rcases h with ⟨first, husable, hverdict⟩ | ⟨hnone, hne, hverdict⟩
  · obtain ⟨rec, rest, hcons, hfirst, halg, hiter, hsame⟩ := husable
    have hany : (authority.any fun r => decide (r.recordType = .NSEC3)) = true := by
      have hne : denialRecords .NSEC3 authority ≠ [] := by simp [hcons]
      simpa using denialRecords_ne_nil_iff.mp hne
    have hhead : (denialRecords .NSEC3 authority).head? = some rec := by rw [hcons, List.head?_cons]
    simp only [validateDenial, shownDenial, hany, if_true, validateNsec3, hhead, hfirst, halg, ne_eq,
      not_true_eq_false, if_false, Nat.not_lt.mpr hiter, hsame, Bool.not_true, Bool.false_eq_true,
      hverdict]
    rcases verifyDenialRecords env authority keys (denialRecords .NSEC3 authority) s with ⟨ok, s₁⟩
    cases ok <;> rfl
  · have hany : (authority.any fun r => decide (r.recordType = .NSEC3)) = false := by
      simpa using hnone
    have hsome : (authority.any fun r => decide (r.recordType = .NSEC)) = true := by
      simpa using denialRecords_ne_nil_iff.mp hne
    simp only [validateDenial, shownDenial, hany, hsome, if_true, Bool.false_eq_true, if_false,
      validateNsec, List.isEmpty_eq_false_iff.mpr hne, hverdict]
    rcases verifyDenialRecords env authority keys (denialRecords .NSEC authority) s with ⟨ok, s₁⟩
    cases ok <;> rfl

/-- A denial judged secure holds, and all its records have verified. -/
theorem denies_of_validateDenial {env : Env} {keys : List DNSKEY} {target : Name}
    {qtype : RecordType} {authority : List Record} {s : VState}
    (h : (validateDenial env keys target qtype authority s).1 = .secure) :
    DeniesName env.platform target qtype authority ∧
      (verifyDenialRecords env authority keys (shownDenial authority) s).1 = true := by
  have hdenies : DeniesName env.platform target qtype authority := by
    unfold validateDenial at h
    split at h
    · rcases validateNsec3_cases h with hbogus | ⟨hunknown, -⟩ | ⟨first, husable, -, hverdict⟩
      · cases hbogus
      · cases hunknown
      · exact Or.inl ⟨first, husable, hverdict⟩
    · rename_i hnone
      split at h
      · obtain ⟨hne, -, hverdict⟩ := validateNsec_ne_bogus h (by simp)
        exact Or.inr ⟨by simpa using hnone, hne, hverdict⟩
      · cases h
  refine ⟨hdenies, ?_⟩
  rw [validateDenial_of_denies s hdenies] at h
  by_contra hunverified
  simp [hunverified] at h

theorem denialRecords_append {rtype : RecordType} {authority extra : List Record}
    (hextra : ∀ r ∈ extra, r.recordType ≠ rtype) :
    denialRecords rtype (authority ++ extra) = denialRecords rtype authority := by
  have hnone : (extra.filter fun r => decide (r.recordType = rtype)) = [] :=
    List.filter_eq_nil_iff.mpr fun r hr => by simpa using hextra r hr
  rw [denialRecords, List.filter_append, hnone, List.append_nil, denialRecords]

/-- A secure denial stays secure when records of other types are put behind it. -/
theorem validateDenial_append {env : Env} {keys : List DNSKEY} {target : Name}
    {qtype : RecordType} {authority extra : List Record} {s : VState}
    (hextra : ∀ r ∈ extra, r.recordType ≠ .NSEC ∧ r.recordType ≠ .NSEC3)
    (h : (validateDenial env keys target qtype authority s).1 = .secure) :
    (validateDenial env keys target qtype (authority ++ extra) s).1 = .secure := by
  have hnsec := @denialRecords_append .NSEC authority extra fun r hr => (hextra r hr).1
  have hnsec3 := @denialRecords_append .NSEC3 authority extra fun r hr => (hextra r hr).2
  have hmem : ∀ r ∈ authority ++ extra, r.recordType = .NSEC3 → r ∈ authority := by
    intro r hr htype
    rcases List.mem_append.mp hr with hr | hr
    · exact hr
    · exact absurd htype (hextra r hr).2
  obtain ⟨hdenies, hverified⟩ := denies_of_validateDenial h
  have hshown : shownDenial (authority ++ extra) = shownDenial authority := by
    have hany : ((authority ++ extra).any fun r => decide (r.recordType = .NSEC3)) =
        authority.any fun r => decide (r.recordType = .NSEC3) := by
      have hnone : (extra.any fun r => decide (r.recordType = .NSEC3)) = false :=
        List.any_eq_false.mpr fun r hr => by simpa using (hextra r hr).2
      rw [List.any_append, hnone, Bool.or_false]
    rw [shownDenial, hany, hnsec, hnsec3, shownDenial]
  have hdenies' : DeniesName env.platform target qtype (authority ++ extra) := by
    rcases hdenies with ⟨first, husable, hverdict⟩ | ⟨hnone, hne, hverdict⟩
    · exact Or.inl ⟨first, by rwa [UsableNsec3, hnsec3], by rwa [hnsec3]⟩
    · exact Or.inr ⟨fun r hr htype => hnone r (hmem r hr htype) htype, by rwa [hnsec],
        by rwa [hnsec]⟩
  have hother : ∀ rec ∈ shownDenial authority, ∀ r ∈ extra, r.recordType ≠ rec.recordType := by
    intro rec hrec r hr
    rw [shownDenial] at hrec
    split at hrec
    · rw [(mem_denialRecords hrec).2]
      exact (hextra r hr).2
    · rw [(mem_denialRecords hrec).2]
      exact (hextra r hr).1
  rw [validateDenial_of_denies s hdenies', hshown, verifyDenialRecords_append hother hverified,
    hverified, if_pos rfl]

/-- A negative response judged secure has an SOA record of a trusted zone, well placed and verified,
and a denial that is judged secure after it. -/
theorem validateNegative_secure {env : Env} {msg : Message} {qname : Name} {qtype : RecordType}
    {s : VState} (h : (validateNegative env msg qname qtype s).1 = .secure) :
    ∃ soaRec keys ttl s₁ s₂, denialSoa msg = some soaRec ∧
      foreignSoa soaRec.name (finalTarget msg qname) qname = false ∧
      buildTrustChain env soaRec.name s = (.trusted keys ttl, s₁) ∧
      verifyNegativeRrset env soaRec msg.nameServers keys s₁ = (true, s₂) ∧
      (validateDenial env keys (finalTarget msg qname) qtype msg.nameServers s₂).1 = .secure := by
  unfold validateNegative at h
  split at h
  · cases h
  · rename_i soaRec hsoa
    simp only at h
    split at h
    · cases h
    · rename_i hforeign
      split at h
      · cases h
      · cases h
      · rename_i keys ttl s₁ hchain
        split at h
        · cases h
        · rename_i s₂ hverify
          exact ⟨soaRec, keys, ttl, s₁, s₂, hsoa, by simpa using hforeign, hchain, hverify, h⟩

theorem validateNegative_of_soa {env : Env} {msg : Message} {qname : Name} {qtype : RecordType}
    {s s₁ s₂ : VState} {soaRec : Record} {keys : List DNSKEY} {ttl : Nat}
    (hsoa : denialSoa msg = some soaRec)
    (hforeign : foreignSoa soaRec.name (finalTarget msg qname) qname = false)
    (hchain : buildTrustChain env soaRec.name s = (.trusted keys ttl, s₁))
    (hverify : verifyNegativeRrset env soaRec msg.nameServers keys s₁ = (true, s₂)) :
    validateNegative env msg qname qtype s =
      validateDenial env keys (finalTarget msg qname) qtype msg.nameServers s₂ := by
  simp only [validateNegative, hsoa, hforeign, Bool.false_eq_true, if_false, hchain, hverify]

/-! ### What the merge keeps and adds -/

section

variable (origName : Name) (origType : RecordType) (hop final : Message)

/-- The authority section of the merged message: that of the final response, then proofs of the
hop. -/
theorem merged_nameServers : ∃ added,
    (mergeRedirectionResponse origName origType hop final).nameServers =
      final.nameServers ++ added ∧
    ∀ r ∈ added, r ∈ hop.nameServers ∧ isProofRecord r = true := by
  obtain ⟨added, hadded, hmem⟩ :=
    foldl_pushNew (hop.nameServers.filter isProofRecord) final.nameServers
  exact ⟨added, hadded, fun r hr => by simpa using hmem r hr⟩

/-- The answer section of the merged message: that of the hop, then records of the final response. -/
theorem merged_answers : ∃ added,
    (mergeRedirectionResponse origName origType hop final).answers = hop.answers ++ added ∧
    ∀ r ∈ added, r ∈ final.answers :=
  foldl_pushNew final.answers hop.answers

theorem isProofRecord_ne_soa {r : Record} (h : isProofRecord r = true) : r.recordType ≠ .SOA := by
  intro htype
  rw [isProofRecord, htype] at h
  exact absurd h (by decide)

variable {origName origType hop final}

/-- The merged message is judged by the SOA record of the final response. -/
theorem denialSoa_merged {soaRec : Record} (hsoa : denialSoa final = some soaRec) :
    denialSoa (mergeRedirectionResponse origName origType hop final) = some soaRec := by
  obtain ⟨added, hadded, -⟩ := merged_nameServers origName origType hop final
  rw [denialSoa] at hsoa ⊢
  rw [hadded, List.find?_append, hsoa, Option.some_or]

theorem denialSoa_type {msg : Message} {soaRec : Record} (hsoa : denialSoa msg = some soaRec) :
    soaRec.recordType = .SOA := by
  have hdata := List.find?_some hsoa
  unfold Record.isSoa at hdata
  split at hdata
  · rename_i heq
    rw [Record.recordType, heq, RData.recordType]
  · cases hdata

/-- The signature over that SOA record is found as in the final response. -/
theorem verifySoa_merged {env : Env} {keys : List DNSKEY} {s s' : VState} {soaRec : Record}
    (hsoa : denialSoa final = some soaRec)
    (hverify : verifyNegativeRrset env soaRec final.nameServers keys s = (true, s')) :
    verifyNegativeRrset env soaRec
        (mergeRedirectionResponse origName origType hop final).nameServers keys s = (true, s') := by
  obtain ⟨added, hadded, hproof⟩ := merged_nameServers origName origType hop final
  rw [hadded, verifyNegativeRrset_append (fun r hr htype => ?_) (by rw [hverify]), hverify]
  rw [denialSoa_type hsoa] at htype
  exact isProofRecord_ne_soa (hproof r hr).2 htype

end

/-! ### The verdict on the merged message -/

/-- From the state on, the clock takes no signature of `authority` into or out of its validity
period. -/
def SteadySignatures (env : Env) (authority : List Record) (s : VState) : Prop :=
  ∀ r ∈ authority, ∀ sig, r.data = .rrsig sig → ∀ tick, s.tick ≤ tick →
    rrsigTimeValid sig (env.clock tick) = rrsigTimeValid sig (env.clock s.tick)

/-- The merged message is a good denial for the zone of the final SOA: this zone stands above the name
the message denies or above the query name, has signed every denial record that is looked at, whoever
sent it, and these records together deny the name. -/
structure MergedAccepted (env : Env) (now : Nat) (keys : List DNSKEY) (zone : Name)
    (merged : Message) (name : Name) (rtype : RecordType) : Prop where
  authoritative : foreignSoa zone (finalTarget merged name) name = false
  signed : ∀ rec ∈ shownDenial merged.nameServers, SignedAt env now keys merged.nameServers rec
  denies : DeniesName env.platform (finalTarget merged name) rtype merged.nameServers

/-- A merged denial whose SOA has verified is judged secure exactly when it is a good denial. -/
theorem validateNegative_secure_iff {env : Env} {now : Nat} {msg : Message} {name : Name}
    {rtype : RecordType} {s s₁ s₂ : VState} {soaRec : Record} {keys : List DNSKEY} {ttl : Nat}
    (hsoa : denialSoa msg = some soaRec)
    (hchain : buildTrustChain env soaRec.name s = (.trusted keys ttl, s₁))
    (hverify : verifyNegativeRrset env soaRec msg.nameServers keys s₁ = (true, s₂))
    (hsteady : ∀ r ∈ msg.nameServers, ∀ sig, r.data = .rrsig sig → ∀ tick, s₂.tick ≤ tick →
      rrsigTimeValid sig (env.clock tick) = rrsigTimeValid sig now)
    (hbudget : ¬ (validateNegative env msg name rtype s).2.BudgetSpent) :
    (validateNegative env msg name rtype s).1 = .secure ↔
      MergedAccepted env now keys soaRec.name msg name rtype := by
  constructor
  · intro hsecure
    obtain ⟨soaRec', keys', ttl', s₁', s₂', hsoa', hforeign, hchain', hverify', hdenial⟩ :=
      validateNegative_secure hsecure
    obtain rfl : soaRec' = soaRec := Option.some.inj (hsoa'.symm.trans hsoa)
    rw [hchain] at hchain'
    cases hchain'
    rw [hverify] at hverify'
    cases hverify'
    obtain ⟨hdenies, hverified⟩ := denies_of_validateDenial hdenial
    rw [validateNegative_of_soa hsoa hforeign hchain hverify, validateDenial_of_denies _ hdenies]
      at hbudget
    exact ⟨hforeign, (verifyDenialRecords_iff hsteady hbudget).mp hverified, hdenies⟩
  · rintro ⟨hforeign, hsigned, hdenies⟩
    rw [validateNegative_of_soa hsoa hforeign hchain hverify, validateDenial_of_denies _ hdenies]
      at hbudget ⊢
    have hverified := (verifyDenialRecords_iff hsteady hbudget).mpr hsigned
    simp only [hverified, if_true]

/-- **When the verdict on the final response survives the merge.**  For every hop, every NXDOMAIN
response judged `secure` on its own for the alias target, and both zones: the merged message is judged
`secure` exactly when it is a good denial for the zone of the final SOA.  The signatures of the hop's
proofs are tried with the keys of that zone. -/
theorem validateMessage_merged_secure_iff {env : Env} {hop final : Message} {name target : Name}
    {rtype : RecordType} {s : VState} (hcode : final.responseCode = .nxDomain)
    (hfinal : (validateMessage env final target rtype s).1 = .secure)
    (hsteady : SteadySignatures env (mergeRedirectionResponse name rtype hop final).nameServers s)
    (hbudget : ¬ (validateMessage env (mergeRedirectionResponse name rtype hop final) name rtype
      s).2.BudgetSpent) :
    ∃ soaRec keys ttl, denialSoa final = some soaRec ∧
      (buildTrustChain env soaRec.name { s with budget := .default }).1 = .trusted keys ttl ∧
      ((validateMessage env (mergeRedirectionResponse name rtype hop final) name rtype s).1 =
          .secure ↔
        MergedAccepted env (env.clock s.tick) keys soaRec.name
          (mergeRedirectionResponse name rtype hop final) name rtype) := by
  have hcode' : (mergeRedirectionResponse name rtype hop final).responseCode = .nxDomain := hcode
  simp only [validateMessage, validateMessageWithBudget, hcode, hcode'] at hfinal hbudget ⊢
  obtain ⟨soaRec, keys, ttl, s₁, s₂, hsoa, -, hchain, hverify, -⟩ := validateNegative_secure hfinal
  refine ⟨soaRec, keys, ttl, hsoa, congrArg Prod.fst hchain, ?_⟩
  have htick₁ := (buildTrustChain_extends env soaRec.name { s with budget := .default }).tick_le
  have htick₂ := (verifyNegativeRrset_sameTables env soaRec final.nameServers keys s₁).tick_le
  rw [hchain] at htick₁
  rw [hverify] at htick₂
  refine validateNegative_secure_iff (denialSoa_merged hsoa) hchain (verifySoa_merged hsoa hverify)
    (fun r hr sig hdata tick htick => ?_) hbudget
  exact hsteady r hr sig hdata tick ((htick₁.trans htick₂).trans htick)

/-- A hop that leads to the target and brings no denial record along never spoils the denial of the
target. -/
theorem merged_secure_of_plain_hop {env : Env} {hop final : Message} {name target : Name}
    {rtype : RecordType} {s : VState} (hcode : final.responseCode = .nxDomain)
    (hfinal : (validateMessage env final target rtype s).1 = .secure)
    (hleads : finalTarget hop name = target) (hend : ∀ r ∈ final.answers, r.recordType ≠ .CNAME)
    (hplain : ∀ r ∈ hop.nameServers, r.recordType ≠ .NSEC ∧ r.recordType ≠ .NSEC3) :
    (validateMessage env (mergeRedirectionResponse name rtype hop final) name rtype s).1 =
      .secure := by
  have hcode' : (mergeRedirectionResponse name rtype hop final).responseCode = .nxDomain := hcode
  simp only [validateMessage, validateMessageWithBudget, hcode, hcode'] at hfinal ⊢
  obtain ⟨soaRec, keys, ttl, s₁, s₂, hsoa, hforeign, hchain, hverify, hdenial⟩ :=
    validateNegative_secure hfinal
  -- Both messages deny the alias target.
  have htarget : finalTarget final target = target := by
    have hnone : (final.answers.reverse.find? fun r => decide (r.recordType = .CNAME)) = none := by
      simpa using hend
    rw [finalTarget, hnone]
  have htarget' : finalTarget (mergeRedirectionResponse name rtype hop final) name = target := by
    obtain ⟨added, hadded, hmem⟩ := merged_answers name rtype hop final
    have hnone : (added.reverse.find? fun r => decide (r.recordType = .CNAME)) = none := by
      simpa using fun r hr => hend r (hmem r hr)
    rw [← hleads, finalTarget, hadded, List.reverse_append, List.find?_append, hnone,
      Option.none_or, finalTarget]
  rw [htarget] at hforeign hdenial
  have hforeign' : foreignSoa soaRec.name
      (finalTarget (mergeRedirectionResponse name rtype hop final) name) name = false := by
    rw [htarget']
    simp only [foreignSoa] at hforeign ⊢
    simp_all
  rw [validateNegative_of_soa (denialSoa_merged hsoa) hforeign' hchain (verifySoa_merged hsoa hverify),
    htarget']
  -- And the same denial records are looked at.
  obtain ⟨added, hadded, hproof⟩ := merged_nameServers name rtype hop final
  rw [hadded]
  exact validateDenial_append (fun r hr => hplain r (hproof r hr).1) hdenial

/-! ### A wildcard alias in one signed zone, its target denied by another -/

/-- The key of the zone `a.` -/
def childKey : DNSKEY := ⟨257, 8, [1]⟩

/-- The signature of the zone `a.` over the RRset of `rtype` at `owner`, with the given label count. -/
def childSigned (owner : Name) (labels : Byte) (rtype : RecordType) : Record :=
  ⟨owner, .IN, 300, .rrsig ⟨rtype, 8, labels, 300, 100, 0, 1289, topName 97, [1]⟩⟩

/-- The DS record of `a.`, signed by the root, and the key of `a.`, signed by itself. -/
def childEnv : Env := rootEnv fun name rtype =>
  if name == topName 97 && decide (rtype = .DS) then
    some { Message.new with
      answers := [rootRecord (topName 97) (.ds ⟨1289, 8, 2, []⟩), rootSigned (topName 97) .DS] }
  else if name == topName 97 && decide (rtype = .DNSKEY) then
    some { Message.new with
      answers := [rootRecord (topName 97) (.dnskey childKey), childSigned (topName 97) 1 .DNSKEY] }
  else none

/-- The name `x.a.` -/
def aliasName : Name := ⟨[[120], [97]], by decide⟩

/-- The name `*.a.` -/
def aliasStar : Name := ⟨[[42], [97]], by decide⟩

/-- `x.a. CNAME b.`, made of the wildcard `*.a.` of the zone `a.`, with the record that shows that
`x.a.` itself does not exist. -/
def aliasHop : Message := { Message.new with
  answers := [rootRecord aliasName (.cname (topName 98)), childSigned aliasName 1 .CNAME]
  nameServers := [rootRecord aliasStar (.nsec ⟨topName 97, [.CNAME, .RRSIG, .NSEC]⟩),
    childSigned aliasStar 1 .NSEC] }

/-- The root zone, where `a.` is a signed delegation, denies `b.` -/
def targetDenial : Message := { Message.new with
  responseCode := .nxDomain
  nameServers :=
    [rootRecord .root (.soa []), rootSigned .root .SOA,
      rootNsec .root (topName 97) [.NS, .SOA, .RRSIG, .NSEC, .DNSKEY], rootSigned .root .NSEC,
      rootNsec (topName 97) .root [.NS, .DS, .RRSIG, .NSEC], rootSigned (topName 97) .NSEC] }

/-- An alias hop: the CNAME at `name` leads to `target` and comes out `secure`, and every denial
record beside it is signed by a trusted zone at or above `name`. -/
structure AliasHop (env : Env) (hop : Message) (name target : Name) (s : VState) : Prop where
  leads : ∃ r ∈ hop.answers, r.name.path = name.path ∧ r.data = .cname target
  secure : (validateHop env name .CNAME hop.answers { s with budget := .default }).1 = .secure
  genuine : ∃ zone keys ttl, zone.zoneOf name = true ∧
    (buildTrustChain env zone { s with budget := .default }).1 = .trusted keys ttl ∧
    ∀ rec ∈ hop.nameServers, rec.recordType = .NSEC ∨ rec.recordType = .NSEC3 →
      SignedAt env (env.clock s.tick) keys hop.nameServers rec

theorem aliasHop_genuine : AliasHop childEnv aliasHop aliasName (topName 98) .init where
  leads := ⟨_, List.mem_cons_self, rfl, rfl⟩
  secure := by decide +kernel
  genuine := by
    refine ⟨topName 97, [childKey], 300, by decide, by decide +kernel, ?_⟩
    intro rec hrec htype
    rcases List.mem_pair.mp hrec with rfl | rfl
    · refine ⟨_, mem_coveringRrsigs.mpr ⟨childSigned aliasStar 1 .NSEC, by simp [aliasHop], rfl, rfl,
        rfl⟩, childKey, List.mem_singleton_self _, by decide +kernel, ?_⟩
      show verifyRrsig rootPlatform 50 _ _ _ _ = true
      decide +kernel
    · exact absurd htype (by decide)

theorem targetDenial_secure :
    (validateMessage childEnv targetDenial (topName 98) .A .init).1 = .secure := by decide +kernel

/-- Within the budget the merged message comes out `bogus`. -/
theorem mergedAlias_bogus :
    (validateMessage childEnv (mergeRedirectionResponse aliasName .A aliasHop targetDenial) aliasName
        .A .init).1 = .bogus ∧
      ¬ (validateMessage childEnv (mergeRedirectionResponse aliasName .A aliasHop targetDenial)
        aliasName .A .init).2.BudgetSpent := by
  unfold VState.BudgetSpent
  decide +kernel

/-- A merged message may come out `bogus` although the alias and the denial of its target are each
secure. -/
theorem alias_denial_refused :
    ¬ ∀ (env : Env) (hop final : Message) (name target : Name) (rtype : RecordType) (s : VState),
        AliasHop env hop name target s →
        final.responseCode = .nxDomain →
        (validateMessage env final target rtype s).1 = .secure →
        ((mergeRedirectionResponse name rtype hop final).nameServers.filter fun r =>
          decide (r.recordType = .NSEC) || decide (r.recordType = .NSEC3)).length ≤ 8 →
        SteadySignatures env (mergeRedirectionResponse name rtype hop final).nameServers s →
        ¬ (validateMessage env (mergeRedirectionResponse name rtype hop final) name rtype
          s).2.BudgetSpent →
        (validateMessage env (mergeRedirectionResponse name rtype hop final) name rtype s).1 =
          .secure := by
  intro hclaim
  obtain ⟨hbogus, hbudget⟩ := mergedAlias_bogus
  have hsecure := hclaim childEnv aliasHop targetDenial aliasName (topName 98) .A .init
    aliasHop_genuine rfl targetDenial_secure (by decide +kernel) (fun _ _ _ _ _ _ => rfl) hbudget
  rw [hbogus] at hsecure
  cases hsecure

/-- With the proof of the wildcard the merged message is no good denial of the root zone; without it,
it is one. -/
theorem validateMessage_merged_secure_iff_child :
    (∃ soaRec keys, denialSoa targetDenial = some soaRec ∧
      ¬ MergedAccepted childEnv 50 keys soaRec.name
        (mergeRedirectionResponse aliasName .A aliasHop targetDenial) aliasName .A) ∧
    ∃ soaRec keys, denialSoa targetDenial = some soaRec ∧
      MergedAccepted childEnv 50 keys soaRec.name
        (mergeRedirectionResponse aliasName .A { aliasHop with nameServers := [] } targetDenial)
        aliasName .A := by
  constructor
  · obtain ⟨hbogus, hbudget⟩ := mergedAlias_bogus
    obtain ⟨soaRec, keys, ttl, hsoa, -, hiff⟩ :=
      @validateMessage_merged_secure_iff childEnv aliasHop targetDenial aliasName (topName 98) .A
        .init rfl targetDenial_secure (fun _ _ _ _ _ _ => rfl) hbudget
    refine ⟨soaRec, keys, hsoa, fun haccepted => ?_⟩
    rw [hbogus] at hiff
    exact DnssecStatus.noConfusion (hiff.mpr haccepted)
  · obtain ⟨soaRec, keys, ttl, hsoa, -, hiff⟩ :=
      @validateMessage_merged_secure_iff childEnv { aliasHop with nameServers := [] } targetDenial
        aliasName (topName 98) .A .init rfl targetDenial_secure (fun _ _ _ _ _ _ => rfl)
        (by unfold VState.BudgetSpent; decide +kernel)
    exact ⟨soaRec, keys, hsoa, hiff.mp (by decide +kernel)⟩

end Recursor
end UnifiedDns
