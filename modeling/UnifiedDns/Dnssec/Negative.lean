import UnifiedDns.Dnssec.State
import UnifiedDns.Dnssec.Nsec3

/-!
# Verified denial records

`verify_negative_rrset`, `validate_nsec` and `validate_nsec3`: the records of a denial are taken from
the authority section, at most eight of them, and each must stand in an RRset with a verifying
signature before the pure verdicts of `Nsec` and `Nsec3` are consulted.
-/

namespace UnifiedDns
namespace Dnssec

/-- `verify_negative_rrset`. -/
def verifyNegativeRrset (env : Env) (rec : Record) (authority : List Record)
    (keys : List DNSKEY) (s : VState) : Bool × VState :=
  let owner := rec.name
  let rtype := rec.recordType
  let rrsigs := coveringRrsigs authority owner rtype
  if rrsigs.isEmpty then (false, s)
  else
    let fullRrset := rrset authority owner rtype
    if fullRrset.isEmpty then (false, s)
    else
      match searchSignatures env owner fullRrset (signaturePairs rrsigs keys) s with
      | (.verified, s) => (true, s)
      | (_, s) => (false, s)

/-- The loop that verifies every record of a denial and stops at the first that fails. -/
def verifyDenialRecords (env : Env) (authority : List Record) (keys : List DNSKEY) :
    List Record → VState → Bool × VState
  | [], s => (true, s)
  | rec :: rest, s =>
      match verifyNegativeRrset env rec authority keys s with
      | (false, s) => (false, s)
      | (true, s) => verifyDenialRecords env authority keys rest s

/-- The first eight records of one type in the authority section. -/
def denialRecords (rtype : RecordType) (authority : List Record) : List Record :=
  (authority.filter fun r => decide (r.recordType = rtype)).take maxNegativeRecords

/-- The records of a denial that the code looks at: NSEC3 records when there are any. -/
def shownDenial (authority : List Record) : List Record :=
  if authority.any fun r => decide (r.recordType = .NSEC3) then denialRecords .NSEC3 authority
  else denialRecords .NSEC authority

/-- `validate_nsec`. -/
def validateNsec (env : Env) (keys : List DNSKEY) (qname : Name) (qtype : RecordType)
    (authority : List Record) (s : VState) : DnssecStatus × VState :=
  let nsecRecords := denialRecords .NSEC authority
  if nsecRecords.isEmpty then (.bogus, s)
  else
    match verifyDenialRecords env authority keys nsecRecords s with
    | (false, s) => (.bogus, s)
    | (true, s) => (nsecVerdict env.platform qname qtype nsecRecords, s)

/-- `Nsec3HashAlgorithm::SHA1`. -/
def nsec3Sha1 : Byte := 1

/-- The record agrees with the parameters of the first one. -/
def sameNsec3Parameters (first : NSEC3) (rec : Record) : Bool :=
  match rec.nsec3? with
  | some n =>
      decide (n.hashAlgorithm = first.hashAlgorithm) && decide (n.iterations = first.iterations) &&
        decide (n.salt = first.salt)
  | none => false

/-- `validate_nsec3`. -/
def validateNsec3 (env : Env) (keys : List DNSKEY) (qname : Name) (qtype : RecordType)
    (authority : List Record) (s : VState) : DnssecStatus × VState :=
  let nsec3Records := denialRecords .NSEC3 authority
  match nsec3Records.head? with
  | none => (.bogus, s)
  | some firstRec =>
      match firstRec.nsec3? with
      | none => (.bogus, s)
      | some first =>
          if first.hashAlgorithm ≠ nsec3Sha1 then (.insecureUnknown, s)
          else if maxNsec3Iterations < first.iterations then (.insecureUnknown, s)
          else if !nsec3Records.all (sameNsec3Parameters first) then (.bogus, s)
          else
            match verifyDenialRecords env authority keys nsec3Records s with
            | (false, s) => (.bogus, s)
            | (true, s) =>
                (nsec3Verdict env.platform qname qtype nsec3Records first.salt first.iterations, s)

/-- The record stands in an RRset of `authority` that some key verifies. -/
def VerifiedDenial (env : Env) (keys : List DNSKEY) (authority : List Record) (rec : Record) :
    Prop :=
  VerifiedUnder env keys (coveringRrsigs authority rec.name rec.recordType) rec.name
    (rrset authority rec.name rec.recordType)

/-- Some signature in `authority` over the RRset of `rec` verifies at `now` under the key it names. -/
def SignedAt (env : Env) (now : Nat) (keys : List DNSKEY) (authority : List Record) (rec : Record) :
    Prop :=
  ∃ rrsig ∈ coveringRrsigs authority rec.name rec.recordType, ∃ key ∈ keys,
    keyTagMatches env.platform key rrsig.keyTag = true ∧
      verifyRrsig env.platform now rrsig key rec.name
        (rrset authority rec.name rec.recordType) = true

theorem verifyNegativeRrset_closed {env : Env} {R : VState → VState → Prop}
    (hR : ReadClosed env R) (rec : Record) (authority : List Record) (keys : List DNSKEY)
    (s : VState) : R s (verifyNegativeRrset env rec authority keys s).2 := by
  simp only [verifyNegativeRrset]
  have hsearch := searchSignatures_closed hR rec.name
    (rrset authority rec.name rec.recordType)
    (signaturePairs (coveringRrsigs authority rec.name rec.recordType) keys) s
  split
  · exact hR.refl s
  · split
    · exact hR.refl s
    · split
      · rename_i s₁ heq
        rw [heq] at hsearch
        exact hsearch
      · rename_i s₁ heq
        rw [heq] at hsearch
        exact hsearch

theorem verifyNegativeRrset_sameTables (env : Env) (rec : Record) (authority : List Record)
    (keys : List DNSKEY) (s : VState) :
    s.SameTables (verifyNegativeRrset env rec authority keys s).2 :=
  verifyNegativeRrset_closed (VState.SameTables.readClosed env) rec authority keys s

theorem verifyNegativeRrset_verified {env : Env} {rec : Record} {authority : List Record}
    {keys : List DNSKEY} {s : VState}
    (h : (verifyNegativeRrset env rec authority keys s).1 = true) :
    VerifiedDenial env keys authority rec := by
  simp only [verifyNegativeRrset] at h
  split at h
  · cases h
  · split at h
    · cases h
    · split at h
      · rename_i heq
        exact searchSignatures_verifiedUnder (congrArg Prod.fst heq)
      · cases h

theorem verifyDenialRecords_closed {env : Env} {R : VState → VState → Prop}
    (hR : ReadClosed env R) (authority : List Record) (keys : List DNSKEY) (records : List Record)
    (s : VState) : R s (verifyDenialRecords env authority keys records s).2 := by
  induction records generalizing s with
  | nil => exact hR.refl s
  | cons rec rest ih =>
      simp only [verifyDenialRecords]
      have hrec := verifyNegativeRrset_closed hR rec authority keys s
      split
      · rename_i s₁ heq
        rw [heq] at hrec
        exact hrec
      · rename_i s₁ heq
        rw [heq] at hrec
        exact hR.trans hrec (ih s₁)

theorem verifyDenialRecords_verified {env : Env} {authority : List Record} {keys : List DNSKEY}
    {records : List Record} {s : VState}
    (h : (verifyDenialRecords env authority keys records s).1 = true) :
    ∀ rec ∈ records, VerifiedDenial env keys authority rec := by
  induction records generalizing s with
  | nil => simp
  | cons rec rest ih =>
      simp only [verifyDenialRecords] at h
      split at h
      · cases h
      · rename_i s₁ heq
        intro rec' hrec'
        rcases List.mem_cons.mp hrec' with rfl | htail
        · exact verifyNegativeRrset_verified (congrArg Prod.fst heq)
        · exact ih h rec' htail

theorem verifyRrsig_congr_time {P : Platform} {now now' : Nat} {rrsig : RRSIG} {key : DNSKEY}
    {owner : Name} {records : List Record}
    (h : rrsigTimeValid rrsig now = rrsigTimeValid rrsig now') :
    verifyRrsig P now rrsig key owner records = verifyRrsig P now' rrsig key owner records := by
  simp only [verifyRrsig, h]

/-- A signed record is one of which some pair of a signature and a key verifies. -/
theorem signedAt_iff_pair {env : Env} {now : Nat} {keys : List DNSKEY} {authority : List Record}
    {rec : Record} :
    SignedAt env now keys authority rec ↔
      ∃ pair ∈ signaturePairs (coveringRrsigs authority rec.name rec.recordType) keys,
        keyTagMatches env.platform pair.2 pair.1.keyTag = true ∧
          verifyRrsig env.platform now pair.1 pair.2 rec.name
            (rrset authority rec.name rec.recordType) = true := by
  constructor
  · rintro ⟨rrsig, hrrsig, key, hkey, htag, hverify⟩
    exact ⟨(rrsig, key), mem_signaturePairs.mpr ⟨hrrsig, hkey⟩, htag, hverify⟩
  · rintro ⟨pair, hpair, htag, hverify⟩
    obtain ⟨hrrsig, hkey⟩ := mem_signaturePairs.mp hpair
    exact ⟨pair.1, hrrsig, pair.2, hkey, htag, hverify⟩

/-- With budget left, `verify_negative_rrset` accepts exactly the signed records. -/
theorem verifyNegativeRrset_iff {env : Env} {now : Nat} {rec : Record} {authority : List Record}
    {keys : List DNSKEY} {s : VState}
    (hsteady : ∀ r ∈ authority, ∀ sig, r.data = .rrsig sig → ∀ tick, s.tick ≤ tick →
      rrsigTimeValid sig (env.clock tick) = rrsigTimeValid sig now)
    (hbudget : (verifyNegativeRrset env rec authority keys s).1 = false →
      ¬ (verifyNegativeRrset env rec authority keys s).2.BudgetSpent) :
    (verifyNegativeRrset env rec authority keys s).1 = true ↔
      SignedAt env now keys authority rec := by
  have hpairs : ∀ pair ∈ signaturePairs (coveringRrsigs authority rec.name rec.recordType) keys,
      ∀ tick, s.tick ≤ tick →
        verifyRrsig env.platform (env.clock tick) pair.1 pair.2 rec.name
            (rrset authority rec.name rec.recordType) =
          verifyRrsig env.platform now pair.1 pair.2 rec.name
            (rrset authority rec.name rec.recordType) := by
    intro pair hpair tick htick
    obtain ⟨r, hr, hdata, -⟩ := mem_coveringRrsigs.mp (mem_signaturePairs.mp hpair).1
    exact verifyRrsig_congr_time (hsteady r hr pair.1 hdata tick htick)
  rw [signedAt_iff_pair]
  simp only [verifyNegativeRrset] at hbudget ⊢
  split
  · rename_i hempty
    simp [List.isEmpty_iff.mp hempty, signaturePairs]
  · rename_i hrrsigs
    rw [if_neg hrrsigs] at hbudget
    split
    · rename_i hempty
      have hnone : ∀ rrsig key, verifyRrsig env.platform now rrsig key rec.name [] = false := by
        intro rrsig key
        simp [verifyRrsig, buildTbs]
      simp [List.isEmpty_iff.mp hempty, hnone]
    · rename_i hset
      rw [if_neg hset] at hbudget
      have hsearch := searchSignatures_iff (s := s) hpairs
      have hcut := @searchSignatures_exhausted env rec.name
        (rrset authority rec.name rec.recordType)
        (signaturePairs (coveringRrsigs authority rec.name rec.recordType) keys) s
      rcases hresult : searchSignatures env rec.name (rrset authority rec.name rec.recordType)
        (signaturePairs (coveringRrsigs authority rec.name rec.recordType) keys) s with ⟨found, s₁⟩
      simp only [hresult] at hsearch hcut hbudget ⊢
      cases found with
      | verified => simpa using hsearch (by simp)
      | exhausted => exact absurd (hcut rfl) (hbudget rfl)
      | unverified => simpa using hsearch (by simp)

/-- With budget left, the records of a denial are accepted exactly when each of them is signed. -/
theorem verifyDenialRecords_iff {env : Env} {now : Nat} {authority : List Record}
    {keys : List DNSKEY} {records : List Record} {s : VState}
    (hsteady : ∀ r ∈ authority, ∀ sig, r.data = .rrsig sig → ∀ tick, s.tick ≤ tick →
      rrsigTimeValid sig (env.clock tick) = rrsigTimeValid sig now)
    (hbudget : ¬ (verifyDenialRecords env authority keys records s).2.BudgetSpent) :
    (verifyDenialRecords env authority keys records s).1 = true ↔
      ∀ rec ∈ records, SignedAt env now keys authority rec := by
  induction records generalizing s with
  | nil => simp [verifyDenialRecords]
  | cons rec rest ih =>
      have htables := verifyNegativeRrset_sameTables env rec authority keys s
      have hrec := @verifyNegativeRrset_iff env now rec authority keys s hsteady
      rcases hresult : verifyNegativeRrset env rec authority keys s with ⟨verified, s₁⟩
      simp only [verifyDenialRecords, hresult] at hbudget htables hrec ⊢
      rw [List.forall_mem_cons]
      cases verified with
      | false =>
          have hunsigned := (not_congr (hrec fun _ => hbudget)).mp (by simp)
          simp [hunsigned]
      | true =>
          have hsigned := (hrec (by simp)).mp rfl
          have hrest := ih (fun r hr sig hdata tick htick =>
            hsteady r hr sig hdata tick (htables.tick_le.trans htick)) hbudget
          exact hrest.trans ⟨fun hall => ⟨hsigned, hall⟩, And.right⟩

/-- A record that has been verified stays so, with the same cost, when signatures and records of other
types are put behind the authority section. -/
theorem verifyNegativeRrset_append {env : Env} {rec : Record} {authority extra : List Record}
    {keys : List DNSKEY} {s : VState} (hextra : ∀ r ∈ extra, r.recordType ≠ rec.recordType)
    (h : (verifyNegativeRrset env rec authority keys s).1 = true) :
    verifyNegativeRrset env rec (authority ++ extra) keys s =
      verifyNegativeRrset env rec authority keys s := by
  have hset : rrset (authority ++ extra) rec.name rec.recordType =
      rrset authority rec.name rec.recordType := by
    have hnone : rrset extra rec.name rec.recordType = [] :=
      List.filter_eq_nil_iff.mpr fun r hr => by simp [hextra r hr]
    rw [rrset, List.filter_append, ← rrset, ← rrset, hnone, List.append_nil]
  have hpairs : signaturePairs (coveringRrsigs (authority ++ extra) rec.name rec.recordType) keys =
      signaturePairs (coveringRrsigs authority rec.name rec.recordType) keys ++
        signaturePairs (coveringRrsigs extra rec.name rec.recordType) keys := by
    rw [coveringRrsigs, List.filterMap_append, signaturePairs, List.flatMap_append]
    rfl
  have hrrsigs : (coveringRrsigs authority rec.name rec.recordType).isEmpty = false := by
    cases hempty : (coveringRrsigs authority rec.name rec.recordType).isEmpty with
    | false => rfl
    | true => simp [verifyNegativeRrset, hempty] at h
  have hall : (coveringRrsigs (authority ++ extra) rec.name rec.recordType).isEmpty = false := by
    rw [coveringRrsigs, List.filterMap_append, ← coveringRrsigs, List.isEmpty_eq_false_iff]
    exact List.append_ne_nil_of_left_ne_nil (by simpa using hrrsigs) _
  simp only [verifyNegativeRrset, hset, hpairs, hrrsigs, hall, Bool.false_eq_true, if_false] at h ⊢
  split
  · rfl
  · rename_i hempty
    rw [if_neg hempty] at h
    rw [searchSignatures_append]
    split at h
    · rename_i heq
      rw [heq]
    · cases h

theorem verifyDenialRecords_append {env : Env} {authority extra : List Record}
    {keys : List DNSKEY} {records : List Record} {s : VState}
    (hextra : ∀ rec ∈ records, ∀ r ∈ extra, r.recordType ≠ rec.recordType)
    (h : (verifyDenialRecords env authority keys records s).1 = true) :
    verifyDenialRecords env (authority ++ extra) keys records s =
      verifyDenialRecords env authority keys records s := by
  induction records generalizing s with
  | nil => rfl
  | cons rec rest ih =>
      obtain ⟨hhead, htail⟩ := List.forall_mem_cons.mp hextra
      simp only [verifyDenialRecords] at h ⊢
      rcases hresult : verifyNegativeRrset env rec authority keys s with ⟨verified, s₁⟩
      rw [hresult] at h
      cases verified with
      | false => cases h
      | true =>
          rw [verifyNegativeRrset_append hhead (by rw [hresult]), hresult]
          exact ih htail h

theorem mem_denialRecords {rtype : RecordType} {authority : List Record} {rec : Record}
    (h : rec ∈ denialRecords rtype authority) : rec ∈ authority ∧ rec.recordType = rtype := by
  simpa using List.mem_filter.mp (List.mem_of_mem_take h)

theorem validateNsec_closed {env : Env} {R : VState → VState → Prop} (hR : ReadClosed env R)
    (keys : List DNSKEY) (qname : Name) (qtype : RecordType) (authority : List Record)
    (s : VState) : R s (validateNsec env keys qname qtype authority s).2 := by
  simp only [validateNsec]
  have hverify :=
    verifyDenialRecords_closed hR authority keys (denialRecords .NSEC authority) s
  split
  · exact hR.refl s
  · split
    · rename_i s₁ heq
      rw [heq] at hverify
      exact hverify
    · rename_i s₁ heq
      rw [heq] at hverify
      exact hverify

theorem validateNsec3_closed {env : Env} {R : VState → VState → Prop} (hR : ReadClosed env R)
    (keys : List DNSKEY) (qname : Name) (qtype : RecordType) (authority : List Record)
    (s : VState) : R s (validateNsec3 env keys qname qtype authority s).2 := by
  simp only [validateNsec3]
  have hverify :=
    verifyDenialRecords_closed hR authority keys (denialRecords .NSEC3 authority) s
  repeat' split
  all_goals first
    | exact hR.refl s
    | (rename_i s₁ heq
       rw [heq] at hverify
       exact hverify)

/-- Once every signature has verified, `validate_nsec` returns the pure verdict. -/
theorem validateNsec_of_verified {env : Env} {keys : List DNSKEY} {qname : Name}
    {qtype : RecordType} {authority : List Record} {s : VState}
    (hne : denialRecords .NSEC authority ≠ [])
    (hverified :
      (verifyDenialRecords env authority keys (denialRecords .NSEC authority) s).1 = true) :
    (validateNsec env keys qname qtype authority s).1 =
      nsecVerdict env.platform qname qtype (denialRecords .NSEC authority) := by
  simp only [validateNsec]
  rw [if_neg (by simpa using hne)]
  split
  · rename_i heq
    rw [heq] at hverified
    cases hverified
  · rfl

/-- A status of `validate_nsec` other than `bogus` is the pure verdict over verified records. -/
theorem validateNsec_ne_bogus {env : Env} {keys : List DNSKEY} {qname : Name}
    {qtype : RecordType} {authority : List Record} {s : VState} {status : DnssecStatus}
    (h : (validateNsec env keys qname qtype authority s).1 = status) (hne : status ≠ .bogus) :
    denialRecords .NSEC authority ≠ [] ∧
      (verifyDenialRecords env authority keys (denialRecords .NSEC authority) s).1 = true ∧
        nsecVerdict env.platform qname qtype (denialRecords .NSEC authority) = status := by
  simp only [validateNsec] at h
  split at h
  · exact absurd h.symm hne
  · rename_i hempty
    split at h
    · exact absurd h.symm hne
    · rename_i heq
      exact ⟨by simpa using hempty, congrArg Prod.fst heq, h⟩

/-- The parameters of the first NSEC3 record, when the code can use them. -/
def UsableNsec3 (authority : List Record) (first : NSEC3) : Prop :=
  ∃ rec rest, denialRecords .NSEC3 authority = rec :: rest ∧ rec.nsec3? = some first ∧
    first.hashAlgorithm = nsec3Sha1 ∧ first.iterations ≤ maxNsec3Iterations ∧
    (denialRecords .NSEC3 authority).all (sameNsec3Parameters first) = true

/-- Records that agree on parameters within the limits can be used. -/
theorem usableNsec3_of_parameters {authority : List Record} {salt : List Byte} {iterations : Nat}
    (hiterations : iterations ≤ maxNsec3Iterations)
    (hparameters : ∀ rec ∈ denialRecords .NSEC3 authority, ∃ n, rec.nsec3? = some n ∧
      n.hashAlgorithm = nsec3Sha1 ∧ n.salt = salt ∧ n.iterations = iterations)
    (hne : denialRecords .NSEC3 authority ≠ []) :
    ∃ first, UsableNsec3 authority first ∧ first.salt = salt ∧ first.iterations = iterations := by
  obtain ⟨rec, rest, hcons⟩ := List.exists_cons_of_ne_nil hne
  have hrec : rec ∈ denialRecords .NSEC3 authority := by simp [hcons]
  obtain ⟨first, hfirst, halg, hsalt, hiter⟩ := hparameters rec hrec
  refine ⟨first, ⟨rec, rest, hcons, hfirst, halg, by rwa [hiter], ?_⟩, hsalt, hiter⟩
  rw [List.all_eq_true]
  intro rec' hrec'
  obtain ⟨n, hn, halg', hsalt', hiter'⟩ := hparameters rec' hrec'
  simp [sameNsec3Parameters, hn, halg, halg', hsalt, hsalt', hiter, hiter']

/-- With usable parameters and every signature verified, `validate_nsec3` returns the pure verdict. -/
theorem validateNsec3_of_verified {env : Env} {keys : List DNSKEY} {qname : Name}
    {qtype : RecordType} {authority : List Record} {s : VState} {first : NSEC3}
    (husable : UsableNsec3 authority first)
    (hverified :
      (verifyDenialRecords env authority keys (denialRecords .NSEC3 authority) s).1 = true) :
    (validateNsec3 env keys qname qtype authority s).1 =
      nsec3Verdict env.platform qname qtype (denialRecords .NSEC3 authority) first.salt
        first.iterations := by
  obtain ⟨rec, rest, hcons, hfirst, halg, hiter, hsame⟩ := husable
  simp only [validateNsec3]
  rw [show (denialRecords .NSEC3 authority).head? = some rec by rw [hcons]; rfl]
  simp only [hfirst, halg, ne_eq, not_true_eq_false, if_false, hsame, Bool.not_true,
    Bool.false_eq_true, Nat.not_lt.mpr hiter]
  split
  · rename_i heq
    rw [heq] at hverified
    cases hverified
  · rfl

/-- The first NSEC3 record looked at has parameters that the code does not compute with. -/
def RefusedNsec3 (authority : List Record) : Prop :=
  ∃ rec n, (denialRecords .NSEC3 authority).head? = some rec ∧ rec.nsec3? = some n ∧
    (n.hashAlgorithm ≠ nsec3Sha1 ∨ maxNsec3Iterations < n.iterations)

/-- `validate_nsec3` returns `bogus`, gives up on the parameters, or returns the pure verdict over
verified records. -/
theorem validateNsec3_cases {env : Env} {keys : List DNSKEY} {qname : Name}
    {qtype : RecordType} {authority : List Record} {s : VState} {status : DnssecStatus}
    (h : (validateNsec3 env keys qname qtype authority s).1 = status) :
    status = .bogus ∨
      (status = .insecureUnknown ∧ RefusedNsec3 authority) ∨
      ∃ first, UsableNsec3 authority first ∧
        (verifyDenialRecords env authority keys (denialRecords .NSEC3 authority) s).1 = true ∧
        nsec3Verdict env.platform qname qtype (denialRecords .NSEC3 authority) first.salt
          first.iterations = status := by
  simp only [validateNsec3] at h
  split at h
  · exact Or.inl h.symm
  · rename_i rec hhead
    obtain ⟨rest, hcons⟩ := List.head?_eq_some_iff.mp hhead
    split at h
    · exact Or.inl h.symm
    · rename_i first hfirst
      split at h
      · rename_i halg
        exact Or.inr (Or.inl ⟨h.symm, rec, first, hhead, hfirst, Or.inl halg⟩)
      · rename_i halg
        split at h
        · rename_i hiter
          exact Or.inr (Or.inl ⟨h.symm, rec, first, hhead, hfirst, Or.inr hiter⟩)
        · rename_i hiter
          split at h
          · exact Or.inl h.symm
          · rename_i hsame
            split at h
            · exact Or.inl h.symm
            · rename_i heq
              refine Or.inr (Or.inr ⟨first, ⟨rec, rest, hcons, hfirst, not_not.mp halg,
                not_lt.mp hiter, by simpa using hsame⟩, congrArg Prod.fst heq, h⟩)

end Dnssec
end UnifiedDns
