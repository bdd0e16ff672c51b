import UnifiedDns.Zone.Nsec3Denial

/-!
# Denials that rest on Opt-Out records

An NSEC3 record with the Opt-Out flag says nothing about the unsigned delegations in its gap.  The
code looks at the flag of the record that covers the next closer name, and only for a DS query.

* `CoveredByOptOut` — whatever covers the next closer name has the flag.
* `FlaglessDenial` — what is accepted all the same: the record of the wildcard without the type, or a
  gap around the next closer name and one around the wildcard.
* `OptOutChain` — the chain of a zone that leaves out unsigned delegations.  Its records cover a name
  at or below one of these with the flag only (`OptOutChain.coveredByOptOut`).
* `validateNsec3_optOut_iff` — a denial that rests on Opt-Out is refused exactly when it is no
  `FlaglessDenial`.
-/

namespace UnifiedDns
namespace Zone

open Dnssec

variable {Z : Zone} {N : Nsec3Params} {q : Name} {t : RecordType} {records : List Record}

/-- `next` is the next closer name of `q` under the closest encloser found, a proper ancestor. -/
structure NextCloserName (N : Nsec3Params) (q : Name) (t : RecordType) (records : List Record)
    (closest next : Name) : Prop where
  found : nsec3ClosestEncloser N.platform q t records N.salt N.iterations = some closest
  proper : closest.path ≠ q.path
  next_closer : nextCloser q closest = some next

/-- Every record that covers the next closer name has the Opt-Out flag. -/
def CoveredByOptOut (N : Nsec3Params) (records : List Record) (next : Name) : Prop :=
  ∀ rec ∈ records,
    nsec3Covers N.platform rec (nsec3Hash N.platform next N.salt N.iterations) = true →
    isOptOut rec = true

/-- What passes for a denial whatever the flags are: the first record of the wildcard shows neither
the type nor a CNAME, or one record covers the next closer name and one covers the wildcard. -/
def FlaglessDenial (N : Nsec3Params) (t : RecordType) (records : List Record)
    (closest next : Name) : Prop :=
  (∃ rec n, records.find? (matchesHash N.platform
      (nsec3Hash N.platform (wildcardName N.platform closest) N.salt N.iterations)) = some rec ∧
    rec.nsec3? = some n ∧ bitmapDenies n.typeBitMaps t = true) ∨
  (∃ rec ∈ records,
    nsec3Covers N.platform rec (nsec3Hash N.platform next N.salt N.iterations) = true) ∧
  ∃ rec ∈ records, nsec3Covers N.platform rec
    (nsec3Hash N.platform (wildcardName N.platform closest) N.salt N.iterations) = true

/-- Below a proper closest encloser, and for another type than DS, the flags do not matter. -/
theorem nsec3Verdict_secure_iff_flagless {closest next : Name} (ht : t ≠ .DS)
    (hnext : NextCloserName N q t records closest next) :
    nsec3Verdict N.platform q t records N.salt N.iterations = .secure ↔
      FlaglessDenial N t records closest next := by
  rw [nsec3Verdict_secure_iff_of_closest hnext.found hnext.proper,
    checkNsec3WildcardNodata_eq_secure_iff, checkNsec3Nxdomain_eq_secure_iff fun _ _ _ => ht]
  simp [FlaglessDenial, hnext.next_closer]

/-- For a name that no record shown speaks for, a denial is accepted exactly when it is a
`FlaglessDenial` under the closest encloser found. -/
theorem nsec3Verdict_secure_iff_exists_flagless (ht : t ≠ .DS)
    (hnodata : checkNsec3Nodata N.platform q t records N.salt N.iterations ≠ some .secure) :
    nsec3Verdict N.platform q t records N.salt N.iterations = .secure ↔
      ∃ closest next, NextCloserName N q t records closest next ∧
        FlaglessDenial N t records closest next := by
  constructor
  · intro h
    obtain ⟨closest, hfound, hne, -⟩ := (nsec3Verdict_secure_iff.mp h).resolve_left hnodata
    obtain ⟨next, hnextCloser⟩ := nextCloser_isSome (nsec3ClosestEncloser_spec hfound hne).1 hne
    have hnext : NextCloserName N q t records closest next := ⟨hfound, hne, hnextCloser⟩
    exact ⟨closest, next, hnext, (nsec3Verdict_secure_iff_flagless ht hnext).mp h⟩
  · rintro ⟨closest, next, hnext, hdenial⟩
    exact (nsec3Verdict_secure_iff_flagless ht hnext).mpr hdenial

/-! ### Chains that leave out unsigned delegations -/

/-- A delegation without DS. -/
def UnsignedDelegation (Z : Zone) (d : Path) : Prop :=
  d ∈ Z.owners ∧ Z.Delegation d ∧ RecordType.DS ∉ Z.types d

/-- The names that own a record in a chain with Opt-Out: all existing names but some unsigned
delegations, and the empty non-terminals that lead to nothing else. -/
structure OptOutChain (Z : Zone) where
  members : List Path
  exist : ∀ p ∈ members, Z.Exists p
  omitted : ∀ p, Z.Exists p → p ∉ members →
    ∀ o ∈ Z.owners, p <+: o → Z.UnsignedDelegation o ∧ o ∉ members

namespace OptOutChain

/-- `rec` is the record of the member `p`; it has the Opt-Out flag if a name left out lies in its
gap. -/
def RecordAt (C : OptOutChain Z) (N : Nsec3Params) (p : Path) (rec : Record) : Prop :=
  p ∈ C.members ∧ nsec3OwnerHash N.platform rec = some (N.hash p) ∧
    ∃ n, rec.nsec3? = some n ∧
      CyclicChain.CyclicNext {h | ∃ p, p ∈ C.members ∧ h = N.hash p} (N.hash p)
        n.nextHashedOwnerName ∧
      n.hashAlgorithm = nsec3Sha1 ∧ n.salt = N.salt ∧ n.iterations = N.iterations ∧
      (∀ p', Z.Exists p' → p' ∉ C.members →
        CyclicChain.InGap (N.hash p) n.nextHashedOwnerName (N.hash p') → optOut n = true) ∧
      ∀ t, t ∈ n.typeBitMaps ↔ t ∈ Z.types p ∨ (t = .RRSIG ∧ Z.OwnsSigned p)

/-- `rec` is some record of the chain. -/
def RecordOf (C : OptOutChain Z) (N : Nsec3Params) (rec : Record) : Prop :=
  ∃ p, C.RecordAt N p rec

variable {C : OptOutChain Z}

/-- A record of the chain that matches a name considered is the record of that name. -/
theorem RecordOf.recordAt_of_matches {rec : Record} {n : Name} (hfree : Z.CollisionFree N q)
    (hgenuine : C.RecordOf N rec) (hn : Z.Considered N q n.path)
    (hmatch : matchesHash N.platform (nsec3Hash N.platform n N.salt N.iterations) rec = true) :
    C.RecordAt N n.path rec := by
  obtain ⟨p, hp⟩ := hgenuine
  rw [matchesHash_iff, nsec3Hash_eq_hashPath] at hmatch
  have hhash : N.hash p = N.hash n.path := Option.some.inj (hp.2.1.symm.trans hmatch)
  have hpn := hfree p n.path (Or.inl (C.exist p hp.1)) hn hhash
  rwa [hpn] at hp

/-- A record of the chain covers an existing name as its own record, or with the Opt-Out flag. -/
theorem RecordOf.covers_cases {rec : Record} {n : Name} (hgenuine : C.RecordOf N rec)
    (hexist : Z.Exists n.path)
    (hcovers : nsec3Covers N.platform rec
      (nsec3Hash N.platform n N.salt N.iterations) = true) :
    matchesHash N.platform (nsec3Hash N.platform n N.salt N.iterations) rec = true ∨
      isOptOut rec = true := by
  obtain ⟨owner, n3, howner, hn3, -, heq | hgap⟩ := nsec3Covers_iff.mp hcovers
  · exact Or.inl (matchesHash_iff.mpr (by rw [howner, heq]))
  · obtain ⟨p, -, howner', n3', hn3', hnext, -, -, -, hflag, -⟩ := hgenuine
    rw [hn3] at hn3'
    cases hn3'
    rw [howner] at howner'
    cases howner'
    rw [nsec3Hash_eq_hashPath] at hgap
    right
    have hmember : n.path ∉ C.members := by
      intro hmem
      exact CyclicChain.not_inGap_of_mem hnext ⟨n.path, hmem, rfl⟩ hgap
    simp [isOptOut, hn3, hflag n.path hexist hmember hgap]

/-- Nothing at or below a delegation that was left out owns a record. -/
theorem not_mem_members_of_below {d p : Path} (hd : Z.UnsignedDelegation d) (hout : d ∉ C.members)
    (hdp : d <+: p) : p ∉ C.members := by
  intro hp
  by_cases heq : d = p
  · exact hout (heq ▸ hp)
  · have hcut : Z.Occluded p := ⟨d, (mem_owners.mp hd.1).1, Or.inl hd.2.1, hdp, heq⟩
    exact (C.exist p hp).not_occluded hcut

/-- For a name at or below a delegation that was left out, whatever covers the next closer name has
the Opt-Out flag. -/
theorem coveredByOptOut {closest next : Name} {d : Path} (ht : t ≠ .DS)
    (hfree : Z.CollisionFree N q) (hgenuine : ∀ rec ∈ records, C.RecordOf N rec)
    (hd : Z.UnsignedDelegation d) (hout : d ∉ C.members) (hdq : d <+: q.path)
    (hnext : NextCloserName N q t records closest next) : CoveredByOptOut N records next := by
  obtain ⟨hpre, -, hbetween⟩ := nsec3ClosestEncloser_spec hnext.found hnext.proper
  obtain ⟨hnextq, hdrop, hnextne⟩ := nextCloser_spec hnext.next_closer hpre hnext.proper
  have hclosestNext : closest.path <+: next.path := by
    rw [← hdrop]
    exact List.dropLast_prefix _
  -- The closest encloser has a record, so it stands strictly above the delegation.
  obtain ⟨rec₀, hrec₀, hmatch₀⟩ := nsec3ClosestEncloser_matches ht hnext.found
  have hmember : closest.path ∈ C.members :=
    ((hgenuine rec₀ hrec₀).recordAt_of_matches hfree (considered_of_ancestor hpre) hmatch₀).1
  have habove : closest.path <+: d ∧ closest.path ≠ d := by
    rcases List.prefix_or_prefix_of_prefix hpre hdq with hup | hdown
    · exact ⟨hup, fun heq => hout (heq ▸ hmember)⟩
    · exact absurd hmember (not_mem_members_of_below hd hout hdown)
  have hnextd : next.path <+: d := by
    refine List.prefix_of_prefix_length_le hnextq hdq ?_
    have hlt : closest.path.length < d.length :=
      lt_of_le_of_ne habove.1.length_le fun heq => habove.2 (habove.1.eq_of_length heq)
    have hlen := congrArg List.length hdrop
    rw [List.length_dropLast] at hlen
    omega
  have hexist : Z.Exists next.path :=
    ⟨(C.exist _ hmember).1.trans hclosestNext, d, hd.1, hnextd⟩
  intro rec hrec hcovers
  rcases (hgenuine rec hrec).covers_cases hexist hcovers with hmatch | hflag
  · rw [hbetween next hnextq hclosestNext hnextne rec hrec] at hmatch
    cases hmatch
  · exact hflag

/-- A name at or below a delegation that was left out has no record of its own. -/
theorem checkNsec3Nodata_of_below {d : Path} (hfree : Z.CollisionFree N q)
    (hgenuine : ∀ rec ∈ records, C.RecordOf N rec) (hd : Z.UnsignedDelegation d)
    (hout : d ∉ C.members) (hdq : d <+: q.path) :
    checkNsec3Nodata N.platform q t records N.salt N.iterations ≠ some .secure := by
  intro h
  obtain ⟨rec, hrec, hmatch, -⟩ := checkNsec3NodataFrom_eq_some h
  have hat := (hgenuine rec hrec).recordAt_of_matches hfree
    (considered_of_ancestor List.prefix_rfl) hmatch
  exact not_mem_members_of_below hd hout hdq hat.1

/-- Records of the chain agree on their parameters, so the code can use them. -/
theorem usableNsec3 {authority : List Record} (hiterations : N.iterations ≤ 150)
    (hgenuine : ∀ rec ∈ denialRecords .NSEC3 authority, C.RecordOf N rec)
    (hne : denialRecords .NSEC3 authority ≠ []) :
    ∃ first, UsableNsec3 authority first ∧ first.salt = N.salt ∧
      first.iterations = N.iterations := by
  refine usableNsec3_of_parameters hiterations (fun rec hrec => ?_) hne
  obtain ⟨p, -, -, n, hn, -, halg, hsalt, hiter, -⟩ := hgenuine rec hrec
  exact ⟨n, hn, halg, hsalt, hiter⟩

end OptOutChain

/-- **What a denial that rests on Opt-Out needs to pass.**  For another type than DS: a list whose
parameters cannot be used is never secure.  A list whose records cover the next closer name with the
Opt-Out flag only is refused exactly when it is no denial that ignores the flags.  The same holds of
every selection of records of a chain that leaves out a delegation at or above the name, and such a
selection covers the next closer name with the flag only. -/
theorem validateNsec3_optOut_iff {env : Env} {keys : List DNSKEY} {q : Name} {t : RecordType}
    {authority : List Record} {s : VState} (ht : t ≠ .DS)
    (hverified :
      (verifyDenialRecords env authority keys (denialRecords .NSEC3 authority) s).1 = true) :
    ((¬ ∃ first, UsableNsec3 authority first) →
      (validateNsec3 env keys q t authority s).1 ≠ .secure) ∧
    (∀ first closest next, UsableNsec3 authority first →
      NextCloserName ⟨env.platform, first.salt, first.iterations⟩ q t
        (denialRecords .NSEC3 authority) closest next →
      CoveredByOptOut ⟨env.platform, first.salt, first.iterations⟩
        (denialRecords .NSEC3 authority) next →
      ((validateNsec3 env keys q t authority s).1 ≠ .secure ↔
        ¬ FlaglessDenial ⟨env.platform, first.salt, first.iterations⟩ t
          (denialRecords .NSEC3 authority) closest next)) ∧
    ∀ (Z : Zone) (C : OptOutChain Z) (N : Nsec3Params) (d : Path), N.platform = env.platform →
      N.iterations ≤ 150 → Z.CollisionFree N q →
      (∀ rec ∈ denialRecords .NSEC3 authority, C.RecordOf N rec) →
      Z.UnsignedDelegation d → d ∉ C.members → d <+: q.path →
      (∀ closest next, NextCloserName N q t (denialRecords .NSEC3 authority) closest next →
        CoveredByOptOut N (denialRecords .NSEC3 authority) next) ∧
      ((validateNsec3 env keys q t authority s).1 ≠ .secure ↔
        ∀ closest next, NextCloserName N q t (denialRecords .NSEC3 authority) closest next →
          ¬ FlaglessDenial N t (denialRecords .NSEC3 authority) closest next) := by
  refine ⟨?_, ?_, ?_⟩
  · intro hunusable hsecure
    rcases validateNsec3_cases hsecure with h | ⟨h, -⟩ | ⟨first, husable, -⟩
    · cases h
    · cases h
    · exact hunusable ⟨first, husable⟩
  · intro first closest next husable hnext _
    rw [validateNsec3_of_verified husable hverified]
    exact not_congr (nsec3Verdict_secure_iff_flagless ht hnext)
  · intro Z C N d hplatform hiterations hfree hgenuine hd hout hdq
    refine ⟨fun closest next hnext =>
      C.coveredByOptOut ht hfree hgenuine hd hout hdq hnext, ?_⟩
    by_cases hempty : denialRecords .NSEC3 authority = []
    · -- Without records nothing is accepted.
      simp [validateNsec3, hempty, FlaglessDenial]
    · obtain ⟨first, husable, hsalt, hiter⟩ := C.usableNsec3 hiterations hgenuine hempty
      have hnodata := C.checkNsec3Nodata_of_below (t := t) hfree hgenuine hd hout hdq
      rw [validateNsec3_of_verified husable hverified, hsalt, hiter, ← hplatform, ne_eq,
        nsec3Verdict_secure_iff_exists_flagless ht hnodata]
      push Not
      exact Iff.rfl

/-! ### A delegation without a record -/

/-- SHA-1 on the names of the sample before and on `c.a.`. -/
def spanSha1 (wire : List Byte) : List Byte :=
  if wire = [1, 99, 1, 97, 0] then
    [86, 189, 119, 222, 189, 121, 173, 188, 163, 218, 108, 80, 222, 193, 29, 32, 28, 121, 250, 8]
  else sampleSha1 wire

def spanEnv : Env := { sha1Env with platform := { Platform.plain with sha1 := spanSha1 } }

/-- The chain has no salt and no extra iterations. -/
def spanParams : Nsec3Params := ⟨spanEnv.platform, [], 0⟩

/-- The zone `a.` with an unsigned delegation at `b.a.` and an address at `c.a.`. -/
def spanZone : Zone where
  apex := [[97]]
  names := [[[97]], [[97], [98]], [[97], [99]]]
  types p :=
    if p = [[97]] then [.NS, .SOA]
    else if p = [[97], [98]] then [.NS]
    else if p = [[97], [99]] then [.A]
    else []
  below_apex := by decide
  mem_names p := by
    by_cases ha : p = [[97]]
    · simp [ha]
    · by_cases hb : p = [[97], [98]]
      · simp [hb]
      · by_cases hc : p = [[97], [99]]
        · simp [hc]
        · simp [ha, hb, hc]
  apex_soa := by decide

/-- The delegation is left out. -/
def spanChain : OptOutChain spanZone where
  members := [[[97]], [[97], [99]]]
  exist := by decide
  omitted := by
    intro p hp hout o ho hpre
    have hleft : ∀ p ∈ spanZone.existing, p ∈ [[[97]], [[97], [99]]] ∨ p = [[97], [98]] := by
      decide
    have hbelow : ∀ o ∈ spanZone.owners, [[97], [98]] <+: o → o = [[97], [98]] := by decide
    rw [(hleft p (mem_existing.mpr hp)).resolve_left hout] at hpre
    rw [hbelow o ho hpre]
    exact ⟨⟨by decide, by decide, by decide⟩, by decide⟩

/-- The owner of the NSEC3 record of `c.a.`. -/
def hashedCA : Name :=
  hashedOwner [65, 81, 85, 78, 70, 78, 76, 84, 70, 54, 77, 82, 80, 56, 85, 81, 68, 72, 56, 68, 84,
    71, 56, 84, 52, 48, 69, 55, 74, 85, 71, 56] (by decide)

/-- The record of the apex, last in hash order. -/
def spanApexNsec3 : Record :=
  ⟨hashedA, .IN, 300, .nsec3 ⟨1, 0, 0, [], spanSha1 [1, 99, 1, 97, 0], [.NS, .SOA, .RRSIG]⟩⟩

/-- The record of `c.a.`, with the Opt-Out flag: the delegation lies in its gap. -/
def spanOptOutNsec3 : Record :=
  ⟨hashedCA, .IN, 300, .nsec3 ⟨1, 1, 0, [], spanSha1 [1, 97, 0], [.A, .RRSIG]⟩⟩

def spanAuthority : List Record :=
  [spanApexNsec3, spanOptOutNsec3, signatureAt hashedA .NSEC3, signatureAt hashedCA .NSEC3]

theorem spanZone_collisionFree : spanZone.CollisionFree spanParams nameBA := by
  decide

theorem spanChain_hashes :
    {h | ∃ p, p ∈ spanChain.members ∧ h = spanParams.hash p} =
      {h | h ∈ spanChain.members.map spanParams.hash} := by
  ext h
  simp only [Set.mem_ofPred_eq, List.mem_map, eq_comm]

theorem spanApexNsec3_genuine : spanChain.RecordOf spanParams spanApexNsec3 := by
  refine ⟨[[97]], by decide, by decide, _, rfl, ?_, rfl, rfl, rfl, ?_, ?_⟩
  · rw [spanChain_hashes]
    decide
  · -- The delegation is not in this gap.
    have hall : ∀ p' ∈ spanZone.existing, p' ∉ spanChain.members →
        ¬ CyclicChain.InGap (spanParams.hash [[97]]) (spanSha1 [1, 99, 1, 97, 0])
          (spanParams.hash p') := by decide
    exact fun p' hp' hout hgap => absurd hgap (hall p' (mem_existing.mpr hp') hout)
  · intro t
    have htypes : spanZone.types [[97]] = [.NS, .SOA] := by decide
    have hsigned : spanZone.OwnsSigned [[97]] := by
      refine ⟨by decide, fun h => ?_⟩
      exact absurd h.1 (by decide)
    simp [htypes, hsigned, or_assoc]

theorem spanOptOutNsec3_genuine : spanChain.RecordOf spanParams spanOptOutNsec3 := by
  refine ⟨[[97], [99]], by decide, by decide, _, rfl, ?_, rfl, rfl, rfl, fun _ _ _ _ => by decide, ?_⟩
  · rw [spanChain_hashes]
    decide
  · intro t
    have htypes : spanZone.types [[97], [99]] = [.A] := by decide
    have hsigned : spanZone.OwnsSigned [[97], [99]] := by
      refine ⟨by decide, fun h => ?_⟩
      exact absurd h.1 (by decide)
    simp [htypes, hsigned]

theorem spanAuthority_shown :
    denialRecords .NSEC3 spanAuthority = [spanApexNsec3, spanOptOutNsec3] := by
  simp [denialRecords, spanAuthority, maxNegativeRecords, spanApexNsec3, spanOptOutNsec3,
    signatureAt, Record.recordType, RData.recordType, RecordType.NSEC3, RecordType.RRSIG]

theorem spanAuthority_genuine :
    ∀ rec ∈ denialRecords .NSEC3 spanAuthority, spanChain.RecordOf spanParams rec := by
  rw [spanAuthority_shown]
  simp only [List.forall_mem_cons]
  exact ⟨spanApexNsec3_genuine, spanOptOutNsec3_genuine, by simp⟩

/-- The apex is the closest encloser shown, so `b.a.` is its own next closer name. -/
theorem spanAuthority_nextCloser :
    NextCloserName spanParams nameBA .A (denialRecords .NSEC3 spanAuthority) nameBA.baseName
      nameBA := by
  refine ⟨?_, by decide, rfl⟩
  rw [spanAuthority_shown]
  rfl

theorem spanAuthority_usable :
    UsableNsec3 spanAuthority ⟨1, 0, 0, [], spanSha1 [1, 99, 1, 97, 0], [.NS, .SOA, .RRSIG]⟩ :=
  ⟨spanApexNsec3, [spanOptOutNsec3], spanAuthority_shown, rfl, rfl, by decide, by decide⟩

theorem spanZone_unsigned : spanZone.UnsignedDelegation [[97], [98]] :=
  ⟨by decide, by decide, by decide⟩

/-- A gap with the flag hides a delegation, and the delegation comes out as missing: neither form of
the rule holds. -/
theorem optOut_denial_accepted :
    (¬ ∀ (env : Env) (keys : List DNSKEY) (q : Name) (t : RecordType) (authority : List Record)
        (s : VState) (first : NSEC3) (closest next : Name), t ≠ .DS →
        (verifyDenialRecords env authority keys (denialRecords .NSEC3 authority) s).1 = true →
        UsableNsec3 authority first →
        NextCloserName ⟨env.platform, first.salt, first.iterations⟩ q t
          (denialRecords .NSEC3 authority) closest next →
        CoveredByOptOut ⟨env.platform, first.salt, first.iterations⟩
          (denialRecords .NSEC3 authority) next →
        (∃ rec ∈ denialRecords .NSEC3 authority, nsec3Covers env.platform rec
          (nsec3Hash env.platform next first.salt first.iterations) = true) →
        (validateNsec3 env keys q t authority s).1 ≠ .secure) ∧
    ¬ ∀ (Z : Zone) (C : OptOutChain Z) (env : Env) (N : Nsec3Params) (d : Path)
        (keys : List DNSKEY) (q : Name) (t : RecordType) (authority : List Record) (s : VState),
        t ≠ .DS → N.platform = env.platform → N.iterations ≤ 150 → Z.CollisionFree N q →
        (∀ rec ∈ denialRecords .NSEC3 authority, C.RecordOf N rec) →
        (verifyDenialRecords env authority keys (denialRecords .NSEC3 authority) s).1 = true →
        Z.UnsignedDelegation d → d ∉ C.members → d <+: q.path →
        (validateNsec3 env keys q t authority s).1 ≠ .secure := by
  have hsecure : (validateNsec3 spanEnv [plainKey] nameBA .A spanAuthority VState.init).1 =
      .secure := by decide +kernel
  constructor
  · intro hclaim
    refine hclaim spanEnv [plainKey] nameBA .A spanAuthority VState.init _ _ _ (by decide)
      (by decide +kernel) spanAuthority_usable spanAuthority_nextCloser ?_ ?_ hsecure
    · exact spanChain.coveredByOptOut (by decide) spanZone_collisionFree spanAuthority_genuine
        spanZone_unsigned (by decide) (by decide) spanAuthority_nextCloser
    · exact ⟨spanOptOutNsec3, by rw [spanAuthority_shown]; simp, by decide⟩
  · intro hclaim
    exact hclaim spanZone spanChain spanEnv spanParams [[97], [98]] [plainKey] nameBA .A
      spanAuthority VState.init (by decide) rfl (by decide) spanZone_collisionFree
      spanAuthority_genuine (by decide +kernel) spanZone_unsigned (by decide) (by decide) hsecure

/-- The delegation of the sample: the denial is one that ignores the flags, and it is accepted. -/
theorem validateNsec3_optOut_iff_span :
    ((validateNsec3 spanEnv [plainKey] nameBA .A spanAuthority VState.init).1 ≠ .secure ↔
      ¬ FlaglessDenial spanParams .A (denialRecords .NSEC3 spanAuthority) nameBA.baseName nameBA) ∧
    ((validateNsec3 spanEnv [plainKey] nameBA .A spanAuthority VState.init).1 ≠ .secure ↔
      ∀ closest next,
        NextCloserName spanParams nameBA .A (denialRecords .NSEC3 spanAuthority) closest next →
        ¬ FlaglessDenial spanParams .A (denialRecords .NSEC3 spanAuthority) closest next) := by
  obtain ⟨-, hlist, hzone⟩ := @validateNsec3_optOut_iff spanEnv [plainKey] nameBA .A spanAuthority
    VState.init (by decide) (by decide +kernel)
  obtain ⟨hcovered, hiff⟩ := hzone spanZone spanChain spanParams [[97], [98]] rfl (by decide)
    spanZone_collisionFree spanAuthority_genuine spanZone_unsigned (by decide) (by decide)
  exact ⟨hlist _ _ _ spanAuthority_usable spanAuthority_nextCloser
    (hcovered _ _ spanAuthority_nextCloser), hiff⟩

end Zone
end UnifiedDns
