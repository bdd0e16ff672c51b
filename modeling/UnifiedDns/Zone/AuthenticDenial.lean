import UnifiedDns.Dnssec.AuthenticAnswer
import UnifiedDns.Dnssec.WildcardAnswer
import UnifiedDns.Recursor.MergedDenial
import UnifiedDns.Zone.Nxdomain

/-!
# Denials that zones have signed

In a world of honest zones a `secure` verdict on a negative message rests on records that one zone has signed:
the zone of the SOA record.  Nothing is assumed of the servers that gave the message.  What such a zone shows
is true of its content, up to the ways in which the verdict is known to be misled.

* `AuthenticDenial`, `validateMessage_authenticDenial` — the SOA and the records of the denial are signed.
* `SignsChains` — the signed NSEC and NSEC3 records are those of a chain over the content of the zone.
* `PlainDenial` — no record stands below the wildcard that was signed, and no names share a hash.
* `AuthenticDenial.hasNoAnswer`, `AuthenticDenial.not_present` — what is denied is not there.
-/

namespace UnifiedDns
namespace Zone

open Dnssec
open Recursor (DeniesName)

/-- The denial in a message is what the zone at `apex` signs. -/
structure AuthenticDenial (P : Platform) (W : Dnssec.World) (apex : Path) (qname : Name) (qtype : RecordType)
    (msg : Message) : Prop where
  above : apex <+: (finalTarget msg qname).path ∨ apex <+: qname.path
  soa : ∃ soaRec, denialSoa msg = some soaRec ∧ soaRec.name.path = apex ∧
    SignedBy P W apex msg.nameServers soaRec.name .SOA
  shown : ∀ rec ∈ shownDenial msg.nameServers,
    SignedBy P W apex msg.nameServers rec.name rec.recordType
  denies : DeniesName P (finalTarget msg qname) qtype msg.nameServers

section Verdict

variable {env : Env} {W : Dnssec.World}

/-- What verifies under keys of a zone is signed by the zone. -/
theorem signedBy_of_verified (hhonest : Honest env.platform W) {apex : Path} {keys : List DNSKEY}
    (howned : W.Owns apex keys) {authority : List Record} {rec : Record}
    (h : VerifiedDenial env keys authority rec) :
    SignedBy env.platform W apex authority rec.name rec.recordType := by
  obtain ⟨rrsig, hrrsig, key, hkey, tick, hverify⟩ := h
  obtain ⟨-, -, -, htype, -⟩ := mem_coveringRrsigs.mp hrrsig
  exact (verifyRrsig_genuine hhonest (howned key hkey) hverify).signedBy hhonest.readsStar htype

/-- A `secure` verdict on a negative message. -/
theorem validateMessage_authenticDenial (hhonest : Honest env.platform W)
    (hfaithful : env.platform.NameKeyFaithful) {msg : Message} {qname : Name} {qtype : RecordType}
    {s : VState} (hsound : TrustSound env W s) (hnegative : judgedNegative msg = true)
    (h : (validateMessage env msg qname qtype s).1 = .secure) :
    ∃ apex, AuthenticDenial env.platform W apex qname qtype msg := by
  have hjudged : (validateNegative env msg qname qtype { s with budget := .default }).1 = .secure := by
    simp only [judgedNegative, Bool.or_eq_true, decide_eq_true_eq] at hnegative
    unfold validateMessage validateMessageWithBudget at h
    split at h
    · exact h
    · rename_i hcode
      rcases hnegative with hnx | hempty
      · rw [hcode] at hnx
        cases hnx
      · rwa [if_pos hempty] at h
    · cases h
  have hfresh : TrustSound env W { s with budget := .default } := ⟨hsound.cached, hsound.logged⟩
  obtain ⟨soaRec, keys, ttl, s₁, s₂, hsoa, hforeign, hchain, hverify, hdenial⟩ :=
    Recursor.validateNegative_secure hjudged
  have howned : W.Owns soaRec.name.path keys :=
    buildTrustChain_owned hhonest hfaithful hfresh (congrArg Prod.fst hchain)
  obtain ⟨hdenies, hverified⟩ := Recursor.denies_of_validateDenial hdenial
  refine ⟨soaRec.name.path, foreignSoa_eq_false_iff.mp hforeign, ⟨soaRec, hsoa, rfl, ?_⟩,
    fun rec hrec => ?_, hdenies⟩
  · have hsigned := signedBy_of_verified hhonest howned
      (verifyNegativeRrset_verified (congrArg Prod.fst hverify))
    rwa [Recursor.denialSoa_type hsoa] at hsigned
  · exact signedBy_of_verified hhonest howned (verifyDenialRecords_verified hverified rec hrec)

end Verdict

/-! ### What the zone holds -/

/-- Each zone signs the records of one chain over its content as NSEC records, and those of one chain without
Opt-Out as NSEC3 records. -/
structure SignsChains (P : Platform) (W : Dnssec.World) (content : Path → Zone) (salt : Path → List Byte)
    (iterations : Path → Nat) : Prop where
  apex : ∀ p, (content p).apex = p
  nsec : ∀ apex (rec : Record), rec.recordType = .NSEC → ∀ r ∈ (W apex).data rec.name.path .NSEC,
    SameWire P r.data rec.data → (content apex).NsecRecordOf rec
  nsec3 : ∀ apex (rec : Record), rec.recordType = .NSEC3 → ∀ r ∈ (W apex).data rec.name.path .NSEC3,
    SameWire P r.data rec.data → (content apex).Nsec3RecordOf ⟨P, salt apex, iterations apex⟩ rec

/-- Every record shown was signed under its own owner, and no two names considered share a hash. -/
structure PlainDenial (Z : Zone) (N : Nsec3Params) (W : Dnssec.World) (target : Name) (msg : Message) :
    Prop where
  unexpanded : ∀ rec ∈ shownDenial msg.nameServers,
    SignedFrom N.platform W Z.apex rec.name.path rec.recordType
      (rrset msg.nameServers rec.name rec.recordType)
  collisionFree : UsesNsec3 msg → Z.CollisionFree N target

/-- The ways in which genuine records of a denial mislead the verdict. -/
def DenialMisleads (Z : Zone) (N : Nsec3Params) (target : Name) (qtype : RecordType) (msg : Message) : Prop :=
  (UsesNsec3 msg ∧ Z.Nsec3Misleads N target qtype (shownDenial msg.nameServers)) ∨
    (¬ UsesNsec3 msg ∧ Z.NsecMisleads N.platform target qtype (shownDenial msg.nameServers))

section Content

variable {P : Platform} {W : Dnssec.World} {content : Path → Zone} {salt : Path → List Byte}
  {iterations : Path → Nat} {apex : Path} {qname : Name} {qtype : RecordType} {msg : Message}

theorem mem_shownDenial {rec : Record} (h : rec ∈ shownDenial msg.nameServers) :
    rec ∈ msg.nameServers ∧
      (UsesNsec3 msg ∧ rec.recordType = .NSEC3 ∨ ¬ UsesNsec3 msg ∧ rec.recordType = .NSEC) := by
  by_cases huses : UsesNsec3 msg
  · rw [usesNsec3_shownDenial huses] at h
    exact ⟨(mem_denialRecords h).1, Or.inl ⟨huses, (mem_denialRecords h).2⟩⟩
  · rw [not_usesNsec3_shownDenial huses] at h
    exact ⟨(mem_denialRecords h).1, Or.inr ⟨huses, (mem_denialRecords h).2⟩⟩

/-- The records of a plain denial are records of the chain. -/
theorem PlainDenial.genuine (hchains : SignsChains P W content salt iterations) {target : Name}
    (h : (content apex).PlainDenial ⟨P, salt apex, iterations apex⟩ W target msg) :
    ∀ rec ∈ shownDenial msg.nameServers,
      (UsesNsec3 msg → (content apex).Nsec3RecordOf ⟨P, salt apex, iterations apex⟩ rec) ∧
        (¬ UsesNsec3 msg → (content apex).NsecRecordOf rec) := by
  intro rec hrec
  obtain ⟨hmem, htype⟩ := mem_shownDenial hrec
  have hsigned := h.unexpanded rec hrec
  rw [hchains.apex] at hsigned
  have hstands : rec ∈ rrset msg.nameServers rec.name rec.recordType :=
    List.mem_filter.mpr ⟨hmem, by simp⟩
  obtain ⟨r, hr, hwire⟩ := hsigned.published hstands
  rcases htype with ⟨huses, htype⟩ | ⟨huses, htype⟩
  · rw [htype] at hr
    exact ⟨fun _ => hchains.nsec3 apex rec htype r hr hwire, fun hnot => absurd huses hnot⟩
  · rw [htype] at hr
    exact ⟨fun hyes => absurd hyes huses, fun _ => hchains.nsec apex rec htype r hr hwire⟩

/-- An authentic denial shows what the verdict is about. -/
theorem AuthenticDenial.shownBy (hchains : SignsChains P W content salt iterations)
    (h : AuthenticDenial P W apex qname qtype msg)
    (hplain : (content apex).PlainDenial ⟨P, salt apex, iterations apex⟩ W (finalTarget msg qname) msg) :
    (content apex).Shown ⟨P, salt apex, iterations apex⟩ (finalTarget msg qname) qtype msg := by
  have hgenuine := hplain.genuine hchains
  rcases h.denies with ⟨first, husable, hverdict⟩ | ⟨hnone, -, hverdict⟩
  · obtain ⟨rec, rest, hcons, hfirst, -, hiter, -⟩ := husable
    have hrec : rec ∈ denialRecords .NSEC3 msg.nameServers := by
      rw [hcons]
      exact List.mem_cons_self
    have huses : UsesNsec3 msg := ⟨rec, mem_denialRecords hrec⟩
    rw [usesNsec3_shownDenial huses] at hgenuine
    -- The parameters of the first record are those of the chain.
    obtain ⟨p, -, -, n, hn, -, -, hsalt, hcount, -⟩ := (hgenuine rec hrec).1 huses
    rw [hfirst] at hn
    cases hn
    rw [hsalt, hcount] at hverdict
    rw [hcount] at hiter
    refine Or.inl ⟨huses, hiter, ?_⟩
    rw [usesNsec3_shownDenial huses]
    exact (nsec3Verdict_secure_iff_of_genuine (hplain.collisionFree huses)
      fun rec' hrec' => (hgenuine rec' hrec').1 huses).mp hverdict
  · have huses : ¬ UsesNsec3 msg := by
      rintro ⟨r, hr, htype⟩
      exact hnone r hr htype
    rw [not_usesNsec3_shownDenial huses] at hgenuine
    refine Or.inr ⟨huses, ?_⟩
    rw [not_usesNsec3_shownDenial huses]
    exact (nsecVerdict_secure_iff_of_genuine fun rec hrec => (hgenuine rec hrec).2 huses).mp hverdict

/-- The zone has no answer for what it denies. -/
theorem AuthenticDenial.hasNoAnswer (hchains : SignsChains P W content salt iterations)
    (h : AuthenticDenial P W apex qname qtype msg)
    (hplain : (content apex).PlainDenial ⟨P, salt apex, iterations apex⟩ W (finalTarget msg qname) msg)
    (hclean : ¬ (content apex).DenialMisleads ⟨P, salt apex, iterations apex⟩ (finalTarget msg qname)
      qtype msg) :
    (content apex).HasNoAnswer (finalTarget msg qname).path qtype := by
  have hgenuine := hplain.genuine hchains
  rcases h.shownBy hchains hplain with ⟨huses, -, hshown⟩ | ⟨huses, hshown⟩
  · exact hasNoAnswer_of_nsec3Shown (hplain.collisionFree huses)
      (fun rec hrec => (hgenuine rec hrec).1 huses) hshown fun hmisled => hclean (Or.inl ⟨huses, hmisled⟩)
  · exact hasNoAnswer_of_nsecShown (fun rec hrec => (hgenuine rec hrec).2 huses) hshown
      fun hmisled => hclean (Or.inr ⟨huses, hmisled⟩)

/-- There is nothing at a name of the zone that is denied, nor below it, unless its presence is missed. -/
theorem AuthenticDenial.not_present (hchains : SignsChains P W content salt iterations)
    (h : AuthenticDenial P W apex qname qtype msg)
    (hplain : (content apex).PlainDenial ⟨P, salt apex, iterations apex⟩ W (finalTarget msg qname) msg)
    (hbelow : apex <+: (finalTarget msg qname).path)
    (hseen : ¬ (content apex).PresenceMissed ⟨P, salt apex, iterations apex⟩ (finalTarget msg qname)
      qtype msg) :
    ¬ (content apex).Present (finalTarget msg qname).path := by
  have hgenuine := hplain.genuine hchains
  intro hpresent
  rw [← hchains.apex apex] at hbelow
  exact hseen ((presenceMissed_iff hplain.collisionFree hbelow
    (fun huses rec hrec => (hgenuine rec hrec).2 huses)
    fun huses rec hrec => (hgenuine rec hrec).1 huses).mpr ⟨h.shownBy hchains hplain, hpresent⟩)

end Content

/-! ### A root zone that signs its chain

The root zone has an address at `a.`; it signs its key, its SOA and its two NSEC records. -/

/-- The RRsets that the root zone signs. -/
def chainSets : List (Name × RecordType × List Record) :=
  [(.root, .DNSKEY, [rootRecord .root (.dnskey rootKey)]),
    (.root, .SOA, [rootRecord .root (.soa [])]),
    (.root, .NSEC, [rootNsec .root (topName 97) [.NS, .SOA, .RRSIG, .NSEC, .DNSKEY]]),
    (topName 97, .NSEC, [rootNsec (topName 97) .root [.A, .RRSIG, .NSEC]])]

/-- The two NSEC records on the wire: the next name and the window of the types. -/
def chainNsecWire (nsec : NSEC) : Option (List Byte) :=
  if nsec.nextDomainName.path = [[97]] ∧ nsec.typeBitMaps = [.NS, .SOA, .RRSIG, .NSEC, .DNSKEY] then
    some [1, 97, 0, 0, 7, 34, 0, 0, 0, 0, 3, 128]
  else if nsec.nextDomainName.path = [] ∧ nsec.typeBitMaps = [.A, .RRSIG, .NSEC] then
    some [0, 0, 6, 64, 0, 0, 0, 0, 3]
  else none

/-- The root platform with the wire form of the RRsets. -/
def chainWirePlatform : Platform := { rootPlatform with
  rdataWire := fun data =>
    match data with
    | .soa octets => if octets.length < 65536 then some octets else none
    | .dnskey key => if (dnskeyWire key).length < 65536 then some (dnskeyWire key) else none
    | .nsec nsec => chainNsecWire nsec
    | _ => none }

/-- Signatures are good over these RRsets only. -/
def chainPlatform : Platform := { chainWirePlatform with
  verifySignature := fun _ _ tbs sig => decide (sig = [1]) && chainSets.any fun set =>
    decide (buildTbs chainWirePlatform (rootRrsig set.1 set.2.1) set.1 set.2.2 = some tbs) }

def chainEnv : Env := { rootEnv fun _ _ => none with platform := chainPlatform }

/-- The RRset of the root zone at an owner. -/
def chainData (p : Path) (rtype : RecordType) : List Record :=
  match chainSets.find? fun set => decide (set.1.path = p) && decide (set.2.1 = rtype) with
  | some set => set.2.2
  | none => []

def chainRoot : SignedZone where
  ownsKey key := dnskeyWire key = dnskeyWire rootKey
  data := chainData
  HasName p := ∃ q rtype, chainData q rtype ≠ [] ∧ p <+: q
  hasName_of_data _ q rtype hdata habove := ⟨q, rtype, hdata, habove⟩

/-- Nobody but the root zone signs. -/
def chainWorld : Dnssec.World := fun apex => if apex = [] then chainRoot else emptyZone

/-- A zone with nothing but an SOA. -/
def bareZone (apex : Path) : Zone where
  apex := apex
  names := [apex]
  types p := if p = apex then [.SOA] else []
  below_apex := by simp
  mem_names p := by
    by_cases hp : p = apex
    · simp [hp]
    · simp [hp]
  apex_soa := by simp

def chainContent (apex : Path) : Zone := if apex = [] then rootZone else bareZone apex

theorem exists_of_mem_chainData {p : Path} {rtype : RecordType} {r : Record} (h : r ∈ chainData p rtype) :
    ∃ set ∈ chainSets, set.1.path = p ∧ set.2.1 = rtype ∧ r ∈ set.2.2 := by
  unfold chainData at h
  split at h
  · rename_i set hset
    have hcond := List.find?_some hset
    simp only [Bool.and_eq_true, decide_eq_true_eq] at hcond
    exact ⟨set, List.mem_of_find?_eq_some hset, hcond.1, hcond.2, h⟩
  · cases h

/-- Whatever is signed is one of the RRsets of the root zone. -/
theorem chainWorld_data {apex p : Path} {rtype : RecordType} {r : Record}
    (h : r ∈ (chainWorld apex).data p rtype) :
    apex = [] ∧ ∃ set ∈ chainSets, set.1.path = p ∧ set.2.1 = rtype ∧ r ∈ set.2.2 := by
  unfold chainWorld at h
  split at h
  · rename_i hapex
    exact ⟨hapex, exists_of_mem_chainData h⟩
  · cases h

theorem chainPlatform_unforgeable {key : DNSKEY} {tbs sig : List Byte}
    (h : chainPlatform.acceptsSignature key.algorithm key.publicKey tbs sig = true) :
    chainRoot.Signed chainPlatform [] tbs := by
  have hsets : ∀ set ∈ chainSets, (rootRrsig set.1 set.2.1).numLabels.val = set.1.numLabels ∧
      chainData set.1.path set.2.1 = set.2.2 := by
    simp only [chainSets, List.forall_mem_cons]
    exact ⟨⟨by decide, rfl⟩, ⟨by decide, rfl⟩, ⟨by decide, rfl⟩, ⟨by decide, rfl⟩, by simp⟩
  have hverify : chainPlatform.verifySignature key.algorithm key.publicKey tbs sig = true :=
    ((Bool.or_eq_true _ _).mp h).resolve_right Bool.false_ne_true
  simp only [chainPlatform, Bool.and_eq_true, List.any_eq_true, decide_eq_true_eq] at hverify
  obtain ⟨-, set, hset, htbs⟩ := hverify
  obtain ⟨hlabels, hdata⟩ := hsets set hset
  refine ⟨rootRrsig set.1 set.2.1, set.1, rfl, hlabels, ?_⟩
  show buildTbs chainPlatform _ _ (chainData set.1.path set.2.1) = some tbs
  rw [hdata, @buildTbs_congr chainPlatform chainWirePlatform rfl rfl rfl, htbs]

theorem chainPlatform_fits : RdataFits chainPlatform := by
  intro data rdata h
  simp only [chainPlatform, chainWirePlatform] at h
  split at h
  · split at h
    · rename_i hlength
      cases h
      exact hlength
    · cases h
  · split at h
    · rename_i hlength
      cases h
      exact hlength
    · cases h
  · unfold chainNsecWire at h
    split at h
    · cases h
      decide
    · split at h
      · cases h
        decide
      · cases h
  · cases h

theorem chainWorld_honest : Honest chainPlatform chainWorld := by
  refine ⟨?_, ?_, ?_, fun d hd key h => signedPlatform_anchors hd h, ?_, chainPlatform_fits,
    plain_readsStar⟩
  · intro apex key tbs sig howned hverify
    unfold chainWorld at howned ⊢
    split at howned
    · rename_i hapex
      rw [if_pos hapex, hapex]
      exact chainPlatform_unforgeable hverify
    · cases howned
  · rintro apex r hr key ⟨wire, hwire, hkeyWire⟩
    obtain ⟨rfl, -⟩ := chainWorld_data hr
    have hkey : r = rootRecord .root (.dnskey rootKey) := List.mem_singleton.mp hr
    have hfits : (dnskeyWire rootKey).length < 65536 := by decide +kernel
    subst hkey
    simp only [chainPlatform, chainWirePlatform, rootRecord, hfits, if_true] at hwire hkeyWire
    split at hkeyWire
    · exact Option.some.inj (hkeyWire.trans hwire.symm)
    · cases hkeyWire
  · intro child r hr
    have hds : ∀ set ∈ chainSets, set.2.1 ≠ .DS := by decide
    obtain ⟨-, set, hset, -, htype, -⟩ := chainWorld_data hr
    exact absurd htype (hds set hset)
  · intro apex p rtype htype
    have hkeys : ∀ set ∈ chainSets, set.2.1 = .DS ∨ set.2.1 = .DNSKEY → set.1.path = [] := by decide
    by_contra hdata
    obtain ⟨r, hr⟩ := List.exists_mem_of_ne_nil _ hdata
    obtain ⟨-, set, hset, hpath, hset', -⟩ := chainWorld_data hr
    rw [hkeys set hset (by rwa [hset'])] at hpath
    simp at hpath

/-- Only the path and the NSEC data of a record tell whether it is one of the chain. -/
theorem NsecRecordOf.congr {Z : Zone} {rec rec' : Record} {nsec nsec' : NSEC} (h : Z.NsecRecordOf rec)
    (hnsec : rec.nsec? = some nsec) (hpath : rec'.name.path = rec.name.path)
    (hnsec' : rec'.nsec? = some nsec') (hnext : nsec'.nextDomainName.path = nsec.nextDomainName.path)
    (htypes : nsec'.typeBitMaps = nsec.typeBitMaps) : Z.NsecRecordOf rec' := by
  obtain ⟨found, hfound, hlink, hbitmap⟩ := h
  rw [hnsec] at hfound
  cases hfound
  exact ⟨nsec', hnsec', by rwa [hpath, hnext], by rwa [hpath, htypes]⟩

/-- Records of type NSEC that can be emitted hold NSEC data. -/
theorem chainPlatform_nsec {rec : Record} {wire : List Byte} (htype : rec.recordType = .NSEC)
    (hwire : chainPlatform.rdataWire rec.data = some wire) :
    ∃ nsec, rec.nsec? = some nsec ∧ chainNsecWire nsec = some wire := by
  simp only [chainPlatform, chainWirePlatform] at hwire
  unfold Record.recordType at htype
  split at hwire
  · rename_i heq
    rw [heq] at htype
    exact absurd (show RecordType.SOA = .NSEC from htype) (by decide)
  · rename_i heq
    rw [heq] at htype
    exact absurd (show RecordType.DNSKEY = .NSEC from htype) (by decide)
  · rename_i nsec heq
    exact ⟨nsec, by rw [Record.nsec?, heq], hwire⟩
  · cases hwire

theorem chainWorld_signsChains :
    SignsChains chainPlatform chainWorld chainContent (fun _ => []) fun _ => 0 where
  apex p := by
    unfold chainContent
    split
    · rename_i hp
      exact hp.symm
    · rfl
  nsec apex rec htype r hr hsame := by
    obtain ⟨rfl, set, hset, hpath, hsetType, hmem⟩ := chainWorld_data hr
    obtain ⟨wire, hwire, hrec⟩ := hsame
    obtain ⟨nsec, hnsec, hnsecWire⟩ := chainPlatform_nsec htype hrec
    have hgenuine := rootDenial_genuine
    rw [show denialRecords .NSEC rootDenial =
      [rootNsec .root (topName 97) [.NS, .SOA, .RRSIG, .NSEC, .DNSKEY],
        rootNsec (topName 97) .root [.A, .RRSIG, .NSEC]] from rfl] at hgenuine
    obtain ⟨hroot, ha, -⟩ := List.forall_mem_cons.mp hgenuine |>.imp_right List.forall_mem_cons.mp
    simp only [chainSets, List.mem_cons, List.not_mem_nil, or_false] at hset
    rcases hset with rfl | rfl | rfl | rfl
    · exact absurd hsetType (by decide)
    · exact absurd hsetType (by decide)
    · obtain rfl := List.mem_singleton.mp hmem
      have hoctets : chainPlatform.rdataWire (rootNsec .root (topName 97)
          [.NS, .SOA, .RRSIG, .NSEC, .DNSKEY]).data = some [1, 97, 0, 0, 7, 34, 0, 0, 0, 0, 3, 128] := by
        decide
      cases hoctets.symm.trans hwire
      unfold chainNsecWire at hnsecWire
      split at hnsecWire
      · rename_i hsame
        exact hroot.congr rfl hpath.symm hnsec hsame.1 hsame.2
      · split at hnsecWire
        · cases hnsecWire
        · cases hnsecWire
    · obtain rfl := List.mem_singleton.mp hmem
      have hoctets : chainPlatform.rdataWire (rootNsec (topName 97) .root [.A, .RRSIG, .NSEC]).data =
          some [0, 0, 6, 64, 0, 0, 0, 0, 3] := by decide
      cases hoctets.symm.trans hwire
      unfold chainNsecWire at hnsecWire
      split at hnsecWire
      · cases hnsecWire
      · split at hnsecWire
        · rename_i hsame
          exact ha.congr rfl hpath.symm hnsec hsame.1 hsame.2
        · cases hnsecWire
  nsec3 apex rec htype r hr hsame := by
    have hnone : ∀ set ∈ chainSets, set.2.1 ≠ .NSEC3 := by decide
    obtain ⟨-, set, hset, -, hsetType, -⟩ := chainWorld_data hr
    exact absurd hsetType (hnone set hset)

end Zone
end UnifiedDns
