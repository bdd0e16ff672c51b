import UnifiedDns.Dnssec.Downgrade
import UnifiedDns.Dnssec.Signers

/-!
# Answers from wildcards

What a secure positive answer says of the zone that signed it.  An RRSIG with fewer labels than its
owner stands for a wildcard, and the zone answers from a wildcard only below its closest encloser; the
positive pipeline does not look for the denial of a closer match.

* `SignedZone.Serves` — the RRset a zone answers with for a name and type.
* `SignedZone.NoCloserMatch` — what a denial beside a wildcard answer would prove.
* `GenuineAnswer` — an RRset of the section is one the signer zone signs, and the one it serves if nothing
  closer than the wildcard exists.
* `validateMessage_secure_genuine` — every RRset that a secure answer rests on is genuine, whatever the
  authority section holds.
-/

namespace UnifiedDns
namespace Dnssec

namespace SignedZone

/-- The RRset the zone answers with: the one at the name or, when the name does not exist, the one at the
wildcard of its closest encloser. -/
inductive Serves (Z : SignedZone) (q : Path) (rtype : RecordType) : List Record → Prop
  | own (hname : Z.HasName q) : Serves Z q rtype (Z.data q rtype)
  | wildcard {encloser : Path} (hnone : ¬ Z.HasName q) (hname : Z.HasName encloser)
      (habove : encloser <+: q) (hclosest : ∀ p, Z.HasName p → p <+: q → p <+: encloser) :
      Serves Z q rtype (Z.data (encloser ++ [Name.starLabel]) rtype)

/-- No name of the zone on the way to `q` has more than `count` labels. -/
def NoCloserMatch (Z : SignedZone) (q : Path) (count : Nat) : Prop :=
  ∀ p, Z.HasName p → p <+: q → p.length ≤ count

theorem serves_own {Z : SignedZone} {q : Path} {rtype : RecordType} (hdata : Z.data q rtype ≠ []) :
    Z.Serves q rtype (Z.data q rtype) :=
  .own (Z.hasName_of_data q q rtype hdata (List.prefix_refl q))

/-- A wildcard with no closer match is what the zone answers from. -/
theorem serves_wildcard {Z : SignedZone} {q : Path} {rtype : RecordType} {count : Nat}
    (hlength : count < q.length) (hcloser : Z.NoCloserMatch q count)
    (hdata : Z.data (q.take count ++ [Name.starLabel]) rtype ≠ []) :
    Z.Serves q rtype (Z.data (q.take count ++ [Name.starLabel]) rtype) := by
  refine .wildcard (fun hname => ?_) (Z.hasName_of_data _ _ rtype hdata (List.prefix_append _ _))
    (List.take_prefix count q) fun p hname habove => ?_
  · have hle := hcloser q hname (List.prefix_refl q)
    omega
  · exact List.prefix_take_iff.mpr ⟨habove, hcloser p hname habove⟩

end SignedZone

/-- The records have the contents that the zone answers with. -/
def Served (P : Platform) (Z : SignedZone) (owner : Name) (rtype : RecordType)
    (records : List Record) : Prop :=
  ∃ served, Z.Serves owner.path rtype served ∧ (contents P records).Perm (contents P served)

/-- The signer zone signs these contents: at the owner, or, with fewer labels in the RRSIG than the owner has,
at a wildcard with that many labels, which was read in the place of the one above the owner. -/
def SignedContents (P : Platform) (Z : SignedZone) (rrsig : RRSIG) (owner : Name)
    (records : List Record) : Prop :=
  (owner.numLabels ≤ rrsig.numLabels.val ∧
      (contents P records).Perm (contents P (Z.data owner.path rrsig.typeCovered))) ∨
    (rrsig.numLabels.val < owner.numLabels ∧
      ∃ wildcard, readWildcard P owner rrsig.numLabels.val = some wildcard ∧
        (∃ parent, parent.length = rrsig.numLabels.val ∧ wildcard.path = parent ++ [Name.starLabel]) ∧
        (contents P records).Perm (contents P (Z.data wildcard.path rrsig.typeCovered)))

/-- The RRset is one that a signer zone signs.  The zone answers with it where the wildcard, if it stands at
one, was read as the one above the owner and no name closer than that exists. -/
def GenuineAnswer (P : Platform) (W : World) (records : List Record) (owner : Name)
    (rtype : RecordType) : Prop :=
  ∃ rrsig ∈ coveringRrsigs records owner rtype,
    Genuine P W rrsig.signerName.path rrsig owner (rrset records owner rtype) ∧
      SignedContents P (W rrsig.signerName.path) rrsig owner (rrset records owner rtype) ∧
      ((rrsig.numLabels.val < owner.numLabels → ReadsBack P owner rrsig.numLabels.val ∧
          (W rrsig.signerName.path).NoCloserMatch owner.path rrsig.numLabels.val) →
        Served P (W rrsig.signerName.path) owner rtype (rrset records owner rtype))

theorem Genuine.signedContents {P : Platform} {W : World} (hreads : P.ReadsStar) {apex : Path}
    {rrsig : RRSIG} {owner : Name} {records : List Record} (h : Genuine P W apex rrsig owner records) :
    SignedContents P (W apex) rrsig owner records := by
  by_cases hfewer : rrsig.numLabels.val < owner.numLabels
  · obtain ⟨hread, hstar⟩ := h.wildcard hreads hfewer
    exact Or.inr ⟨hfewer, _, hread, hstar, h.contents_perm⟩
  · have hcontents := h.contents_perm
    rw [signedOwner_of_le (Nat.not_lt.mp hfewer)] at hcontents
    exact Or.inl ⟨Nat.not_lt.mp hfewer, hcontents⟩

theorem Genuine.served {P : Platform} {W : World} (hreads : P.ReadsStar) {apex : Path} {rrsig : RRSIG}
    {owner : Name} {records : List Record} (h : Genuine P W apex rrsig owner records)
    (hcloser : rrsig.numLabels.val < owner.numLabels → ReadsBack P owner rrsig.numLabels.val ∧
      (W apex).NoCloserMatch owner.path rrsig.numLabels.val) :
    Served P (W apex) owner rrsig.typeCovered records := by
  refine ⟨_, ?_, h.contents_perm⟩
  have hdata : (W apex).data (signedOwner P rrsig owner).path rrsig.typeCovered ≠ [] := by
    intro hnil
    have hperm := h.contents_perm
    rw [hnil] at hperm
    exact h.nonempty (List.map_eq_nil_iff.mp hperm.eq_nil)
  by_cases hfewer : rrsig.numLabels.val < owner.numLabels
  · obtain ⟨⟨wildcard, hback, hpath⟩, hnone⟩ := hcloser hfewer
    obtain ⟨hread, -⟩ := h.wildcard hreads hfewer
    -- The name that was read is the wildcard above the owner.
    cases hread.symm.trans hback
    rw [hpath] at hdata ⊢
    exact SignedZone.serves_wildcard (hfewer.trans_le owner.numLabels_le_length) hnone hdata
  · rw [signedOwner_of_le (Nat.not_lt.mp hfewer)] at hdata ⊢
    exact SignedZone.serves_own hdata

/-- Keys that a chain of trust has returned make an authenticated RRset genuine. -/
theorem Authenticated.genuine {env : Env} {W : World} (hhonest : Honest env.platform W)
    {records : List Record} {owner : Name} {rtype : RecordType} {s s' : VState}
    (hsound : TrustSound env W s') (h : Authenticated env records owner rtype s s') :
    GenuineAnswer env.platform W records owner rtype := by
  obtain ⟨rrsig, hrrsig, keys, ttl, key, hkey, tick, ⟨new, hnew, hlog⟩, -, -, hverify⟩ := h
  have hmem : (rrsig.signerName, ChainResult.trusted keys ttl) ∈ s'.chainLog := by
    rw [hnew]
    exact List.mem_append_left _ hlog
  have howned := hsound.logged _ _ _ hmem key hkey
  have hgenuine := verifyRrsig_genuine hhonest howned hverify
  obtain ⟨-, -, -, htype, -⟩ := mem_coveringRrsigs.mp hrrsig
  refine ⟨rrsig, hrrsig, hgenuine, hgenuine.signedContents hhonest.readsStar, fun hcloser => ?_⟩
  have hserved := hgenuine.served hhonest.readsStar hcloser
  rw [htype] at hserved
  exact hserved

/-- In every state a run reaches, trusted keys belong to their zones. -/
theorem ValidationRun.trustSound {env : Env} {W : World} (hhonest : Honest env.platform W)
    (hfaithful : env.platform.NameKeyFaithful) {s : VState} (h : ValidationRun env s) :
    TrustSound env W s := by
  induction h with
  | init => exact TrustSound.init env W
  | validate msg qname qtype _ ih =>
      exact ih.progress hhonest hfaithful (validateMessage_progress env msg qname qtype _)

/-- The verdict on a positive message does not depend on its authority section. -/
theorem validateMessage_nameServers (env : Env) {msg : Message} (qname : Name)
    (qtype : RecordType) (s : VState) (hpositive : judgedNegative msg = false)
    (nameServers : List Record) :
    validateMessage env { msg with nameServers := nameServers } qname qtype s =
      validateMessage env msg qname qtype s := by
  simp only [judgedNegative, Bool.or_eq_false_iff, decide_eq_false_iff_not] at hpositive
  unfold validateMessage validateMessageWithBudget
  simp only [hpositive.2]
  cases hcode : msg.responseCode with
  | nxDomain => exact absurd hcode hpositive.1
  | _ => rfl

/-- **What a secure answer rests on.**  For every run of the validator, positive message and question, in
every world of honest zones: if the verdict is `secure`, then every RRset that was followed from the query
name, and the RRset at the name where that ends, is one that its signer zone signs, at the owner itself or
at the wildcard that `build_tbs` reads in its place; it is the one the zone answers with when that is the
wildcard above the owner and no closer name exists.  The authority section plays no part. -/
theorem validateMessage_secure_genuine {env : Env} {W : World} (hhonest : Honest env.platform W)
    (hfaithful : env.platform.NameKeyFaithful) {s : VState} (hrun : ValidationRun env s)
    (msg : Message) (qname : Name) (qtype : RecordType) (hpositive : judgedNegative msg = false)
    (hsecure : (validateMessage env msg qname qtype s).1 = .secure) :
    (∃ chain, redirections env qname qtype msg.answers = .complete chain ∧
      (∀ step ∈ chain,
        GenuineAnswer env.platform W msg.answers step.rrsetKey.1 step.rrsetKey.2) ∧
      GenuineAnswer env.platform W msg.answers (finalOwner qname chain) qtype) ∧
    ∀ nameServers, validateMessage env { msg with nameServers := nameServers } qname qtype s =
      validateMessage env msg qname qtype s := by
  refine ⟨?_, validateMessage_nameServers env qname qtype s hpositive⟩
  have hsound := (hrun.trustSound hhonest hfaithful).progress hhonest hfaithful
    (validateMessage_progress env msg qname qtype s)
  have hanswer : validateMessage env msg qname qtype s =
      validateAnswer env qname qtype msg.answers { s with budget := .default } := by
    simp only [judgedNegative, Bool.or_eq_false_iff, decide_eq_false_iff_not] at hpositive
    unfold validateMessage validateMessageWithBudget at hsecure ⊢
    cases hcode : msg.responseCode with
    | nxDomain => exact absurd hcode hpositive.1
    | noError => simp [hpositive.2]
    | _ =>
        rw [hcode] at hsecure
        cases hsecure
  rw [hanswer] at hsecure hsound
  obtain ⟨chain, hchain, hsteps, hfinal⟩ := validateAnswer_secure hsecure
  exact ⟨chain, hchain, fun step hstep => (hsteps step hstep).genuine hhonest hsound,
    hfinal.genuine hhonest hsound⟩

/-! ### A wildcard in the place of an existing name

The root zone signs its key, an address at `*.a.` and another address at `b.a.` -/

/-- `*.a.` -/
def wildcardTop : Name := ⟨[[42], [97]], by simp [ValidLabels, wireLength]⟩

/-- The RRSIG that `rootSigned` puts beside an RRset. -/
def rootRrsig (owner : Name) (rtype : RecordType) : RRSIG :=
  ⟨rtype, 8, Fin.ofNat 256 owner.numLabels, 300, 100, 0, 20326, .root, [1]⟩

/-- The RRsets that the root zone signs. -/
def signedSets : List (Name × RecordType × List Record) :=
  [(.root, .DNSKEY, [rootRecord .root (.dnskey rootKey)]),
    (wildcardTop, .A, [rootRecord wildcardTop (.a ⟨1, 1, 1, 1⟩)]),
    (belowTop, .A, [rootRecord belowTop (.a ⟨2, 2, 2, 2⟩)])]

/-- The root platform with the wire form of addresses and keys. -/
def wirePlatform : Platform := { rootPlatform with
  rdataWire := fun data =>
    match data with
    | .a addr => some [addr.o0, addr.o1, addr.o2, addr.o3]
    | .dnskey key => if (dnskeyWire key).length < 65536 then some (dnskeyWire key) else none
    | _ => none }

/-- Signatures are good over the RRsets of the root zone only. -/
def signedPlatform : Platform := { wirePlatform with
  verifySignature := fun _ _ tbs sig => decide (sig = [1]) && signedSets.any fun set =>
    decide (buildTbs wirePlatform (rootRrsig set.1 set.2.1) set.1 set.2.2 = some tbs) }

def signedEnv : Env := { rootEnv fun _ _ => none with platform := signedPlatform }

/-- The RRset of the root zone at an owner. -/
def signedData (p : Path) (rtype : RecordType) : List Record :=
  match signedSets.find? fun set => decide (set.1.path = p) && decide (set.2.1 = rtype) with
  | some set => set.2.2
  | none => []

def signedRoot : SignedZone where
  ownsKey key := dnskeyWire key = dnskeyWire rootKey
  data := signedData
  HasName p := ∃ q rtype, signedData q rtype ≠ [] ∧ p <+: q
  hasName_of_data _ q rtype hdata habove := ⟨q, rtype, hdata, habove⟩

def emptyZone : SignedZone where
  ownsKey _ := False
  data _ _ := []
  HasName _ := False
  hasName_of_data _ _ _ hdata _ := hdata rfl

/-- Nobody but the root zone signs. -/
def signedWorld : World := fun apex => if apex = [] then signedRoot else emptyZone

theorem exists_of_mem_signedData {p : Path} {rtype : RecordType} {r : Record}
    (h : r ∈ signedData p rtype) :
    ∃ set ∈ signedSets, set.1.path = p ∧ set.2.1 = rtype ∧ r ∈ set.2.2 := by
  unfold signedData at h
  split at h
  · rename_i set hset
    have hcond := List.find?_some hset
    simp only [Bool.and_eq_true, decide_eq_true_eq] at hcond
    exact ⟨set, List.mem_of_find?_eq_some hset, hcond.1, hcond.2, h⟩
  · cases h

theorem canonicalEntries_congr {P P' : Platform} (h : P.rdataWire = P'.rdataWire) (rrsig : RRSIG)
    (owner : Name) (records : List Record) :
    canonicalEntries P rrsig owner records = canonicalEntries P' rrsig owner records := by
  induction records with
  | nil => rfl
  | cons rec rest ih => simp only [canonicalEntries, h, ih]

/-- The signed data depend on the wire form of the RDATA, and on how names are printed and read. -/
theorem buildTbs_congr {P P' : Platform} (hwire : P.rdataWire = P'.rdataWire)
    (htext : P.labelText = P'.labelText) (hparse : P.parseName = P'.parseName) (rrsig : RRSIG)
    (owner : Name) (records : List Record) :
    buildTbs P rrsig owner records = buildTbs P' rrsig owner records := by
  have howner : signedOwner P rrsig owner = signedOwner P' rrsig owner := by
    simp only [signedOwner, Platform.nameText, htext, hparse]
  cases records with
  | nil => rfl
  | cons first rest => simp only [buildTbs, canonicalEntries_congr hwire, howner]

theorem signedPlatform_unforgeable {key : DNSKEY} {tbs sig : List Byte}
    (h : signedPlatform.acceptsSignature key.algorithm key.publicKey tbs sig = true) :
    signedRoot.Signed signedPlatform [] tbs := by
  have hsets : ∀ set ∈ signedSets, (rootRrsig set.1 set.2.1).numLabels.val = set.1.numLabels ∧
      signedData set.1.path set.2.1 = set.2.2 := by
    simp only [signedSets, List.forall_mem_cons]
    exact ⟨⟨by decide, rfl⟩, ⟨by decide, rfl⟩, ⟨by decide, rfl⟩, by simp⟩
  have hverify : signedPlatform.verifySignature key.algorithm key.publicKey tbs sig = true :=
    ((Bool.or_eq_true _ _).mp h).resolve_right Bool.false_ne_true
  simp only [signedPlatform, Bool.and_eq_true, List.any_eq_true, decide_eq_true_eq] at hverify
  obtain ⟨-, set, hset, htbs⟩ := hverify
  obtain ⟨hlabels, hdata⟩ := hsets set hset
  refine ⟨rootRrsig set.1 set.2.1, set.1, rfl, hlabels, ?_⟩
  show buildTbs signedPlatform _ _ (signedData set.1.path set.2.1) = some tbs
  rw [hdata, @buildTbs_congr signedPlatform wirePlatform rfl rfl rfl, htbs]

theorem signedPlatform_fits : RdataFits signedPlatform := by
  intro data rdata h
  simp only [signedPlatform, wirePlatform] at h
  split at h
  · cases h
    simp
  · split at h
    · rename_i hlength
      cases h
      exact hlength
    · cases h
  · cases h

/-- The anchors are SHA-256 digests, and the root platform gives a digest to the root key only. -/
theorem signedPlatform_anchors {d : DS} (hd : d ∈ rootDs) {key : DNSKEY}
    (h : computeDsDigest signedPlatform .root key d.digestType = some d.digest) :
    dnskeyWire key = dnskeyWire rootKey := by
  have hanchors : ∀ d ∈ rootDs, d.digestType = 2 ∧ d.digest ≠ [] := by decide +kernel
  obtain ⟨htype, hne⟩ := hanchors d hd
  simp only [computeDsDigest, htype, if_true, signedPlatform, wirePlatform, rootPlatform,
    Option.some.injEq] at h
  split at h
  · rename_i hwire
    exact List.append_cancel_left hwire
  · exact absurd h.symm hne

theorem signedWorld_honest : Honest signedPlatform signedWorld := by
  -- Whatever is signed is one of the three RRsets of the root zone.
  have hnowhere : ∀ apex p rtype, (signedWorld apex).data p rtype ≠ [] → apex = [] ∧
      ∃ set ∈ signedSets, set.1.path = p ∧ set.2.1 = rtype := by
    intro apex p rtype hdata
    unfold signedWorld at hdata
    split at hdata
    · rename_i hapex
      obtain ⟨r, hr⟩ := List.exists_mem_of_ne_nil _ hdata
      obtain ⟨set, hset, hpath, htype, -⟩ := exists_of_mem_signedData hr
      exact ⟨hapex, set, hset, hpath, htype⟩
    · exact absurd rfl hdata
  refine ⟨?_, ?_, ?_, fun d hd key h => signedPlatform_anchors hd h, ?_, signedPlatform_fits,
    plain_readsStar⟩
  · intro apex key tbs sig howned hverify
    unfold signedWorld at howned ⊢
    split at howned
    · rename_i hapex
      rw [if_pos hapex, hapex]
      exact signedPlatform_unforgeable hverify
    · cases howned
  · rintro apex r hr key ⟨wire, hwire, hkeyWire⟩
    obtain ⟨rfl, -⟩ := hnowhere apex apex .DNSKEY (List.ne_nil_of_mem hr)
    have hkey : r = rootRecord .root (.dnskey rootKey) := List.mem_singleton.mp hr
    have hfits : (dnskeyWire rootKey).length < 65536 := by decide +kernel
    subst hkey
    simp only [signedPlatform, wirePlatform, rootRecord, hfits, if_true] at hwire hkeyWire
    split at hkeyWire
    · exact Option.some.inj (hkeyWire.trans hwire.symm)
    · cases hkeyWire
  · intro child r hr
    have hds : ∀ set ∈ signedSets, set.2.1 ≠ .DS := by decide
    obtain ⟨-, set, hset, -, htype⟩ := hnowhere _ _ _ (List.ne_nil_of_mem hr)
    exact absurd htype (hds set hset)
  · intro apex p rtype htype
    have hkeys : ∀ set ∈ signedSets, set.2.1 = .DS ∨ set.2.1 = .DNSKEY → set.1.path = [] := by
      decide
    by_contra hdata
    obtain ⟨-, set, hset, hpath, hset'⟩ := hnowhere apex _ rtype hdata
    rw [hkeys set hset (by rwa [hset'])] at hpath
    simp at hpath

theorem signedPlatform_nameKeyFaithful : signedPlatform.NameKeyFaithful := plain_nameKeyFaithful

/-- The wildcard's address and its signature, under the name `b.a.` -/
def forgedWildcardAnswer : Message :=
  { Message.new with
    answers := [rootRecord belowTop (.a ⟨1, 1, 1, 1⟩),
      ⟨belowTop, .IN, 300, .rrsig (rootRrsig wildcardTop .A)⟩] }

/-- The wildcard's address under a name that has another address is secure. -/
theorem secure_wildcard_over_existing_name :
    ¬ ∀ (env : Env) (W : World), Honest env.platform W → env.platform.NameKeyFaithful →
        ∀ s, ValidationRun env s → ∀ (msg : Message) (qname : Name) (qtype : RecordType),
        judgedNegative msg = false → (validateMessage env msg qname qtype s).1 = .secure →
        ∃ chain, redirections env qname qtype msg.answers = .complete chain ∧
          ∃ rrsig ∈ coveringRrsigs msg.answers (finalOwner qname chain) qtype,
            Served env.platform (W rrsig.signerName.path) (finalOwner qname chain) qtype
              (rrset msg.answers (finalOwner qname chain) qtype) := by
  intro hclaim
  obtain ⟨chain, hchain, rrsig, hrrsig, served, hserves, hcontents⟩ := hclaim signedEnv signedWorld
    signedWorld_honest signedPlatform_nameKeyFaithful .init .init forgedWildcardAnswer belowTop .A
    rfl (by decide +kernel)
  have hnochain : redirections signedEnv belowTop .A forgedWildcardAnswer.answers = .complete [] :=
    rfl
  rw [hnochain] at hchain
  cases hchain
  have hsig : rrsig = rootRrsig wildcardTop .A := List.mem_singleton.mp hrrsig
  subst hsig
  cases hserves with
  | own hname =>
      -- The zone has another address at the name.
      have hother := List.perm_singleton.mp hcontents.symm
      exact absurd hother (by decide)
  | wildcard hnone hname habove hclosest =>
      -- The name exists, so the wildcard does not apply.
      exact hnone ⟨belowTop.path, .A, by decide, List.prefix_refl _⟩

/-- The forged answer is the wildcard's RRset, and that is all that its verdict says. -/
theorem validateMessage_secure_genuine_wildcard :
    (∃ chain, redirections signedEnv belowTop .A forgedWildcardAnswer.answers = .complete chain ∧
      (∀ step ∈ chain, GenuineAnswer signedPlatform signedWorld forgedWildcardAnswer.answers
        step.rrsetKey.1 step.rrsetKey.2) ∧
      GenuineAnswer signedPlatform signedWorld forgedWildcardAnswer.answers
        (finalOwner belowTop chain) .A) ∧
    ∀ nameServers, validateMessage signedEnv
        { forgedWildcardAnswer with nameServers := nameServers } belowTop .A .init =
      validateMessage signedEnv forgedWildcardAnswer belowTop .A .init :=
  validateMessage_secure_genuine signedWorld_honest
    signedPlatform_nameKeyFaithful .init forgedWildcardAnswer belowTop .A rfl (by decide +kernel)

end Dnssec
end UnifiedDns
