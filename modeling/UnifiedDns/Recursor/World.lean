import Mathlib.Data.List.Infix
import UnifiedDns.Recursor.Termination
import UnifiedDns.Recursor.Verdict

/-!
# The name space that is resolved

What the recursive resolver is for: to find out what a tree of zones holds for a question, by asking the
servers of these zones.

* `World` — the records at every name, the zones and their servers.
* `World.Hop`, `World.Leads` — the aliases of a question, to the name they end at.
* `World.Answered` — a message gives what the name space holds for a question, aliases included.
* `World.HonestReply` — what a server of a zone may reply: a referral with glue to a zone below, the records,
  an alias with as much of its chain as the server likes, or a denial.
* `judgeResponse_honest` — what the loop makes of an honest reply.
-/

namespace UnifiedDns
namespace Recursor

open Dnssec (cnameTargetAt)

structure World where
  /-- The records at a name by their type; aliases that a DNAME record synthesizes are among them. -/
  lookup : Path → RecordType → List RData
  /-- The name exists. -/
  present : Path → Bool
  /-- A zone begins here. -/
  isApex : Path → Bool
  /-- The server has the zone. -/
  serves : Path → IpAddr → Prop
  /-- The server answers. -/
  live : IpAddr → Prop
  typed : ∀ {p t d}, d ∈ lookup p t → d.recordType = t
  present_of_lookup : ∀ {p t d}, d ∈ lookup p t → present p = true
  alias_unique : ∀ {p a b}, .cname a ∈ lookup p .CNAME → .cname b ∈ lookup p .CNAME → a.path = b.path
  apex_root : isApex [] = true
  root_serves : ∀ ip ∈ rootServers, serves [] ip
  root_live : ∃ ip ∈ rootServers, live ip

/-- Where the zones of a question lie: a DS question belongs to the parent. -/
def questionPath (p : Path) (rtype : RecordType) : Path :=
  if rtype = .DS then p.dropLast else p

@[simp] theorem path_delegationStart (name : Name) (rtype : RecordType) :
    (delegationStart name rtype).path = questionPath name.path rtype := by
  unfold delegationStart questionPath
  split
  · exact name.path_baseName
  · rfl

theorem questionPath_isPrefix (p : Path) (rtype : RecordType) : questionPath p rtype <+: p := by
  unfold questionPath
  split
  · exact p.dropLast_prefix
  · exact List.prefix_rfl

namespace World

variable (W : World)

/-! ### What is held -/

/-- The question at `p` leads on to `q`. -/
def Hop (rtype : RecordType) (p q : Path) : Prop :=
  W.lookup p rtype = [] ∧ ∃ target, .cname target ∈ W.lookup p .CNAME ∧ target.path = q

/-- The aliases of a question, to the name they end at. -/
inductive Leads (rtype : RecordType) : Path → List Path → Prop
  | ends {p : Path} (h : ∀ q, ¬ W.Hop rtype p q) : Leads rtype p []
  | hop {p q : Path} {targets : List Path} (h : W.Hop rtype p q) (hrest : Leads rtype q targets) :
      Leads rtype p (q :: targets)

/-- The zones at or above a path, the root among them. -/
def zonesAbove (p : Path) : Nat := p.inits.countP W.isApex

/-- A section holds a record with this owner and, up to the case of names, this data. -/
def Gives (records : List Record) (p : Path) (data : RData) : Prop :=
  ∃ r ∈ records, r.name.path = p ∧ r.data.folded = data.folded

/-- A section gives an alias. -/
def Links (records : List Record) (p q : Path) : Prop :=
  ∃ target : Name, Gives records p (.cname target) ∧ target.path = q

/-- A section gives all records of a name and type. -/
def Given (records : List Record) (p : Path) (rtype : RecordType) : Prop :=
  ∀ data ∈ W.lookup p rtype, Gives records p data

/-- Everything a section says is so. -/
def Held (records : List Record) : Prop :=
  ∀ r ∈ records, r.data ∈ W.lookup r.name.path r.recordType

/-- The message answers the question at `p` whose aliases are `targets`. -/
structure Answered (rtype : RecordType) (p : Path) (targets : List Path) (m : Message) : Prop where
  aliases : (p :: targets).IsChain (Links m.answers)
  held : W.Held m.answers
  given : W.Given m.answers (targets.getLastD p) rtype
  code : m.responseCode = if W.present (targets.getLastD p) then .noError else .nxDomain
  /-- A denial comes with the SOA record of its zone. -/
  soa : W.lookup (targets.getLastD p) rtype = [] → ∃ r ∈ m.nameServers, r.isSoa = true

/-! ### What a server replies -/

/-- The servers of a zone; one of them answers. -/
structure Authorities (z : Path) (ips : List IpAddr) : Prop where
  apex : W.isApex z = true
  serves : ∀ ip ∈ ips, W.serves z ip
  live : ∃ ip ∈ ips, W.live ip

/-- The servers are gone. -/
def Silent (ips : List IpAddr) : Prop := ∀ ip ∈ ips, ¬ W.live ip

/-- An address of a nameserver the message names. -/
def GlueFor (m : Message) (add : Record) (ip : IpAddr) : Prop :=
  add ∈ m.additionals ∧ (∃ r ∈ nsRecords m, ∃ nsdname, nsTarget r = some nsdname ∧
    nsdname.path = add.name.path) ∧ addressOf add = some ip ∧ isSafeUpstreamIp ip = true

/-- The servers of `z` refer to the servers of the zone `c` below it, with glue that leads to a live one. -/
structure Refers (z c : Path) (m : Message) : Prop where
  apex : W.isApex c = true
  below : z <+: c ∧ z ≠ c
  code : m.responseCode = .noError
  answers : m.answers = []
  noSoa : ∀ r ∈ m.nameServers, r.isSoa = false
  owner : ∀ r ∈ nsRecords m, r.name.path = c
  serves : ∀ add ip, GlueFor m add ip → W.serves c ip
  live : ∃ add ip, GlueFor m add ip ∧ W.live ip ∧ (z <+: add.name.path ∨ c <+: add.name.path)

/-- An answer section that is not empty: nothing in it is wrong, records of the type in question come in
full, an alias stands only where there are none of them, and a denial, which may follow an alias, has none
of them. -/
structure TrueAnswers (rtype : RecordType) (m : Message) : Prop where
  held : W.Held m.answers
  whole : ∀ r ∈ m.answers, r.recordType = rtype → W.Given m.answers r.name.path rtype
  exclusive : ∀ r ∈ m.answers, r.recordType = .CNAME → rtype = .CNAME ∨ W.lookup r.name.path rtype = []
  code : m.responseCode = .noError ∨
    m.responseCode = .nxDomain ∧ ∀ r ∈ m.answers, r.recordType ≠ rtype

/-- What a server of the zone `z` replies. -/
inductive HonestReply (z : Path) (name : Name) (rtype : RecordType) (m : Message) : Prop
  | referral {c : Path} (h : W.Refers z c m) (honPath : c <+: questionPath name.path rtype)
  | records (htrue : W.TrueAnswers rtype m) (hheld : W.lookup name.path rtype ≠ [])
      (hgiven : W.Given m.answers name.path rtype)
  | redirected (htrue : W.TrueAnswers rtype m) {q : Path} (hhop : W.Hop rtype name.path q)
      (hlink : Links m.answers name.path q)
  | denial (hnone : ∀ q, ¬ W.Hop rtype name.path q) (hempty : W.lookup name.path rtype = [])
      (hanswers : m.answers = [])
      (hcode : m.responseCode = if W.present name.path then .noError else .nxDomain)
      {soa : Record} (hsoa : m.nameServers.find? Record.isSoa = some soa)
      (hzone : soa.name.path <+: name.path)

/-! ### Aliases -/

variable {W}

theorem Hop.unique {rtype : RecordType} {p q q' : Path} (h : W.Hop rtype p q)
    (h' : W.Hop rtype p q') : q = q' := by
  obtain ⟨-, a, ha, rfl⟩ := h
  obtain ⟨-, b, hb, rfl⟩ := h'
  exact W.alias_unique ha hb

theorem Leads.unique {rtype : RecordType} {p : Path} {targets targets' : List Path}
    (h : W.Leads rtype p targets) (h' : W.Leads rtype p targets') : targets = targets' := by
  induction h generalizing targets' with
  | ends hends =>
      cases h' with
      | ends => rfl
      | hop hhop _ => exact absurd hhop (hends _)
  | hop hhop _ ih =>
      cases h' with
      | ends hends => exact absurd hhop (hends _)
      | hop hhop' hrest' =>
          cases hhop.unique hhop'
          rw [ih hrest']

/-- What comes behind a name on the way has its own, shorter way. -/
theorem Leads.of_mem {rtype : RecordType} {p q : Path} {targets : List Path}
    (h : W.Leads rtype p targets) (hq : q ∈ targets) :
    ∃ rest, W.Leads rtype q rest ∧ rest.length < targets.length := by
  induction h with
  | ends => cases hq
  | @hop p q' rest hhop hrest ih =>
      rcases List.mem_cons.mp hq with rfl | htail
      · exact ⟨rest, hrest, Nat.lt_succ_self _⟩
      · obtain ⟨rest', hleads, hshort⟩ := ih htail
        exact ⟨rest', hleads, hshort.trans (Nat.lt_succ_self _)⟩

/-- Aliases that come to an end do not come back. -/
theorem Leads.notMem {rtype : RecordType} {p : Path} {targets : List Path}
    (h : W.Leads rtype p targets) : p ∉ targets := by
  intro hmem
  obtain ⟨rest, hrest, hshort⟩ := h.of_mem hmem
  rw [h.unique hrest] at hshort
  exact Nat.lt_irrefl _ hshort

/-- Where there are records of the type, the aliases end. -/
theorem Leads.eq_nil {rtype : RecordType} {p : Path} {targets : List Path}
    (h : W.Leads rtype p targets) (hheld : W.lookup p rtype ≠ []) : targets = [] := by
  cases h with
  | ends => rfl
  | hop hhop _ => exact absurd hhop.1 hheld

/-! ### Zones -/

theorem zonesAbove_mono {p q : Path} (h : p <+: q) : W.zonesAbove p ≤ W.zonesAbove q := by
  obtain ⟨rest, rfl⟩ := h
  rw [zonesAbove, zonesAbove, List.inits_append, List.countP_append]
  exact Nat.le_add_right _ _

/-- A zone below another one has more zones above it. -/
theorem zonesAbove_lt {z c : Path} (hbelow : z <+: c ∧ z ≠ c) (hapex : W.isApex c = true) :
    W.zonesAbove z < W.zonesAbove c := by
  obtain ⟨⟨rest, rfl⟩, hne⟩ := hbelow
  have hrest : rest ≠ [] := by
    rintro rfl
    exact hne (List.append_nil z).symm
  rw [zonesAbove, zonesAbove, List.inits_append, List.countP_append]
  apply Nat.lt_add_of_pos_right
  rw [List.countP_pos_iff]
  refine ⟨z ++ rest, List.mem_map.mpr ⟨rest, ?_, rfl⟩, hapex⟩
  obtain ⟨first, others, rfl⟩ := List.exists_cons_of_ne_nil hrest
  simp

theorem zonesAbove_root : W.zonesAbove [] = 1 := by
  simp [zonesAbove, W.apex_root]

end World

/-! ### The aliases inside a message -/

/-- A section leads along the targets: from a name with all its targets to one with those that are left. -/
inductive Reaches (records : List Record) : Path → List Path → Path → List Path → Prop
  | refl (p : Path) (targets : List Path) : Reaches records p targets p targets
  | step {p q p' : Path} {targets rest : List Path} (h : World.Links records p q)
      (hrest : Reaches records q targets p' rest) : Reaches records p (q :: targets) p' rest

section Reach

variable {W : World} {records : List Record} {p p' : Path} {targets rest : List Path}

theorem Reaches.leads {rtype : RecordType} (h : Reaches records p targets p' rest)
    (hleads : W.Leads rtype p targets) : W.Leads rtype p' rest := by
  induction h with
  | refl => exact hleads
  | step _ _ ih =>
      cases hleads with
      | hop _ hrest => exact ih hrest

theorem Reaches.subset (h : Reaches records p targets p' rest) : rest ⊆ targets := by
  induction h with
  | refl => exact List.Subset.refl _
  | step _ _ ih => exact List.subset_cons_of_subset _ ih

theorem Reaches.length_le (h : Reaches records p targets p' rest) : rest.length ≤ targets.length := by
  induction h with
  | refl => exact le_rfl
  | step _ _ ih => exact ih.trans (Nat.le_succ _)

theorem Reaches.mem (h : Reaches records p targets p' rest) : p' ∈ p :: targets := by
  induction h with
  | refl => exact List.mem_cons_self
  | step _ _ ih => exact List.mem_cons_of_mem _ ih

theorem Reaches.getLastD_eq (h : Reaches records p targets p' rest) :
    targets.getLastD p = rest.getLastD p' := by
  induction h with
  | refl => rfl
  | step _ _ ih => rwa [List.getLastD_cons]

/-- The links on the way are put in front of those that are left. -/
theorem Reaches.isChain {R : Path → Path → Prop} (h : Reaches records p targets p' rest)
    (hlinks : ∀ a b, World.Links records a b → R a b) (hrest : (p' :: rest).IsChain R) :
    (p :: targets).IsChain R := by
  induction h with
  | refl => exact hrest
  | step hlink _ ih => exact List.isChain_cons_cons.mpr ⟨hlinks _ _ hlink, ih hrest⟩

theorem mem_of_hasRecord {rtype : RecordType} {current : Name}
    (h : hasRecord records current rtype = true) :
    ∃ r ∈ records, r.name.path = current.path ∧ r.recordType = rtype := by
  obtain ⟨r, hr, hcond⟩ := List.any_eq_true.mp h
  simp only [Bool.and_eq_true, Name.beq_iff_path, decide_eq_true_eq] at hcond
  exact ⟨r, hr, hcond⟩

theorem cname?_eq_some {r : Record} {target : Name} (h : r.cname? = some target) :
    r.data = .cname target := by
  unfold Record.cname? at h
  split at h
  · rename_i heq
    rw [heq, Option.some.inj h]
  · cases h

/-- An alias of a true section is a hop, where the section has no record of the type. -/
theorem hop_of_target {rtype : RecordType} {m : Message} (htrue : W.TrueAnswers rtype m)
    {current next : Name} (hnone : hasRecord m.answers current rtype = false)
    (hnext : cnameTargetAt m.answers current = some next) :
    W.Hop rtype current.path next.path ∧ World.Links m.answers current.path next.path := by
  obtain ⟨r, hr, hname, htype, hcname⟩ := cnameTargetAt_eq_some hnext
  have hdata : r.data = .cname next := cname?_eq_some hcname
  have hheld := htrue.held r hr
  rw [hname, hdata, htype] at hheld
  refine ⟨⟨?_, next, hheld, rfl⟩, next, ⟨r, hr, hname, congrArg RData.folded hdata⟩, rfl⟩
  rcases htrue.exclusive r hr htype with rfl | hempty
  · have hrecord : hasRecord m.answers current .CNAME = true :=
      List.any_eq_true.mpr ⟨r, hr, by simp [Name.beq_iff_path, hname, htype]⟩
    rw [hnone] at hrecord
    cases hrecord
  · rwa [hname] at hempty

/-- How the loop over the aliases of a true section ends: on the way, or at the end with records. -/
inductive FollowEnd (m : Message) (rtype : RecordType) (p : Path) (targets : List Path) :
    CnameEnd → Prop
  | answered {e : Path} (hreaches : Reaches m.answers p targets e [])
      (hrecord : ∃ r ∈ m.answers, r.name.path = e ∧ r.recordType = rtype) :
      FollowEnd m rtype p targets .answered
  | target {stop : Name} {rest : List Path} (hreaches : Reaches m.answers p targets stop.path rest) :
      FollowEnd m rtype p targets (.target stop)

theorem FollowEnd.cons {m : Message} {rtype : RecordType} {q : Path} {last : CnameEnd}
    (hlink : World.Links m.answers p q) (h : FollowEnd m rtype q targets last) :
    FollowEnd m rtype p (q :: targets) last := by
  cases h with
  | answered hreaches hrecord => exact .answered (.step hlink hreaches) hrecord
  | target hreaches => exact .target (.step hlink hreaches)

theorem exists_cnameLoop_held {P : Platform} (hfaithful : P.NameKeyFaithful) {rtype : RecordType}
    {m : Message} (htrue : W.TrueAnswers rtype m) {seen : List Text} {current : Name}
    (hleads : W.Leads rtype current.path targets)
    (hnew : ∀ n : Name, n.path ∈ current.path :: targets → P.nameKey n ∉ seen) :
    ∃ turns last, CnameLoop P m.answers rtype seen current turns last ∧
      FollowEnd m rtype current.path targets last := by
  -- The induction is on the aliases that are left.
  induction hlength : targets.length using Nat.strong_induction_on generalizing targets current seen with
  | _ left ih =>
      have hcurrent : P.nameKey current ∉ seen := hnew current List.mem_cons_self
      cases hrecord : hasRecord m.answers current rtype with
      | true =>
          obtain ⟨r, hr, hname, htype⟩ := mem_of_hasRecord hrecord
          have hheld := htrue.held r hr
          rw [hname, htype] at hheld
          obtain rfl := hleads.eq_nil (List.ne_nil_of_mem hheld)
          exact ⟨1, _, .answered hcurrent hrecord, .answered (.refl _ _) ⟨r, hr, hname, htype⟩⟩
      | false =>
          cases hnext : cnameTargetAt m.answers current with
          | none => exact ⟨1, _, .stop hcurrent hrecord hnext, .target (.refl _ _)⟩
          | some next =>
              obtain ⟨hhop, hlink⟩ := hop_of_target htrue hrecord hnext
              have hnotMem := hleads.notMem
              cases hleads with
              | ends hends => exact absurd hhop (hends _)
              | @hop _ q rest hhop' hrest =>
                  obtain rfl := hhop.unique hhop'
                  have hnew' : ∀ n : Name, n.path ∈ next.path :: rest →
                      P.nameKey n ∉ P.nameKey current :: seen := by
                    intro n hn hseen
                    rcases List.mem_cons.mp hseen with hkey | hseen
                    · rw [(hfaithful n current).mp hkey] at hn
                      exact hnotMem hn
                    · exact hnew n (List.mem_cons_of_mem _ hn) hseen
                  obtain ⟨turns, last, hloop, hend⟩ := ih rest.length
                    (by rw [← hlength]; exact Nat.lt_succ_self _) hrest hnew' rfl
                  exact ⟨turns + 1, last, .follow hcurrent hrecord hnext hloop, hend.cons hlink⟩

end Reach

/-! ### Honest replies and the loop -/

/-- The loop asks the servers of the zone `z`. -/
structure Frame.At (W : World) (z : Path) (frame : Frame) : Prop where
  authorities : W.Authorities z frame.currentServers
  bailiwick : frame.bailiwick.path <+: z
  progress : ∀ zone, frame.lastZone = some zone → zone.path = z

/-- What the loop makes of an honest reply of a server of `z`. -/
inductive HonestVerdict (W : World) (P : Platform) (name : Name) (rtype : RecordType)
    (targets : List Path) (z : Path) (m : Message) : Verdict → Prop
  | done (h : W.Answered rtype name.path targets m) :
      HonestVerdict W P name rtype targets z m (.done (.ok m))
  | redirect {stop : Name} {rest : List Path} (hheld : W.Held m.answers)
      (hreaches : Reaches m.answers name.path targets stop.path rest) (hmem : stop.path ∈ targets)
      (hless : rest.length < targets.length) :
      HonestVerdict W P name rtype targets z m
        (.redirect (asciiText "cname:" ++ P.nameKey stop) stop m)
  | referral {zone : Name} (h : W.Refers z zone.path m)
      (honPath : zone.path <+: questionPath name.path rtype) :
      HonestVerdict W P name rtype targets z m
        (.referral zone ((nsRecords m).filterMap nsTarget))

section Honest

variable {W : World} {z : Path} {name : Name} {rtype : RecordType} {m : Message}
  {targets : List Path}

theorem judgeAnswers_nil (P : Platform) (hanswers : m.answers = []) :
    judgeAnswers P name rtype m = none := by
  unfold judgeAnswers
  rw [if_pos (by simp [hanswers])]

/-- A referral of the servers of a zone to a zone below is followed. -/
theorem judgeReferral_refers {frame : Frame} {c : Path} (hframe : frame.At W z)
    (h : W.Refers z c m) (honPath : c <+: name.path) :
    ∃ zone : Name, zone.path = c ∧
      judgeReferral name frame m = .referral zone ((nsRecords m).filterMap nsTarget) := by
  obtain ⟨add, ip, ⟨-, ⟨r, hr, nsdname, htarget, -⟩, -⟩, -⟩ := h.live
  have howner := h.owner
  have hnonempty : ¬ m.nameServers.isEmpty = true := by
    intro hempty
    rw [List.isEmpty_iff] at hempty
    simp [nsRecords, hempty] at hr
  have hnamed : ¬ ((nsRecords m).filterMap nsTarget).isEmpty = true := by
    rw [nsTargets_isEmpty_iff]
    intro hnone
    rw [hnone r hr] at htarget
    cases htarget
  unfold judgeReferral
  rw [if_neg hnonempty]
  cases hns : nsRecords m with
  | nil =>
      rw [hns] at hr
      cases hr
  | cons first rest =>
      rw [hns] at howner hnamed
      have hfirst : first.name.path = c := howner first List.mem_cons_self
      have hconsistent : ¬ (rest.any fun r => r.name != first.name) = true := by
        rw [any_owner_ne_iff, not_not]
        intro r hr
        rw [howner r hr, hfirst]
      have hnew : ¬ (frame.lastZone.any (· == first.name)) = true := by
        cases hlast : frame.lastZone with
        | none => simp
        | some zone =>
            rw [Option.any_some, Name.beq_iff_path, hframe.progress zone hlast, hfirst]
            exact h.below.2
      have hinside : ¬ (!(first.name.zoneOf name || first.name == name) ||
          !(frame.bailiwick.isRoot || frame.bailiwick.zoneOf first.name ||
            frame.bailiwick == first.name)) = true := by
        rw [referral_inside_iff, not_not, hfirst]
        exact ⟨honPath, hframe.bailiwick.trans h.below.1⟩
      refine ⟨first.name, hfirst, ?_⟩
      simp only [if_neg hconsistent, if_neg hnamed, if_neg hnew, if_neg hinside]

theorem hasAuthoritativeSoa_of_find {soa : Record} (hsoa : m.nameServers.find? Record.isSoa = some soa)
    (hzone : soa.name.path <+: name.path) : hasAuthoritativeSoa name rtype m = true := by
  have hzoneOf : soa.name.zoneOf name = true := Name.zoneOf_iff.mpr hzone
  simp only [hasAuthoritativeSoa, hsoa, hzoneOf, Bool.true_or]

theorem hasAuthoritativeSoa_of_none (hnone : ∀ r ∈ m.nameServers, r.isSoa = false) :
    hasAuthoritativeSoa name rtype m = false := by
  have hfind : m.nameServers.find? Record.isSoa = none := by
    rw [List.find?_eq_none]
    intro r hr
    rw [hnone r hr]
    exact Bool.false_ne_true
  simp only [hasAuthoritativeSoa, hfind]

/-- Records of the type at the name are the answer. -/
theorem judgeResponse_hasRecord (P : Platform) (frame : Frame)
    (h : hasRecord m.answers name rtype = true) :
    judgeResponse P name rtype frame m = .done (.ok m) := by
  have hnonempty : ¬ m.answers.isEmpty = true := by
    intro hempty
    rw [List.isEmpty_iff.mp hempty] at h
    cases h
  simp only [judgeResponse, judgeAnswers, if_neg hnonempty, if_pos h]

/-- A true section that leads to records of the type answers the question. -/
theorem answered_of_reaches {p e : Path} (htrue : W.TrueAnswers rtype m)
    (hreaches : Reaches m.answers p targets e [])
    (hrecord : ∃ r ∈ m.answers, r.name.path = e ∧ r.recordType = rtype) :
    W.Answered rtype p targets m := by
  obtain ⟨r, hr, rfl, rfl⟩ := hrecord
  have hheld := htrue.held r hr
  have hlast : targets.getLastD p = r.name.path := hreaches.getLastD_eq
  refine ⟨hreaches.isChain (fun _ _ h => h) (.singleton _), htrue.held, ?_, ?_, ?_⟩
  · rw [hlast]
    exact htrue.whole r hr rfl
  · rw [hlast, if_pos (W.present_of_lookup hheld)]
    rcases htrue.code with hcode | ⟨-, hdenied⟩
    · exact hcode
    · exact absurd rfl (hdenied r hr)
  · rw [hlast]
    intro hempty
    rw [hempty] at hheld
    cases hheld

/-- The records of a type that is held are in the section that gives them. -/
theorem hasRecord_of_given (hheld : W.lookup name.path rtype ≠ [])
    (hgiven : W.Given m.answers name.path rtype) : hasRecord m.answers name rtype = true := by
  obtain ⟨data, hdata⟩ := List.exists_mem_of_ne_nil _ hheld
  obtain ⟨r, hr, hname, hfolded⟩ := hgiven data hdata
  have htype : r.recordType = rtype := by
    rw [← W.typed hdata, ← data.recordType_folded, ← hfolded, RData.recordType_folded]
    rfl
  exact List.any_eq_true.mpr ⟨r, hr, by simp [Name.beq_iff_path, hname, htype]⟩

theorem honestVerdict_records {P : Platform} (frame : Frame) (htrue : W.TrueAnswers rtype m)
    (hleads : W.Leads rtype name.path targets) (hheld : W.lookup name.path rtype ≠ [])
    (hgiven : W.Given m.answers name.path rtype) :
    HonestVerdict W P name rtype targets z m (judgeResponse P name rtype frame m) := by
  have hrecord := hasRecord_of_given hheld hgiven
  obtain rfl := hleads.eq_nil hheld
  rw [judgeResponse_hasRecord P frame hrecord]
  exact .done (answered_of_reaches htrue (.refl _ _) (mem_of_hasRecord hrecord))

/-- A section with an alias at the name is followed. -/
theorem entersLoop_of_hop (htrue : W.TrueAnswers rtype m) {q : Path} (hhop : W.Hop rtype name.path q)
    (hlink : World.Links m.answers name.path q) :
    m.answers.isEmpty = false ∧ hasRecord m.answers name rtype = false ∧
      ∃ first, cnameTargetAt m.answers name = some first := by
  obtain ⟨target, ⟨r, hr, hname, hfolded⟩, -⟩ := hlink
  obtain ⟨target', hdata, -⟩ := RData.eq_cname_of_folded hfolded
  refine ⟨List.isEmpty_eq_false_iff.mpr (List.ne_nil_of_mem hr), ?_, ?_⟩
  · rw [← Bool.not_eq_true]
    intro hrecord
    obtain ⟨r', hr', hname', htype'⟩ := mem_of_hasRecord hrecord
    have hheld := htrue.held r' hr'
    rw [hname', htype', hhop.1] at hheld
    cases hheld
  · by_contra hno
    have hcname : cnameTargetAt m.answers name = none :=
      Option.eq_none_iff_forall_ne_some.mpr fun first hfirst => hno ⟨first, hfirst⟩
    refine cnameTargetAt_eq_none_iff.mp hcname target' ⟨r, hr, hname, ?_, ?_⟩
    · rw [Record.recordType, hdata]
      rfl
    · rw [Record.cname?, hdata]

/-- The aliases of a reply are followed to records, or to the name that is asked for next. -/
theorem honestVerdict_redirected {P : Platform} (hfaithful : P.NameKeyFaithful) (frame : Frame)
    (htrue : W.TrueAnswers rtype m) (hleads : W.Leads rtype name.path targets) {q : Path}
    (hhop : W.Hop rtype name.path q) (hlink : World.Links m.answers name.path q) :
    HonestVerdict W P name rtype targets z m (judgeResponse P name rtype frame m) := by
  obtain ⟨hnonempty, hnone, first, hfirst⟩ := entersLoop_of_hop htrue hhop hlink
  obtain ⟨hhop', hlink'⟩ := hop_of_target htrue hnone hfirst
  have hnotMem := hleads.notMem
  cases hleads with
  | ends hends => exact absurd hhop' (hends _)
  | @hop _ q' rest hhop'' hrest =>
      obtain rfl := hhop'.unique hhop''
      have hnew : ∀ n : Name, n.path ∈ first.path :: rest → P.nameKey n ∉ [P.nameKey name] := by
        intro n hn hseen
        rw [List.mem_singleton, hfaithful n name] at hseen
        rw [hseen] at hn
        exact hnotMem hn
      obtain ⟨turns, last, hloop, hend⟩ := exists_cnameLoop_held hfaithful htrue hrest hnew
      have henters : EntersLoop name rtype m first := ⟨hnonempty, hnone, hfirst⟩
      rw [(Judges.chased henters hloop : Judges P name rtype frame m _ _).eq]
      cases hend with
      | answered hreaches hrecord =>
          exact .done (answered_of_reaches htrue (.step hlink' hreaches) hrecord)
      | target hreaches =>
          exact .redirect htrue.held (.step hlink' hreaches) hreaches.mem
            (Nat.lt_succ_of_le hreaches.length_le)

/-- A denial with the SOA record of a zone of the name is the answer. -/
theorem answered_of_denial (P : Platform) (frame : Frame) (hempty : W.lookup name.path rtype = [])
    (hanswers : m.answers = [])
    (hcode : m.responseCode = if W.present name.path then .noError else .nxDomain) {soa : Record}
    (hsoa : m.nameServers.find? Record.isSoa = some soa) (hzone : soa.name.path <+: name.path) :
    judgeResponse P name rtype frame m = .done (.ok m) ∧ W.Answered rtype name.path [] m := by
  constructor
  · rw [judgeResponse_of_none frame (judgeAnswers_nil P hanswers),
      if_pos (hasAuthoritativeSoa_of_find hsoa hzone)]
  · refine ⟨.singleton _, ?_, ?_, hcode, fun _ => ?_⟩
    · intro r hr
      rw [hanswers] at hr
      cases hr
    · intro data hdata
      rw [List.getLastD_nil, hempty] at hdata
      cases hdata
    · exact ⟨soa, List.mem_of_find?_eq_some hsoa, List.find?_some hsoa⟩

theorem judgeResponse_refers (P : Platform) {frame : Frame} {c : Path} (hframe : frame.At W z)
    (h : W.Refers z c m) (honPath : c <+: questionPath name.path rtype) :
    ∃ zone : Name, zone.path = c ∧
      judgeResponse P name rtype frame m = .referral zone ((nsRecords m).filterMap nsTarget) := by
  have hcode : ¬ (m.responseCode = .nxDomain ∧ m.authoritative = true) := by
    rw [h.code]
    rintro ⟨hcode, -⟩
    cases hcode
  obtain ⟨zone, rfl, hreferral⟩ :=
    judgeReferral_refers hframe h (honPath.trans (questionPath_isPrefix _ _))
  refine ⟨zone, rfl, ?_⟩
  rw [judgeResponse_of_none frame (judgeAnswers_nil P h.answers),
    if_neg (by simp [hasAuthoritativeSoa_of_none h.noSoa]), if_neg hcode, hreferral]

theorem judgeResponse_honest {P : Platform} (hfaithful : P.NameKeyFaithful) {frame : Frame}
    (hframe : frame.At W z) (hleads : W.Leads rtype name.path targets)
    (hreply : W.HonestReply z name rtype m) :
    HonestVerdict W P name rtype targets z m (judgeResponse P name rtype frame m) := by
  cases hreply with
  | referral h honPath =>
      obtain ⟨zone, rfl, hreferral⟩ := judgeResponse_refers P hframe h honPath
      rw [hreferral]
      exact .referral h honPath
  | records htrue hheld hgiven => exact honestVerdict_records frame htrue hleads hheld hgiven
  | redirected htrue hhop hlink => exact honestVerdict_redirected hfaithful frame htrue hleads hhop hlink
  | denial hnone hempty hanswers hcode hsoa hzone =>
      obtain ⟨hverdict, hanswered⟩ := answered_of_denial P frame hempty hanswers hcode hsoa hzone
      obtain rfl := hleads.unique (.ends hnone)
      rw [hverdict]
      exact .done hanswered

end Honest

/-! ### A server that has the zone -/

/-- The reply of a server that looks a question up. -/
def World.authoritativeReply (W : World) (zone name : Name) (rtype : RecordType) : Message :=
  let reply := { Message.new with
    messageType := .response, authoritative := true, queries := [⟨name, rtype, .IN⟩] }
  let records (t : RecordType) : List Record :=
    (W.lookup name.path t).map fun data => ⟨name, .IN, 300, data⟩
  if !(W.lookup name.path rtype).isEmpty then { reply with answers := records rtype }
  else if (records .CNAME).any fun r => r.cname?.isSome then { reply with answers := records .CNAME }
  else
    { reply with
      responseCode := if W.present name.path then .noError else .nxDomain
      nameServers := [⟨zone, .IN, 300, .soa []⟩] }

theorem World.mem_map_lookup {W : World} {name : Name} {t : RecordType} {r : Record}
    (h : r ∈ (W.lookup name.path t).map fun data => (⟨name, .IN, 300, data⟩ : Record)) :
    r.name = name ∧ r.data ∈ W.lookup name.path t ∧ r.recordType = t := by
  obtain ⟨data, hdata, rfl⟩ := List.mem_map.mp h
  exact ⟨rfl, hdata, W.typed hdata⟩

theorem World.given_map_lookup (W : World) (name : Name) (t : RecordType) :
    W.Given ((W.lookup name.path t).map fun data => (⟨name, .IN, 300, data⟩ : Record)) name.path t :=
  fun data hdata => ⟨⟨name, .IN, 300, data⟩, List.mem_map.mpr ⟨data, hdata, rfl⟩, rfl, rfl⟩

/-- A server that looks its replies up is honest. -/
theorem World.authoritativeReply_honest (W : World) {z : Path} {zone name : Name}
    (rtype : RecordType) (hzone : zone.path <+: name.path) :
    W.HonestReply z name rtype (W.authoritativeReply zone name rtype) := by
  unfold World.authoritativeReply
  simp only
  split
  · rename_i hheld
    have hne : W.lookup name.path rtype ≠ [] := by simpa using hheld
    refine .records ⟨?_, ?_, ?_, Or.inl rfl⟩ hne (W.given_map_lookup name rtype)
    · intro r hr
      obtain ⟨hname, hdata, htype⟩ := World.mem_map_lookup hr
      rwa [hname, htype]
    · intro r hr _
      rw [(World.mem_map_lookup hr).1]
      exact W.given_map_lookup name rtype
    · intro r hr htype
      rw [(World.mem_map_lookup hr).2.2] at htype
      exact Or.inl htype
  · rename_i hnone
    have hempty : W.lookup name.path rtype = [] := by simpa using hnone
    split
    · rename_i halias
      obtain ⟨r, hr, hsome⟩ := List.any_eq_true.mp halias
      obtain ⟨hname, hdata, -⟩ := World.mem_map_lookup hr
      obtain ⟨target, hcname⟩ := Option.isSome_iff_exists.mp hsome
      rw [cname?_eq_some hcname] at hdata
      refine .redirected (q := target.path) ⟨?_, ?_, ?_, Or.inl rfl⟩ ⟨hempty, target, hdata, rfl⟩
        ⟨target, W.given_map_lookup name .CNAME _ hdata, rfl⟩
      · intro r hr
        obtain ⟨hname, hdata, htype⟩ := World.mem_map_lookup hr
        rwa [hname, htype]
      · intro r hr htype
        obtain ⟨hname, -, hcnameType⟩ := World.mem_map_lookup hr
        rw [hname, ← htype, hcnameType]
        exact W.given_map_lookup name .CNAME
      · intro r hr _
        rw [(World.mem_map_lookup hr).1]
        exact Or.inr hempty
    · rename_i hnoAlias
      refine .denial ?_ hempty rfl rfl rfl hzone
      rintro q ⟨-, target, htarget, -⟩
      apply hnoAlias
      exact List.any_eq_true.mpr ⟨_, List.mem_map.mpr ⟨_, htarget, rfl⟩, rfl⟩

end Recursor
end UnifiedDns
