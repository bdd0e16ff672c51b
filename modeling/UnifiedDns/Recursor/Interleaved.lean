import UnifiedDns.Recursor.Discipline
import UnifiedDns.Recursor.HonestResolution

/-!
# Resolutions side by side

Any number of resolutions over one delegation cache, each of them started at any time, and their accesses to
the cache and their waits in any order.

* `resolutions` — the pool of resolutions.
* `safeDiscipline`, `requests_stay_safe` — whatever servers reply, no resolution asks an address of a
  special-use range.
* `honestDiscipline` — resolutions among honest servers.
* `interleaved_answers` — every resolution that ends brings a true answer, and brings one if its question is
  within the limits.
-/

namespace UnifiedDns
namespace Recursor

/-- What a resolution is for. -/
abbrev Question := Name × RecordType

/-- Resolutions that share a delegation cache. -/
abbrev ResolutionPool :=
  Pool Question (TextMap DelegationEntry) Ask Ask.Answer (Except RecursorError Message)

/-- The resolution of a question. -/
def resolutionOf (P : Platform) (q : Question) : Resolution (Except RecursorError Message) :=
  Stepwise.resolve P q.1 q.2

/-- The resolutions and their cache after a list of events. -/
def resolutions (P : Platform) (cache : TextMap DelegationEntry)
    (events : List (PoolEvent Question Ask.Answer)) : ResolutionPool :=
  Pool.run (resolutionOf P) cache events

/-- The answers that come along a run are allowed. -/
def AnswersAllowed (P : Platform) (C : CacheContract) (cache : TextMap DelegationEntry)
    (events : List (PoolEvent Question Ask.Answer)) : Prop :=
  Along (Pool.step (resolutionOf P)) (Pool.Allows C) ⟨cache, []⟩ events

theorem Discipline.resolutions_sound {P : Platform} {C : CacheContract} (D : Discipline P C)
    {cache : TextMap DelegationEntry} (hcache : C.inv cache)
    {events : List (PoolEvent Question Ask.Answer)} (hallowed : AnswersAllowed P C cache events) :
    (resolutions P cache events).Sound C fun q => D.result ⟨maxDepth + 1, q.1, q.2, []⟩ := by
  have hbody : ∀ q, (resolutionOf P q).Obeys C (D.result ⟨maxDepth + 1, q.1, q.2, []⟩) := by
    intro q
    unfold resolutionOf
    exact D.resolve_obeys q.1 q.2
  exact Pool.run_obeys hbody hcache hallowed

/-! ### Whatever servers reply -/

/-- Only safe addresses are cached and asked; nothing is known of the replies. -/
def safeContract : CacheContract where
  inv cache := ∀ key entry, cache key = some entry → ∀ ip ∈ entry.servers, isSafeUpstreamIp ip = true
  asks
    | .clock => True
    | .servers ips _ _ => ∀ ip ∈ ips, isSafeUpstreamIp ip = true
  answers _ _ := True

theorem ReferralTo.safe {bailiwick zone : Name} {nsNames : List Name} {response : Message}
    {visited visited' : List Text} {servers : List IpAddr}
    (h : ReferralTo bailiwick zone nsNames response visited servers visited') :
    ∀ ip ∈ servers, isSafeUpstreamIp ip = true := by
  rcases h with ⟨-, rfl, -⟩ | ⟨-, hsafe⟩
  · exact filterSafeIps_safe _
  · exact hsafe

def safeDiscipline (P : Platform) : Discipline P safeContract where
  result _ _ := True
  frame _ _ _ f := ∀ ip ∈ f.currentServers, isSafeUpstreamIp ip = true
  clock := trivial
  remove key hcache k entry hentry := hcache k entry (TextMap.remove_eq_some hentry).2
  tooDeep _ := trivial
  fromRoot _ := rootServers_safe
  fromCache hcache _ hentry _ := hcache _ _ hentry
  asks hframe := hframe
  outOfSteps _ := trivial
  silence := by
    intro c visited left f hframe _
    split
    · exact rootServers_safe
    · trivial
  done _ _ _ := trivial
  redirect := by
    intro c visited left f response hop key target _ _ _
    split
    · trivial
    · exact fun r _ => trivial
  referral := by
    intro c visited visited' left f response zone nsNames servers _ _ _ hreferral
    split
    · trivial
    · refine ⟨hreferral.safe, fun cache expiresAt hcache key entry hentry => ?_⟩
      rcases TextMap.insert_eq_some hentry with ⟨-, rfl⟩ | hold
      · exact hreferral.safe
      · exact hcache key entry hold

/-- **No resolution asks an address of a special-use range**, whatever servers reply and however resolutions
get into each other's way: in every run from an empty cache, the servers a resolution waits for are all of
them safe, and so are the servers in the delegation cache. -/
theorem requests_stay_safe (P : Platform) (events : List (PoolEvent Question Ask.Answer)) :
    (∀ q ips name rtype next,
      (q, Routine.ask (.servers ips name rtype) next) ∈ (resolutions P TextMap.empty events).routines →
        ∀ ip ∈ ips, ¬ Forbidden ip) ∧
      ∀ key entry, (resolutions P TextMap.empty events).memory key = some entry →
        ∀ ip ∈ entry.servers, ¬ Forbidden ip := by
  have hallowed : AnswersAllowed P safeContract TextMap.empty events := by
    refine Along.of_mem (fun event _ pool => ?_) _
    cases event with
    | start q => trivial
    | advance index input => exact fun task _ => .of_answers (fun _ => trivial) task.2
  have hempty : safeContract.inv TextMap.empty := fun key entry h => by cases h
  have hsound := (safeDiscipline P).resolutions_sound hempty hallowed
  constructor
  · intro q ips name rtype next hmem ip hip
    exact (isSafeUpstreamIp_iff ip).mp (hsound.asks hmem ip hip)
  · intro key entry hentry ip hip
    exact (isSafeUpstreamIp_iff ip).mp (hsound.inv key entry hentry ip hip)

/-! ### Among honest servers -/

section Honest

variable {W : World} {P : Platform}

/-- What honest servers and those that are gone reply. -/
def HonestAnswer (W : World) : ∀ q : Ask, q.Answer → Prop
  | .clock, _ => True
  | .servers ips name rtype, reply =>
      (∀ z, W.Authorities z ips → z <+: questionPath name.path rtype →
        ∃ m, reply = some m ∧ W.HonestReply z name rtype m) ∧
      (W.Silent ips → reply = none)

/-- The cache holds servers of the zones it names or servers that are gone, and servers are honest. -/
def honestContract (W : World) (P : Platform) : CacheContract where
  inv := CacheHonest W P
  asks _ := True
  answers := HonestAnswer W

theorem replied_authorities {z : Path} {servers : List IpAddr} {name : Name} {rtype : RecordType}
    {reply : Option Message} (h : Replied (honestContract W P) servers name rtype reply)
    (hips : W.Authorities z servers) (hz : z <+: questionPath name.path rtype) :
    ∃ m, reply = some m ∧ W.HonestReply z name rtype m := by
  rcases h with ⟨hnone, -⟩ | ⟨-, answer, hanswer, rfl⟩
  · obtain ⟨ip, hip, -⟩ := hips.live
    rw [hnone] at hip
    cases hip
  · obtain ⟨m, rfl, hhonest⟩ := hanswer.1 z hips hz
    exact ⟨m, Option.filter_eq_some_iff.mpr ⟨rfl, decide_eq_true hhonest.code⟩, hhonest⟩

theorem replied_silent {servers : List IpAddr} {name : Name} {rtype : RecordType}
    {reply : Option Message} (h : Replied (honestContract W P) servers name rtype reply)
    (hips : W.Silent servers) : reply = none := by
  rcases h with ⟨-, rfl⟩ | ⟨-, answer, hanswer, rfl⟩
  · rfl
  · rw [hanswer.2 hips]
    rfl

/-- A reply comes from servers of a zone above the question. -/
theorem Frame.Good.replied {f : Frame} {name : Name} {rtype : RecordType} {m : Message}
    (hframe : f.Good W name rtype)
    (h : Replied (honestContract W P) f.currentServers name rtype (some m)) :
    ∃ z, f.At W z ∧ z <+: questionPath name.path rtype ∧ W.HonestReply z name rtype m := by
  rcases hframe with ⟨z, hat, hz⟩ | hsilent
  · obtain ⟨m', hsome, hhonest⟩ := replied_authorities h hat.authorities hz
    cases hsome
    exact ⟨z, hat, hz, hhonest⟩
  · cases replied_silent h hsilent

/-! The first half: a result that is an answer is a true one. -/

/-- A call brings true answers only. -/
def Call.Truthful (W : World) (c : Call) (r : Except RecursorError Message) : Prop :=
  ∀ m, r = .ok m → W.TrueAnswer c.rtype c.name.path m

theorem Call.Truthful.error (W : World) (c : Call) (e : RecursorError) : c.Truthful W (.error e) :=
  fun m h => by cases h

theorem Call.Truthful.redirected {c : Call} {stop : Name} {hop : Message} {r : Except RecursorError Message}
    {visited : List Text} (h : Call.Truthful W ⟨c.levels - 1, stop, c.rtype, visited⟩ r)
    (hheld : W.Held hop.answers) (hroute : Route W c.rtype hop.answers c.name.path stop.path) :
    c.Truthful W (redirected c.name c.rtype hop r) := by
  cases r with
  | error e => exact .error W c e
  | ok m =>
      intro merged hmerged
      cases hmerged
      obtain ⟨rest, hleads, hanswered⟩ := h m rfl
      obtain ⟨targets, hleads', hreaches⟩ := hroute.reaches hleads
      exact ⟨targets, hleads', hanswered.merge hheld hreaches⟩

/-! The second half: a call whose question is within the limits brings an answer. -/

/-- The targets of the question are new to the call, and it has the levels for them. -/
structure Call.Within (W : World) (P : Platform) (c : Call) (targets : List Path) : Prop where
  question : W.Answerable c.rtype c.name.path targets
  levels : targets.length < c.levels
  unvisited : ∀ n : Name, n.path ∈ targets → asciiText "cname:" ++ P.nameKey n ∉ c.visited

def Call.Completes (W : World) (P : Platform) (c : Call) (r : Except RecursorError Message) : Prop :=
  ∀ targets, c.Within W P targets → ∃ m, r = .ok m ∧ W.Answered c.rtype c.name.path targets m

/-- The loop still has a turn for every zone between its servers and the question; servers that are gone
cost a turn, and the loop has come from the cache to them. -/
def Frame.OnTime (W : World) (c : Call) (left : Nat) (f : Frame) : Prop :=
  (∃ z, f.At W z ∧ z <+: questionPath c.name.path c.rtype ∧
    W.zonesAbove (questionPath c.name.path c.rtype) < W.zonesAbove z + left) ∨
  W.Silent f.currentServers ∧ f.usingCached = true ∧
    W.zonesAbove (questionPath c.name.path c.rtype) < left

/-- Where the loop may be. -/
structure Call.Frames (W : World) (P : Platform) (c : Call) (visited : List Text) (left : Nat)
    (f : Frame) : Prop where
  good : f.Good W c.name c.rtype
  onTime : ∀ targets, c.Within W P targets → visited = c.visited ∧ f.OnTime W c left

theorem Frame.fromRoot_onTime {c : Call} {left : Nat}
    (h : W.zonesAbove (questionPath c.name.path c.rtype) < left + 1) :
    Frame.fromRoot.OnTime W c left := by
  refine Or.inl ⟨[], Frame.fromRoot_at W, List.nil_prefix, ?_⟩
  rw [World.zonesAbove_root]
  omega

theorem frames_fromRoot (c : Call) : c.Frames W P c.visited maxSteps .fromRoot where
  good := Frame.fromRoot_good W c.name c.rtype
  onTime _ h :=
    ⟨rfl, Frame.fromRoot_onTime (Nat.lt_succ_of_lt (h.question.zones c.name.path List.mem_cons_self))⟩

theorem frames_fromCache {c : Call} {cache : TextMap DelegationEntry} {zone : Name}
    {entry : DelegationEntry} (hcache : CacheHonest W P cache)
    (hmem : zone ∈ (delegationStart c.name c.rtype).ancestors)
    (hentry : cache (P.nameKey zone) = some entry) :
    c.Frames W P c.visited maxSteps (.fromCache zone entry.servers) := by
  have hstart := hcache.start hmem hentry
  refine ⟨hstart, fun targets h => ⟨rfl, ?_⟩⟩
  have hzones := h.question.zones c.name.path List.mem_cons_self
  rcases hstart with ⟨z, hat, hz⟩ | hsilent
  · refine Or.inl ⟨z, hat, hz, ?_⟩
    omega
  · exact Or.inr ⟨hsilent, rfl, hzones⟩

/-- With no turn left the question is not within the limits. -/
theorem frames_outOfSteps {c : Call} {visited : List Text} {f : Frame} (hframe : c.Frames W P visited 0 f) :
    c.Completes W P (.error .stepLimitExceeded) := by
  intro targets h
  rcases (hframe.onTime targets h).2 with ⟨z, -, hz, hless⟩ | ⟨-, -, hless⟩
  · have hmono := W.zonesAbove_mono hz
    omega
  · exact absurd hless (Nat.not_lt_zero _)

/-- When no server replies, the servers are gone; a call within the limits has them from the cache. -/
theorem frames_silence {c : Call} {visited : List Text} {left : Nat} {f : Frame}
    (hframe : c.Frames W P visited (left + 1) f)
    (hreplied : Replied (honestContract W P) f.currentServers c.name c.rtype none) :
    if f.usingCached then c.Frames W P visited left .fromRoot
    else c.Completes W P (.error .allNameserversFailed) := by
  have hgone : ∀ z, f.At W z → ¬ z <+: questionPath c.name.path c.rtype := by
    intro z hat hz
    obtain ⟨m, hsome, -⟩ := replied_authorities hreplied hat.authorities hz
    cases hsome
  have hcached : ∀ targets, c.Within W P targets → visited = c.visited ∧ f.usingCached = true ∧
      W.zonesAbove (questionPath c.name.path c.rtype) < left + 1 := by
    intro targets h
    obtain ⟨hvisited, ⟨z, hat, hz, -⟩ | ⟨-, hcached, hless⟩⟩ := hframe.onTime targets h
    · exact absurd hz (hgone z hat)
    · exact ⟨hvisited, hcached, hless⟩
  split
  · refine ⟨Frame.fromRoot_good W c.name c.rtype, fun targets h => ?_⟩
    obtain ⟨hvisited, -, hless⟩ := hcached targets h
    exact ⟨hvisited, Frame.fromRoot_onTime hless⟩
  · rename_i hnot
    intro targets h
    exact absurd (hcached targets h).2.1 hnot

/-- What a call within the limits makes of a reply. -/
theorem frames_verdict (hfaithful : P.NameKeyFaithful) {c : Call} {visited : List Text} {left : Nat}
    {f : Frame} {response : Message} (hframe : c.Frames W P visited (left + 1) f)
    (hreplied : Replied (honestContract W P) f.currentServers c.name c.rtype (some response))
    {targets : List Path} (h : c.Within W P targets) :
    visited = c.visited ∧ ∃ z,
      HonestVerdict W P c.name c.rtype targets z response
        (judgeResponse P c.name c.rtype f response) ∧
      W.zonesAbove (questionPath c.name.path c.rtype) < W.zonesAbove z + (left + 1) := by
  obtain ⟨hvisited, ⟨z, hat, hz, hless⟩ | ⟨hsilent, -⟩⟩ := hframe.onTime targets h
  · obtain ⟨m, hsome, hhonest⟩ := replied_authorities hreplied hat.authorities hz
    cases hsome
    exact ⟨hvisited, z, judgeResponse_honest hfaithful hat h.question.leads hhonest, hless⟩
  · cases replied_silent hreplied hsilent

/-- The target of an alias within the limits is within the limits of the nested call. -/
theorem Call.Within.nested (hfaithful : P.NameKeyFaithful) {c : Call} {targets rest : List Path}
    (h : c.Within W P targets) {records : List Record} {stop : Name}
    (hreaches : Reaches records c.name.path targets stop.path rest) (hmem : stop.path ∈ targets)
    (hless : rest.length < targets.length) :
    Call.Within W P ⟨c.levels - 1, stop, c.rtype,
      (asciiText "cname:" ++ P.nameKey stop) :: c.visited⟩ rest := by
  have hrest := h.question.reaches hreaches hmem
  have hlevels := h.levels
  refine ⟨hrest, ?_, ?_⟩
  · show rest.length < c.levels - 1
    omega
  · -- The target itself does not come up again behind it.
    intro n hn hkey
    rcases List.mem_cons.mp hkey with hsame | hold
    · have hpath := (hfaithful n stop).mp (List.append_cancel_left hsame)
      rw [hpath] at hn
      exact hrest.leads.notMem hn
    · exact h.unvisited n (hreaches.subset hn) hold

/-! Both halves, field by field. -/

/-- The result of a call among honest servers. -/
structure Call.Honest (W : World) (P : Platform) (c : Call) (r : Except RecursorError Message) : Prop where
  truthful : c.Truthful W r
  completes : c.Completes W P r

theorem honest_done (hfaithful : P.NameKeyFaithful) {c : Call} {visited : List Text} {left : Nat}
    {f : Frame} {response : Message} {r : Except RecursorError Message}
    (hframe : c.Frames W P visited (left + 1) f)
    (hreplied : Replied (honestContract W P) f.currentServers c.name c.rtype (some response))
    (hverdict : judgeResponse P c.name c.rtype f response = .done r) : c.Honest W P r := by
  obtain ⟨z, hat, -, hhonest⟩ := hframe.good.replied hreplied
  have htrue := judgeResponse_true P hat hhonest
  rw [hverdict] at htrue
  constructor
  · cases htrue with
    | done h =>
        intro m hm
        cases hm
        exact h
    | failed e => exact .error W c e
  · intro targets h
    obtain ⟨-, z, hhonest, -⟩ := frames_verdict hfaithful hframe hreplied h
    rw [hverdict] at hhonest
    cases hhonest with
    | done hanswered => exact ⟨_, rfl, hanswered⟩

theorem honest_redirect (hfaithful : P.NameKeyFaithful) {c : Call} {visited : List Text} {left : Nat}
    {f : Frame} {response hop : Message} {key : Text} {target : Name}
    (hframe : c.Frames W P visited (left + 1) f)
    (hreplied : Replied (honestContract W P) f.currentServers c.name c.rtype (some response))
    (hverdict : judgeResponse P c.name c.rtype f response = .redirect key target hop) :
    if visited.contains key then c.Honest W P (.error .noProgress)
    else ∀ r, Call.Honest W P ⟨c.levels - 1, target, c.rtype, key :: visited⟩ r →
      c.Honest W P (redirected c.name c.rtype hop r) := by
  obtain ⟨z, hat, -, hreply⟩ := hframe.good.replied hreplied
  have htrue := judgeResponse_true P hat hreply
  have hwithin : ∀ targets, c.Within W P targets → visited = c.visited ∧
      key = asciiText "cname:" ++ P.nameKey target ∧ hop = response ∧ target.path ∈ targets ∧
        ∃ rest, Reaches hop.answers c.name.path targets target.path rest ∧ rest.length < targets.length := by
    intro targets h
    obtain ⟨hvisited, z, hhonest, -⟩ := frames_verdict hfaithful hframe hreplied h
    rw [hverdict] at hhonest
    cases hhonest with
    | redirect _ hreaches hmem hless => exact ⟨hvisited, rfl, rfl, hmem, _, hreaches, hless⟩
  rw [hverdict] at htrue
  cases htrue with
  | redirect _ hheld hroute =>
      split
      · rename_i hseen
        refine ⟨.error W c _, fun targets h => ?_⟩
        obtain ⟨rfl, rfl, -, hmem, -⟩ := hwithin targets h
        exact absurd (List.contains_iff_mem.mp hseen) (h.unvisited target hmem)
      · intro r hr
        refine ⟨hr.truthful.redirected hheld hroute, fun targets h => ?_⟩
        obtain ⟨rfl, rfl, -, hmem, rest, hreaches, hless⟩ := hwithin targets h
        obtain ⟨m, rfl, hanswered⟩ := hr.completes rest (h.nested hfaithful hreaches hmem hless)
        exact ⟨_, rfl, hanswered.merge hheld hreaches⟩

theorem honest_referral (hfaithful : P.NameKeyFaithful) {c : Call} {visited visited' : List Text}
    {left : Nat} {f : Frame} {response : Message} {zone : Name} {nsNames : List Name}
    {servers : List IpAddr} (hframe : c.Frames W P visited (left + 1) f)
    (hreplied : Replied (honestContract W P) f.currentServers c.name c.rtype (some response))
    (hverdict : judgeResponse P c.name c.rtype f response = .referral zone nsNames)
    (hreferral : ReferralTo f.bailiwick zone nsNames response visited servers visited') :
    if servers = [] then c.Honest W P (.error .glueResolutionFailed)
    else c.Frames W P visited' left (.fromReferral zone servers) ∧
      ∀ (cache : TextMap DelegationEntry) (expiresAt : Nat), CacheHonest W P cache →
        CacheHonest W P (cache.insert (P.nameKey zone) ⟨servers, expiresAt⟩) := by
  obtain ⟨z, hat, -, hreply⟩ := hframe.good.replied hreplied
  have htrue := judgeResponse_true P hat hreply
  rw [hverdict] at htrue
  cases htrue with
  | referral hrefers honPath =>
      obtain ⟨hglue, hauthorities⟩ := glue_refers hrefers hat.bailiwick
      rcases hreferral with ⟨-, rfl, rfl⟩ | ⟨hnone, -⟩
      · rw [if_neg hglue]
        have hnext : ∀ z', (Frame.fromReferral zone (filterSafeIps ((glueRecords f.bailiwick zone
            ((nsRecords response).filterMap nsTarget) response).filterMap addressOf))).At W z' ↔
              z' = zone.path := by
          intro z'
          constructor
          · exact fun h => (h.progress zone rfl).symm
          · rintro rfl
            refine ⟨hauthorities, List.prefix_rfl, fun zone' hzone' => ?_⟩
            rw [← Option.some.inj hzone']
        refine ⟨⟨Or.inl ⟨zone.path, (hnext _).mpr rfl, honPath⟩, fun targets h => ?_⟩,
          fun cache expiresAt hcache => hcache.insert hfaithful hauthorities⟩
        obtain ⟨hvisited, z', hhonest, hless⟩ := frames_verdict hfaithful hframe hreplied h
        rw [hverdict] at hhonest
        refine ⟨hvisited, Or.inl ⟨zone.path, (hnext _).mpr rfl, honPath, ?_⟩⟩
        -- A turn is used up, and so is a zone.
        have hbelow : W.zonesAbove z' < W.zonesAbove zone.path := by
          generalize hns : (nsRecords response).filterMap nsTarget = nsNames at hhonest
          cases hhonest with
          | referral h _ => exact World.zonesAbove_lt h.below h.apex
        omega
      · exact absurd hnone hglue

/-- What resolutions among honest servers keep. -/
def honestDiscipline (W : World) (hfaithful : P.NameKeyFaithful) : Discipline P (honestContract W P) where
  result c r := c.Honest W P r
  frame c visited left f := c.Frames W P visited left f
  clock := trivial
  remove key hcache zone entry hentry := hcache zone entry (TextMap.remove_eq_some hentry).2
  tooDeep := by
    intro c hlevels
    refine ⟨.error W c _, fun targets h => ?_⟩
    have hless := h.levels
    omega
  fromRoot := frames_fromRoot
  fromCache hcache hmem hentry _ := frames_fromCache hcache hmem hentry
  asks _ := trivial
  outOfSteps hframe := ⟨.error W _ _, frames_outOfSteps hframe⟩
  silence := by
    intro c visited left f hframe hreplied
    have hafter := frames_silence hframe hreplied
    split
    · rename_i hcached
      rwa [if_pos hcached] at hafter
    · rename_i hcached
      rw [if_neg hcached] at hafter
      exact ⟨.error W c _, hafter⟩
  done := honest_done hfaithful
  redirect := honest_redirect hfaithful
  referral := honest_referral hfaithful

/-- An honest outside answers as the contract allows. -/
theorem HonestEnv.outside_honest {env : REnv} (henv : HonestEnv W env) (tick : Nat) (q : Ask) :
    HonestAnswer W q (env.outside tick q) := by
  cases q with
  | clock => trivial
  | servers ips name rtype =>
      exact ⟨fun z hips hz => henv.answers hips tick name rtype hz,
        fun hsilent => henv.silent hsilent tick name rtype⟩

end Honest

/-! Two questions about the world of two zones, step by step in turn. -/

def bothQuestions : List (PoolEvent Question Ask.Answer) :=
  [.start (leafServer, .A), .start (belowLeaf, .A)] ++
    (List.replicate 20 [.advance 0 (smallEnv.outside 0), .advance 1 (smallEnv.outside 0)]).flatten

theorem bothQuestions_honest :
    AnswersAllowed .plain (honestContract smallWorld .plain) staleState.delegationCache bothQuestions := by
  have hinput : ∀ (pool : ResolutionPool) (index : Nat),
      pool.Allows (honestContract smallWorld .plain) (.advance index (smallEnv.outside 0)) :=
    fun pool index task _ => .of_answers (smallEnv_honest.outside_honest 0) task.2
  refine Along.of_mem (fun event hevent pool => ?_) _
  rcases List.mem_append.mp hevent with hstart | hadvance
  · simp only [List.mem_cons, List.not_mem_nil, or_false] at hstart
    rcases hstart with rfl | rfl
    · trivial
    · trivial
  · obtain ⟨turn, hturn, hmem⟩ := List.mem_flatten.mp hadvance
    rw [List.eq_of_mem_replicate hturn] at hmem
    simp only [List.mem_cons, List.not_mem_nil, or_false] at hmem
    rcases hmem with rfl | rfl
    · exact hinput pool 0
    · exact hinput pool 1

end Recursor
end UnifiedDns
