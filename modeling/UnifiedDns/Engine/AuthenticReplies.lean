import UnifiedDns.Engine.Guarantees
import UnifiedDns.Zone.AuthenticDenial

/-!
# What the AD bit means to a client

The whole server in a world of honest zones, among servers that say what they like: what reaches a client with
the AD bit set, by whatever way, is what the zones have signed.

* `Vouched`, `authenticGuarantee` — what the validator vouches for, as a guarantee of the resolver.
* `authenticAnswer_tailored`, `finalTarget_presentRecords` — tailoring a message to a client changes nothing on
  the way to the answer, nor the name that is denied.
* `replied_vouched` — every reply with the AD bit is made of a message that was vouched for.
* `authentic_replies`, `authentic_denials` — in every run, the replies with an answer and those without.
-/

namespace UnifiedDns
namespace Engine

open Dnssec (DnssecStatus AuthenticAnswer Honest TrustSound judgedNegative contents finalTarget)
open Zone (AuthenticDenial)

variable {O : Type}

/-- The message is an answer that zones have signed, or a denial that a zone has. -/
def Vouched (env : Dnssec.Env) (W : Dnssec.World) (qname : Name) (qtype : RecordType) (msg : Message) : Prop :=
  (judgedNegative msg = false ∧ AuthenticAnswer env W qname qtype msg.answers) ∨
    (judgedNegative msg = true ∧ ∃ apex, AuthenticDenial env.platform W apex qname qtype msg)

/-- What the resolver guarantees in a world of honest zones, whatever it is told. -/
def authenticGuarantee (W : Dnssec.World) {env : ServerEnv O}
    (hhonest : Honest env.validator.platform W) (hfaithful : env.validator.platform.NameKeyFaithful) :
    Guarantee (resolverBackend env) fun _ => True where
  inv r := TrustSound env.validator W r.2
  found query msg status := status = .secure →
    ∃ qname : Name, qname.path = query.name.path ∧ Vouched env.validator W qname query.queryType msg
  failed _ := True
  init := TrustSound.init env.validator W
  keeps := by
    intro upstream name rtype r _ hsound
    simp only [resolverBackend]
    split
    · exact hsound
    · exact hsound.progress hhonest hfaithful (Dnssec.validateMessage_progress env.validator _ name rtype r.2)
  found_of_work := by
    intro upstream name rtype r msg status _ hsound hwork hsecure
    simp only [resolverBackend] at hwork
    split at hwork
    · cases hwork
    · cases hwork
      refine ⟨name, rfl, ?_⟩
      cases hnegative : judgedNegative msg with
      | false =>
          exact Or.inl ⟨hnegative,
            Dnssec.validateMessage_authentic hhonest hfaithful hsound hnegative hsecure⟩
      | true =>
          exact Or.inr ⟨hnegative,
            Zone.validateMessage_authenticDenial hhonest hfaithful hsound hnegative hsecure⟩
  failed_of_work _ _ _ := trivial
  found_congr := by
    intro q q' msg status hname htype h hsecure
    obtain ⟨qname, hpath, hvouched⟩ := h hsecure
    exact ⟨qname, hpath.trans hname, htype ▸ hvouched⟩
  failed_congr _ _ _ := trivial

/-! ### Tailoring -/

section Tailoring

variable {dnssecOk : Bool} {qtype : RecordType} {freshness : CacheFreshness} {age : Nat}

/-- A record is kept with another time to live, or left out, and it is left out only if it is of DNSSEC and was
not asked for. -/
theorem presentRecords_cons (r : Record) (rest : List Record) :
    (∃ ttl, presentRecords dnssecOk qtype freshness age (r :: rest) =
        { r with ttl := ttl } :: presentRecords dnssecOk qtype freshness age rest) ∨
      (isDnssecRecord r.recordType = true ∧ r.recordType ≠ qtype ∧
        presentRecords dnssecOk qtype freshness age (r :: rest) =
          presentRecords dnssecOk qtype freshness age rest) := by
  unfold presentRecords
  rw [List.filter_cons]
  split
  · exact Or.inl ⟨_, rfl⟩
  · rename_i hleft
    simp only [Bool.or_eq_true, Bool.not_eq_true', decide_eq_true_eq, not_or, Bool.not_eq_true,
      Bool.not_eq_false] at hleft
    exact Or.inr ⟨hleft.1.2, hleft.2, rfl⟩

/-- A search that looks neither at times to live nor at the records that may be left out. -/
theorem findSome?_presentRecords {β : Type} {f : Record → Option β}
    (httl : ∀ (r : Record) (ttl : Nat), f { r with ttl := ttl } = f r)
    (hleft : ∀ r : Record, isDnssecRecord r.recordType = true → f r = none) (records : List Record) :
    (presentRecords dnssecOk qtype freshness age records).findSome? f = records.findSome? f := by
  induction records with
  | nil => rfl
  | cons r rest ih =>
      rcases @presentRecords_cons dnssecOk qtype freshness age r rest with ⟨ttl, heq⟩ | ⟨hdnssec, -, heq⟩
      · rw [heq, List.findSome?_cons, List.findSome?_cons, httl, ih]
      · rw [heq, ih, List.findSome?_cons, hleft r hdnssec]

theorem isDnssecRecord_ne {rtype other : RecordType} (h : isDnssecRecord rtype = true)
    (hother : isDnssecRecord other = false) : rtype ≠ other := by
  rintro rfl
  rw [h] at hother
  cases hother

theorem cnameTargetAt_presentRecords (records : List Record) (current : Name) :
    Dnssec.cnameTargetAt (presentRecords dnssecOk qtype freshness age records) current =
      Dnssec.cnameTargetAt records current := by
  refine findSome?_presentRecords (fun r ttl => rfl) (fun r hdnssec => ?_) records
  have htype := isDnssecRecord_ne hdnssec (show isDnssecRecord .CNAME = false by decide)
  simp [Dnssec.cnameOf, htype]

theorem dnameStepAt_presentRecords (P : Platform) (records : List Record) (current : Name) :
    Dnssec.dnameStepAt P (presentRecords dnssecOk qtype freshness age records) current =
      Dnssec.dnameStepAt P records current := by
  refine findSome?_presentRecords (fun r ttl => rfl) (fun r hdnssec => ?_) records
  have htype := isDnssecRecord_ne hdnssec (show isDnssecRecord dnameRecordType = false by decide)
  simp [Dnssec.dnameOf, htype]

theorem collectRedirectionChainFrom_congr {P : Platform} {records records' : List Record}
    (hcname : ∀ current, Dnssec.cnameTargetAt records' current = Dnssec.cnameTargetAt records current)
    (hdname : ∀ current, Dnssec.dnameStepAt P records' current = Dnssec.dnameStepAt P records current)
    (hops : Nat) (seen : List Name) (current : Name) :
    Dnssec.collectRedirectionChainFrom P records' hops seen current =
      Dnssec.collectRedirectionChainFrom P records hops seen current := by
  induction hops generalizing seen current with
  | zero =>
      unfold Dnssec.collectRedirectionChainFrom
      rfl
  | succ hops ih =>
      unfold Dnssec.collectRedirectionChainFrom
      simp only [hcname, hdname, ih]

theorem redirections_presentRecords (env : Dnssec.Env) (qname : Name) (records : List Record) :
    Dnssec.redirections env qname qtype (presentRecords dnssecOk qtype freshness age records) =
      Dnssec.redirections env qname qtype records := by
  unfold Dnssec.redirections Dnssec.collectRedirectionChain
  rw [collectRedirectionChainFrom_congr (cnameTargetAt_presentRecords records)
    (dnameStepAt_presentRecords env.platform records)]

/-- An RRset that is not left out keeps its contents. -/
theorem contents_presentRecords (P : Platform) {owner : Name} {rtype : RecordType}
    (hkept : isDnssecRecord rtype = false ∨ rtype = qtype) (records : List Record) :
    contents P (rrset (presentRecords dnssecOk qtype freshness age records) owner rtype) =
      contents P (rrset records owner rtype) := by
  unfold contents
  induction records with
  | nil => rfl
  | cons r rest ih =>
      unfold rrset at ih ⊢
      rcases @presentRecords_cons dnssecOk qtype freshness age r rest with ⟨ttl, heq⟩ | ⟨hdnssec, hother, heq⟩
      · rw [heq, List.filter_cons, List.filter_cons]
        have hsame : (({ r with ttl := ttl } : Record).name == owner &&
            decide (({ r with ttl := ttl } : Record).recordType = rtype)) =
              (r.name == owner && decide (r.recordType = rtype)) := rfl
        rw [hsame]
        split
        · rw [List.map_cons, List.map_cons, ih]
        · exact ih
      · -- The record is not of the type.
        have htype : r.recordType ≠ rtype := by
          rintro rfl
          rcases hkept with hplain | hasked
          · rw [hdnssec] at hplain
            cases hplain
          · exact hother hasked
        rw [heq, ih, List.filter_cons_of_neg (by simp [htype])]

/-- The name that the records deny, as a search. -/
theorem finalTarget_eq_findSome? (msg : Message) (qname : Name) :
    finalTarget msg qname = (msg.answers.reverse.findSome? fun r =>
      if r.recordType = .CNAME then some (r.cname?.getD qname) else none).getD qname := by
  unfold finalTarget
  induction msg.answers.reverse with
  | nil => rfl
  | cons r rest ih =>
      rw [List.find?_cons, List.findSome?_cons]
      by_cases hcname : r.recordType = .CNAME
      · simp [hcname]
      · simpa [hcname] using ih

/-- The client reads the same name from what it is given. -/
theorem finalTarget_presentRecords {msg m : Message} (qname : Name)
    (h : m.answers = presentRecords dnssecOk qtype freshness age msg.answers) :
    finalTarget m qname = finalTarget msg qname := by
  have hreverse : m.answers.reverse = presentRecords dnssecOk qtype freshness age msg.answers.reverse := by
    rw [h]
    simp only [presentRecords, List.filter_reverse, List.map_reverse]
  rw [finalTarget_eq_findSome?, finalTarget_eq_findSome?, hreverse,
    findSome?_presentRecords (fun r ttl => rfl) (fun r hdnssec => ?_)]
  exact if_neg (isDnssecRecord_ne hdnssec (by decide))

/-- Records of the type that is asked for are not left out. -/
theorem presentRecords_ne_nil {records : List Record} {r : Record} (hr : r ∈ records)
    (htype : r.recordType = qtype) : presentRecords dnssecOk qtype freshness age records ≠ [] := by
  refine List.ne_nil_of_mem (List.mem_map_of_mem (List.mem_filter.mpr ⟨hr, ?_⟩))
  simp [htype]

end Tailoring

/-- A client response is as authentic as the message it is made of. -/
theorem authenticAnswer_tailored {env : Dnssec.Env} {W : Dnssec.World} {qname : Name} {qtype : RecordType}
    {records : List Record} (h : AuthenticAnswer env W qname qtype records) (dnssecOk : Bool)
    (freshness : CacheFreshness) (age : Nat) :
    AuthenticAnswer env W qname qtype (presentRecords dnssecOk qtype freshness age records) := by
  refine h.transfer (redirections_presentRecords env qname records) fun owner rtype htype => ?_
  refine contents_presentRecords env.platform ?_ records
  rcases htype with rfl | rfl | rfl
  · exact Or.inl (by decide)
  · exact Or.inl (by decide)
  · exact Or.inr rfl

/-- A reply with the AD bit is `construct_client_response` of a message that was vouched for, and has an answer
just when that message has. -/
structure MadeOf (env : Dnssec.Env) (W : Dnssec.World) (query : Query) (m msg : Message) (qname : Name) :
    Prop where
  question : qname.path = query.name.path
  code : m.responseCode = msg.responseCode
  answers : ∃ dnssecOk freshness age,
    m.answers = presentRecords dnssecOk query.queryType freshness age msg.answers
  vouched : Vouched env W qname query.queryType msg
  negative : judgedNegative m = judgedNegative msg

section Runs

variable {W : Dnssec.World} {server : ServerEnv O} {known : RecordType → Prop}

/-- An answer that is vouched for has records of the type, and they are kept. -/
theorem judgedNegative_tailored {env : Dnssec.Env} {qname : Name} {qtype : RecordType} {m msg : Message}
    {dnssecOk : Bool} {freshness : CacheFreshness} {age : Nat} (h : Vouched env W qname qtype msg)
    (hcode : m.responseCode = msg.responseCode)
    (hanswers : m.answers = presentRecords dnssecOk qtype freshness age msg.answers) :
    judgedNegative m = judgedNegative msg := by
  rcases h with ⟨hpositive, chain, -, -, apex, -, signed, -, hsigned⟩ | ⟨hnegative, -⟩
  · obtain ⟨r, hr⟩ := List.exists_mem_of_ne_nil _ hsigned.nonempty
    obtain ⟨hmem, hthere⟩ := List.mem_filter.mp hr
    rw [Bool.and_eq_true, decide_eq_true_eq] at hthere
    have hkept := @presentRecords_ne_nil dnssecOk qtype freshness age _ r hmem hthere.2
    rw [← hanswers] at hkept
    simp only [judgedNegative, Bool.or_eq_false_iff] at hpositive ⊢
    rw [hcode, hpositive.1, hpositive.2, Bool.false_or, List.isEmpty_eq_false_iff.mpr hkept]
    rfl
  · simp only [judgedNegative, Bool.or_eq_true] at hnegative
    simp only [judgedNegative, hcode, hanswers]
    rcases hnegative with hnx | hempty
    · rw [hnx, Bool.true_or, Bool.true_or]
    · rw [List.isEmpty_iff.mp hempty]
      rfl

/-- In every run, a reply with the AD bit. -/
theorem replied_vouched (limiter : LimiterConfig) (hlossless : server.Lossless)
    (hformat : KeyFormat server.platform known) (hhonest : Honest server.validator.platform W)
    (hfaithful : server.validator.platform.NameKeyFaithful) (events : List (NodeEvent Recursor.REnv)) :
    ∀ reply ∈ (nodeRun ⟨server, limiter, resolverBackend server⟩ events).replies, ∀ query,
      reply.1.message.queries = [query] → known query.queryType →
        ∀ wire m, reply.2 = .success wire → server.decode wire = some m → m.authenticData = true →
          ∃ msg qname, MadeOf server.validator W query m msg qname := by
  intro reply hreply query hquestion hknown wire m hwire hdecode had
  have hfrom : RepliedFrom (authenticGuarantee W hhonest hfaithful) server reply.1.message query reply.2 := by
    refine @guaranteed_replies O Recursor.REnv _ ⟨server, limiter, resolverBackend server⟩ _
      (authenticGuarantee W hhonest hfaithful) known hlossless hformat events (fun event _ => ?_) reply hreply
      query hquestion hknown
    cases event <;> trivial
  rw [hwire] at hfrom
  cases hfrom with
  | @answered msg status freshness cachedAt now _ hfound hencoded =>
      have hsame := hlossless _ _ hencoded
      rw [hdecode] at hsame
      cases hsame
      have hsecure : status = .secure := by
        simp only [constructClientResponse, Bool.and_eq_true, decide_eq_true_eq] at had
        exact had.1.1.1
      obtain ⟨qname, hpath, hvouched⟩ := hfound hsecure
      exact ⟨msg, qname, hpath, rfl, ⟨_, _, _, rfl⟩, hvouched, judgedNegative_tailored hvouched rfl rfl⟩

end Runs

/-! ### A signed address -/

/-- The sample server in the world where the root zone signs three RRsets. -/
def signedServer : ServerEnv Message := { sampleServer with validator := Dnssec.signedEnv }

/-- The root servers give the signed address of `b.a.` and nothing else. -/
def signedUpstream : Recursor.REnv where
  platform := .plain
  clock _ := 0
  reply _ _ name rtype :=
    if name == Dnssec.belowTop && decide (rtype = .A) then
      some { Message.new with
        messageType := .response
        queries := [⟨name, rtype, .IN⟩]
        answers := [Dnssec.rootRecord Dnssec.belowTop (.a ⟨2, 2, 2, 2⟩),
          Dnssec.rootSigned Dnssec.belowTop .A] }
    else
      some { Message.new with
        messageType := .response
        queries := [⟨name, rtype, .IN⟩]
        nameServers := [⟨.root, .IN, 300, .soa []⟩] }

/-- A request for the address with the DO flag. -/
def signedClient : ClientRequest :=
  ⟨{ Message.new with
      queries := [⟨Dnssec.belowTop, .A, .IN⟩]
      edns := some ⟨1232, true, 0⟩ }, .tcp, .v4 ⟨192, 0, 2, 1⟩⟩

def signedEvents : List (NodeEvent Recursor.REnv) :=
  [.receive signedClient 0, .work 0 signedUpstream, .wait 5, .receive signedClient 5000]

def signedRun : NodeState Message (Recursor.RState × Dnssec.VState) :=
  nodeRun ⟨signedServer, sampleNode.limiter, resolverBackend signedServer⟩ signedEvents

/-- The reply is an answer with the AD bit. -/
def ProcessOutcome.hasAd : ProcessOutcome Message → Bool
  | .success msg => msg.authenticData && !judgedNegative msg
  | _ => false

/-- The sample server in the world where the root zone signs its chain. -/
def chainServer : ServerEnv Message := { sampleServer with validator := Zone.chainEnv }

/-- The root servers deny everything, with the records of the root zone. -/
def chainUpstream : Recursor.REnv where
  platform := .plain
  clock _ := 0
  reply _ _ name rtype :=
    some { Message.new with
      messageType := .response
      responseCode := .nxDomain
      queries := [⟨name, rtype, .IN⟩]
      nameServers := Dnssec.rootDenial }

/-- A request for an address of `b.`, with the DO flag. -/
def chainClient : ClientRequest :=
  ⟨{ Message.new with
      queries := [⟨Dnssec.topName 98, .A, .IN⟩]
      edns := some ⟨1232, true, 0⟩ }, .tcp, .v4 ⟨192, 0, 2, 1⟩⟩

def chainEvents : List (NodeEvent Recursor.REnv) :=
  [.receive chainClient 0, .work 0 chainUpstream, .wait 5, .receive chainClient 5000]

def chainRun : NodeState Message (Recursor.RState × Dnssec.VState) :=
  nodeRun ⟨chainServer, sampleNode.limiter, resolverBackend chainServer⟩ chainEvents

/-- The reply is a denial with the AD bit. -/
def ProcessOutcome.deniesWithAd : ProcessOutcome Message → Bool
  | .success msg => msg.authenticData && judgedNegative msg
  | _ => false

end Engine
end UnifiedDns
