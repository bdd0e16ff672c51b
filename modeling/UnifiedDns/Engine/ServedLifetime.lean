import UnifiedDns.Engine.CacheSafety

/-!
# The lifetimes clients see

`calculate_cache_ttl` bounds the lifetime of a `secure` entry by the remaining validity of its
signatures; `construct_client_response` ages the TTL each record arrived with.  The TTL of a record is
not covered by a signature, the Original TTL in the RRSIG is.

* `FreshReply` — the replies made of a `secure` message while it is fresh.
* `RespectsSignatures` — no reply gives a record more time than its signatures do.
* `SignedLifetimes` — the stored TTLs are within the signed ones.
* `respectsSignatures_iff` — the second is exactly what the first needs.
-/

namespace UnifiedDns
namespace Engine

/-! ### The lifetime of an entry -/

theorem minRrsigValidity_le_iff {now : Nat} {sigs : List RRSIG} {least bound : Nat} :
    (∀ found, minRrsigValidity now sigs least = some found → found ≤ bound) ↔
      least ≤ bound ∨ ∃ sig ∈ sigs, remainingValidity sig now ≤ bound := by
  induction sigs generalizing least with
  | nil => simp [minRrsigValidity]
  | cons sig rest ih =>
      simp only [minRrsigValidity]
      split
      · rw [ih, List.exists_mem_cons_iff, ← or_assoc]
        exact or_congr_left (by omega)
      · rename_i hexpired
        simp only [reduceCtorEq, false_implies, implies_true, true_iff]
        exact Or.inr ⟨sig, List.mem_cons_self, by omega⟩

/-- The lifetime of a `secure` message is at most `bound` when its least TTL is, or what one of its
signatures has left. -/
theorem calculateCacheTtl_le_iff {msg : Message} {now bound : Nat} :
    calculateCacheTtl msg .secure now ≤ bound ↔
      calculateMinTtl msg ≤ bound ∨
        ∃ sig ∈ messageRrsigs msg, remainingValidity sig now ≤ bound := by
  simp only [calculateCacheTtl, if_true]
  split
  · rename_i hnone
    have hzero := @minRrsigValidity_le_iff now (messageRrsigs msg) 4294967295 0
    simp only [hnone, reduceCtorEq, false_implies, implies_true, true_iff] at hzero
    obtain ⟨sig, hsig, hexpired⟩ := hzero.resolve_left (by omega)
    exact iff_of_true (Nat.zero_le _) (Or.inr ⟨sig, hsig, by omega⟩)
  · rename_i least hleast
    have hle := @minRrsigValidity_le_iff now (messageRrsigs msg) 4294967295 bound
    simp only [hleast, Option.some.injEq, forall_eq'] at hle
    split
    · rw [min_le_iff, hle]
      constructor
      · rintro (httl | hmax | hsig)
        · exact Or.inl httl
        · exact Or.inl ((calculateMinTtl_le_iff msg bound).mpr (Or.inr (Or.inl (by omega))))
        · exact Or.inr hsig
      · rintro (httl | hsig)
        · exact Or.inl httl
        · exact Or.inr (Or.inr hsig)
    · -- A serial distance is below 2 ^ 31, so the initial value is kept without signatures only.
      rename_i hmax
      constructor
      · exact Or.inl
      · rintro (httl | ⟨sig, hsig, -⟩)
        · exact httl
        · have hfound := (minRrsigValidity_spec hleast).2 sig hsig
          have hlt := remainingValidity_lt sig now
          omega

/-! ### Replies while a message is fresh -/

/-- All records of a message. -/
def messageRecords (msg : Message) : List Record := msg.answers ++ msg.nameServers ++ msg.additionals

/-- The replies to any request, made at time `t` of the message `msg` judged `secure`: directly after it
was resolved, or from the entry made of it at `cachedAt` while its age is below its lifetime.  The time
of a direct reply is the one clock reading of its request, which also dates the entry. -/
inductive FreshReply (msg : Message) (cachedAt t : Nat) : Message → Prop
  | direct (req : Message) (qtype : RecordType) (hnow : t = cachedAt) :
      FreshReply msg cachedAt t
        (constructClientResponse (canonicalResponse msg .secure) qtype .secure .fresh t req
          (clientEdns req).1 (clientEdns req).2 t)
  | cached (req : Message) (qtype : RecordType) (stored : Message)
      (hstored : stored = canonicalResponse msg .secure ∨ stored = prewarmResponse msg .secure)
      (hpast : cachedAt ≤ t) (hfresh : t - cachedAt < calculateCacheTtl stored .secure cachedAt) :
      FreshReply msg cachedAt t
        (constructClientResponse stored qtype .secure .fresh cachedAt req
          (clientEdns req).1 (clientEdns req).2 t)

/-- No reply made of the message while it is fresh gives a record of the answer or authority section
more time than a signature over its RRset has left, or than its Original TTL less the age; and the
lifetime of the entry keeps to both bounds for every signature of these sections. -/
structure RespectsSignatures (msg : Message) (cachedAt : Nat) : Prop where
  served : ∀ t reply, FreshReply msg cachedAt t reply → ∀ r ∈ reply.answers ++ reply.nameServers,
    ∀ sig ∈ coveringRrsigs (messageRecords msg) r.name r.recordType,
      (r.ttl : Int) ≤ remainingValidity sig t ∧ r.ttl ≤ sig.originalTtl.toNat - (t - cachedAt)
  entry : ∀ sig ∈ messageRrsigs msg,
    calculateCacheTtl msg .secure cachedAt ≤ sig.originalTtl.toNat ∧
      calculateCacheTtl msg .secure cachedAt ≤ (remainingValidity sig cachedAt).toNat

/-- The TTLs of the message are within what its signatures say.  The lifetime of the entry is within
the Original TTL of a signature when some bound it is made of is. -/
structure SignedLifetimes (msg : Message) (cachedAt : Nat) : Prop where
  records : ∀ r ∈ msg.answers ++ msg.nameServers,
    ∀ sig ∈ coveringRrsigs (messageRecords msg) r.name r.recordType,
      (r.ttl : Int) ≤ remainingValidity sig cachedAt ∧ r.ttl ≤ sig.originalTtl.toNat
  entry : ∀ sig ∈ messageRrsigs msg,
    (∃ r ∈ messageRecords msg, r.ttl ≤ sig.originalTtl.toNat) ∨ 86400 ≤ sig.originalTtl.toNat ∨
      (300 ≤ sig.originalTtl.toNat ∧ ∀ r ∈ messageRecords msg, 4294967295 ≤ r.ttl) ∨
        ∃ sig' ∈ messageRrsigs msg, remainingValidity sig' cachedAt ≤ sig.originalTtl.toNat

theorem mem_presentRecords {dnssecOk : Bool} {qtype : RecordType} {freshness : CacheFreshness}
    {age : Nat} {records : List Record} {r : Record}
    (h : r ∈ presentRecords dnssecOk qtype freshness age records) :
    ∃ stored ∈ records, r = { stored with ttl := computeTtl freshness age stored.ttl } := by
  obtain ⟨stored, hstored, heq⟩ := List.mem_map.mp h
  exact ⟨stored, (List.mem_filter.mp hstored).1, heq.symm⟩

/-- A client with the DO flag is shown every record. -/
theorem presentRecords_dnssecOk {qtype : RecordType} {freshness : CacheFreshness} {age : Nat}
    {records : List Record} {stored : Record} (h : stored ∈ records) :
    { stored with ttl := computeTtl freshness age stored.ttl } ∈
      presentRecords true qtype freshness age records := by
  apply List.mem_map_of_mem
  exact List.mem_filter.mpr ⟨h, rfl⟩

/-- A record of a fresh reply is a stored one with its TTL aged, and the age is below its TTL unless the
reply is a direct one. -/
theorem FreshReply.stored {msg reply : Message} {cachedAt t : Nat}
    (h : FreshReply msg cachedAt t reply) {r : Record} (hr : r ∈ reply.answers ++ reply.nameServers) :
    ∃ stored ∈ msg.answers ++ msg.nameServers,
      r = { stored with ttl := stored.ttl - (t - cachedAt) } ∧ cachedAt ≤ t ∧
        (t = cachedAt ∨ t - cachedAt < stored.ttl) := by
  -- The sections are those of the resolved message, whichever writer stored it.
  have hsections : ∀ base qtype req dnssecOk maxPayload, base.answers = msg.answers →
      base.nameServers = msg.nameServers →
      ∀ r ∈ (constructClientResponse base qtype .secure .fresh cachedAt req maxPayload dnssecOk
          t).answers ++
        (constructClientResponse base qtype .secure .fresh cachedAt req maxPayload dnssecOk
          t).nameServers,
      ∃ stored ∈ msg.answers ++ msg.nameServers,
        r = { stored with ttl := stored.ttl - (t - cachedAt) % 2 ^ 32 } := by
    intro base qtype req dnssecOk maxPayload hanswers hauthority r hr
    rw [← hanswers, ← hauthority]
    rcases List.mem_append.mp hr with hr | hr
    · obtain ⟨stored, hstored, heq⟩ := mem_presentRecords hr
      exact ⟨stored, List.mem_append_left _ hstored, heq⟩
    · obtain ⟨stored, hstored, heq⟩ := mem_presentRecords hr
      exact ⟨stored, List.mem_append_right _ hstored, heq⟩
  cases h with
  | direct req qtype hnow =>
      subst hnow
      obtain ⟨stored, hstored, heq⟩ := hsections _ _ _ _ _ rfl rfl r hr
      rw [Nat.sub_self, Nat.zero_mod] at heq
      exact ⟨stored, hstored, by rw [heq, Nat.sub_self], le_rfl, Or.inl rfl⟩
  | cached req qtype base hbase hpast hfresh =>
      have hsame : base.answers = msg.answers ∧ base.nameServers = msg.nameServers ∧
          calculateCacheTtl base .secure cachedAt = calculateCacheTtl msg .secure cachedAt := by
        rcases hbase with rfl | rfl
        · exact ⟨rfl, rfl, rfl⟩
        · exact ⟨rfl, rfl, rfl⟩
      obtain ⟨stored, hstored, heq⟩ := hsections _ _ _ _ _ hsame.1 hsame.2.1 r hr
      have hday : calculateCacheTtl msg .secure cachedAt ≤ 86400 :=
        calculateCacheTtl_le_iff.mpr (Or.inl ((calculateMinTtl_le_iff msg 86400).mpr
          (Or.inr (Or.inl le_rfl))))
      have httl : calculateCacheTtl msg .secure cachedAt ≤ stored.ttl :=
        calculateCacheTtl_le_iff.mpr (Or.inl (calculateMinTtl_le (List.mem_append_left _ hstored)))
      rw [hsame.2.2] at hfresh
      rw [Nat.mod_eq_of_lt (by omega)] at heq
      exact ⟨stored, hstored, heq, hpast, Or.inr (by omega)⟩

/-- A direct reply to a client with the DO flag shows every stored record with its stored TTL. -/
theorem exists_direct_reply (msg : Message) (cachedAt : Nat) :
    ∃ reply, FreshReply msg cachedAt cachedAt reply ∧
      ∀ r ∈ msg.answers ++ msg.nameServers, r ∈ reply.answers ++ reply.nameServers := by
  refine ⟨_, .direct { Message.new with edns := some ⟨1232, true, 0⟩ } .A rfl, fun r hr => ?_⟩
  have hkept : ∀ records : List Record, r ∈ records →
      r ∈ presentRecords true .A .fresh ((cachedAt - cachedAt) % 2 ^ 32) records := by
    intro records hr
    have hshown := @presentRecords_dnssecOk .A .fresh ((cachedAt - cachedAt) % 2 ^ 32) records r hr
    simpa [computeTtl] using hshown
  rcases List.mem_append.mp hr with hr | hr
  · exact List.mem_append_left _ (hkept _ hr)
  · exact List.mem_append_right _ (hkept _ hr)

/-- **Served lifetimes and signatures.**  For every message judged `secure` and every time it may be
stored at: all fresh replies, to every request and at every time, and the entry keep within the
signatures exactly when the TTLs of the message were within them when it was stored. -/
theorem respectsSignatures_iff (msg : Message) (cachedAt : Nat) :
    RespectsSignatures msg cachedAt ↔ SignedLifetimes msg cachedAt := by
  have hentry : ∀ sig : RRSIG, calculateCacheTtl msg .secure cachedAt ≤ sig.originalTtl.toNat ↔
      (∃ r ∈ messageRecords msg, r.ttl ≤ sig.originalTtl.toNat) ∨ 86400 ≤ sig.originalTtl.toNat ∨
        (300 ≤ sig.originalTtl.toNat ∧ ∀ r ∈ messageRecords msg, 4294967295 ≤ r.ttl) ∨
          ∃ sig' ∈ messageRrsigs msg,
            remainingValidity sig' cachedAt ≤ sig.originalTtl.toNat := by
    intro sig
    rw [calculateCacheTtl_le_iff, calculateMinTtl_le_iff, or_assoc, or_assoc]
    rfl
  constructor
  · intro h
    refine ⟨fun r hr sig hsig => ?_, fun sig hsig => (hentry sig).mp (h.entry sig hsig).1⟩
    obtain ⟨reply, hreply, hshown⟩ := exists_direct_reply msg cachedAt
    have hserved := h.served cachedAt reply hreply r (hshown r hr) sig hsig
    rwa [Nat.sub_self, Nat.sub_zero] at hserved
  · intro h
    refine ⟨fun t reply hreply r hr sig hsig => ?_, fun sig hsig => ⟨(hentry sig).mpr
      (h.entry sig hsig), ?_⟩⟩
    · obtain ⟨stored, hstored, rfl, hpast, hage⟩ := hreply.stored hr
      obtain ⟨hvalid, horiginal⟩ := h.records stored hstored sig hsig
      refine ⟨?_, Nat.sub_le_sub_right horiginal _⟩
      rcases hage with rfl | hage
      · simpa using hvalid
      · -- The signature outlives the stored TTL, which the age has not used up.
        rw [remainingValidity_elapsed hpast (by omega)]
        show ((stored.ttl - (t - cachedAt) : Nat) : Int) ≤ _
        omega
    · rcases @calculateCacheTtl_le msg cachedAt sig hsig with hzero | hle
      · omega
      · omega

/-! ### A signed address with a short signature -/

/-- A `secure` message may be served for longer than its signature is good. -/
theorem served_beyond_expiration :
    ¬ ∀ (env : Dnssec.Env) (msg : Message) (qname : Name) (qtype : RecordType)
        (s : Dnssec.VState), (Dnssec.validateMessage env msg qname qtype s).1 = .secure →
        RespectsSignatures msg (env.clock s.tick) := by
  intro hclaim
  -- The address of `a.` has a TTL of 300 and is signed until 100; the time is 50.
  have hrespects := hclaim (Dnssec.rootEnv fun _ _ => none) Dnssec.signedAddress (Dnssec.topName 97) .A
    .init (by decide +kernel)
  obtain ⟨reply, hreply, hshown⟩ := exists_direct_reply Dnssec.signedAddress 50
  have hcovering : (⟨.A, 8, 1, 300, 100, 0, 20326, .root, [1]⟩ : RRSIG) ∈
      coveringRrsigs (messageRecords Dnssec.signedAddress) (Dnssec.topName 97) .A :=
    mem_coveringRrsigs.mpr ⟨Dnssec.rootSigned (Dnssec.topName 97) .A,
      by simp [messageRecords, Dnssec.signedAddress], rfl, rfl, rfl⟩
  have hserved := hrespects.served 50 reply hreply _
    (hshown (Dnssec.rootRecord (Dnssec.topName 97) (.a ⟨1, 2, 3, 4⟩))
      (by simp [Dnssec.signedAddress])) _ hcovering
  exact absurd hserved.1 (by decide +kernel)

end Engine
end UnifiedDns
