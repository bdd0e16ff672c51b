import UnifiedDns.Engine.Pipeline

/-!
# Revalidation, one map operation at a time

`Server` takes a request in one step and the end of a revalidation in another.  Here both are cut where the
code touches a shared map: a request that has read a stale entry, the claim of the key in `in_flight`, the
spawn of the task, what the task does to the cache, and the release of the key.  All other events are those
of `Server`, and anything may come in between.

* `FlightState`, `flightStep`, `flightRun` — the machine.
* `holders` — the requests and tasks that own a key.
* `flightRun_singleFlight` — a key is in flight when it has one holder, and then only one.
* `step_eq_flightRun` — the steps of `Server` are runs of this machine.
-/

namespace UnifiedDns
namespace Engine

open Dnssec (DnssecStatus)

variable {W : Type}

/-- A request that has read a stale entry, with its clock reading. -/
structure Reader (W : Type) where
  req : Request
  query : Query
  entry : CacheEntry W
  now : Nat

structure FlightState (W : Type) where
  server : ServerState W
  /-- Requests that have not tried to claim their key yet. -/
  readers : List (Reader W)
  /-- Requests that claimed their key and have not spawned their task yet. -/
  claimed : List (Reader W)
  /-- Tasks that are done with the cache and have not released their key yet. -/
  releasing : List Query
  /-- A ghost: the keys claimed since the start, one item a claim. -/
  claims : List Text
  /-- A ghost: the keys released since the start. -/
  releases : List Text

inductive FlightEvent
  /-- An event of `Server`; a request that reads a stale entry stops there, and the end of a revalidation
  stops before the release. -/
  | server (event : Event)
  /-- `in_flight.insert`, by the reader with this number. -/
  | claim (index : Nat)
  /-- `tokio::spawn`, by the claiming request with this number, which then serves its entry. -/
  | spawn (index : Nat)
  /-- `in_flight.remove`, by the task with this number. -/
  | release (index : Nat)

/-- A machine with nothing under way between the maps. -/
def FlightState.ofServer (s : ServerState W) : FlightState W := ⟨s, [], [], [], [], []⟩

/-- The stale entry a request comes to. -/
def staleRead (env : ServerEnv W) (req : Request) (s : ServerState W) :
    Option (Query × CacheEntry W) :=
  match req.message.queries, req.action with
  | [query], .allow =>
      match s.cache (queryKey env query) with
      | some entry =>
          if entry.freshnessAt s.now env.maxStale = .stale then some (query, entry) else none
      | none => none
  | _, _ => none

/-- The reader builds its reply from the entry, or waits for the resolver. -/
def serveReader (env : ServerEnv W) (r : Reader W) (s : ServerState W) : ServerState W :=
  match serveEntry env r.req r.query r.entry { s with now := r.now } with
  | some (_, served) => { served with now := s.now }
  | none => { s with tasks := s.tasks ++ [.foreground r.req r.query r.now] }

/-- The claim of a key; a reader that comes second serves its entry only. -/
def claimKey (env : ServerEnv W) (index : Nat) (s : FlightState W) : FlightState W :=
  match s.readers[index]? with
  | none => s
  | some r =>
      let key := queryKey env r.query
      match s.server.inFlight key with
      | some () =>
          { s with readers := s.readers.eraseIdx index, server := serveReader env r s.server }
      | none =>
          { s with
            readers := s.readers.eraseIdx index
            server := { s.server with inFlight := s.server.inFlight.insert key () }
            claimed := s.claimed ++ [r]
            claims := key :: s.claims }

/-- The spawn of the revalidation task. -/
def spawnTask (env : ServerEnv W) (index : Nat) (s : FlightState W) : FlightState W :=
  match s.claimed[index]? with
  | none => s
  | some r =>
      { s with
        claimed := s.claimed.eraseIdx index
        server := serveReader env r
          { s.server with tasks := s.server.tasks ++ [.revalidation r.query] } }

/-- What a revalidation task does to the cache when the resolver has returned. -/
def applyTask (env : ServerEnv W) (index : Nat) (query : Query)
    (result : Option (Message × DnssecStatus)) (s : FlightState W) : FlightState W :=
  { s with
    server := applyRevalidation env query result
      { s.server with tasks := s.server.tasks.eraseIdx index }
    releasing := query :: s.releasing }

/-- The release of a key, the last step of a revalidation task. -/
def releaseKey (env : ServerEnv W) (index : Nat) (s : FlightState W) : FlightState W :=
  match s.releasing[index]? with
  | none => s
  | some query =>
      let key := queryKey env query
      { s with
        server := { s.server with inFlight := s.server.inFlight.remove key }
        releasing := s.releasing.eraseIdx index
        releases := key :: s.releases }

/-- An event of `Server`. -/
def serverEvent (env : ServerEnv W) (event : Event) (s : FlightState W) : FlightState W :=
  match event with
  | .receive req =>
      match staleRead env req s.server with
      | some (query, entry) =>
          { s with readers := s.readers ++ [⟨req, query, entry, s.server.now⟩] }
      | none => { s with server := step env (.receive req) s.server }
  | .finish index result =>
      match s.server.tasks[index]? with
      | some (.revalidation query) => applyTask env index query result s
      | _ => { s with server := step env (.finish index result) s.server }
  | .restart => .ofServer (step env .restart s.server)
  | event => { s with server := step env event s.server }

/-- One event. -/
def flightStep (env : ServerEnv W) (s : FlightState W) (event : FlightEvent) : FlightState W :=
  match event with
  | .server event => serverEvent env event s
  | .claim index => claimKey env index s
  | .spawn index => spawnTask env index s
  | .release index => releaseKey env index s

/-- The state after a list of events. -/
def flightRun (env : ServerEnv W) (events : List FlightEvent) (s : FlightState W) : FlightState W :=
  events.foldl (flightStep env) s

/-! ### Holders -/

/-- The question belongs to the key. -/
def ofKey (env : ServerEnv W) (key : Text) (query : Query) : Bool := decide (queryKey env query = key)

/-- The task is a revalidation of the key. -/
def revalidates (env : ServerEnv W) (key : Text) : Task → Bool
  | .revalidation query => ofKey env key query
  | .foreground _ _ _ => false
  | .prewarm _ => false

/-- How many requests and tasks own the key: requests between claim and spawn, and tasks from their spawn
to their release. -/
def holders (env : ServerEnv W) (key : Text) (s : FlightState W) : Nat :=
  s.claimed.countP (fun r => ofKey env key r.query) + s.server.tasks.countP (revalidates env key) +
    s.releasing.countP (ofKey env key)

/-- A key has one holder while it is in flight and none otherwise, and every claim has been released once
or is still held. -/
structure SingleFlight (env : ServerEnv W) (s : FlightState W) : Prop where
  held : ∀ key, holders env key s = if (s.server.inFlight key).isSome then 1 else 0
  balanced : ∀ key, s.claims.count key = s.releases.count key + holders env key s

/-! ### Steps that leave keys and revalidations alone -/

section Steps

variable {env : ServerEnv W}

/-- Neither the claimed keys nor the revalidations that wait have changed. -/
structure Quiet (env : ServerEnv W) (s s' : ServerState W) : Prop where
  inFlight : s'.inFlight = s.inFlight
  tasks : ∀ key, s'.tasks.countP (revalidates env key) = s.tasks.countP (revalidates env key)

theorem Quiet.of_same {s s' : ServerState W} (hinFlight : s'.inFlight = s.inFlight)
    (htasks : s'.tasks = s.tasks) : Quiet env s s' :=
  ⟨hinFlight, fun key => by rw [htasks]⟩

theorem countP_concat {α : Type} (p : α → Bool) (l : List α) (a : α) :
    (l ++ [a]).countP p = l.countP p + (p a).toNat := by
  rw [List.countP_append, List.countP_singleton]
  cases p a <;> rfl

theorem countP_eraseIdx {α : Type} {l : List α} {i : Nat} {a : α} (h : l[i]? = some a)
    (p : α → Bool) : l.countP p = (l.eraseIdx i).countP p + (p a).toNat := by
  obtain ⟨hi, rfl⟩ := List.getElem?_eq_some_iff.mp h
  rw [← (List.getElem_cons_eraseIdx_perm hi).countP_eq p, List.countP_cons]
  cases p l[i] <;> rfl

/-- A task that is no revalidation is added. -/
theorem Quiet.of_added {s s' : ServerState W} {task : Task} (hinFlight : s'.inFlight = s.inFlight)
    (htasks : s'.tasks = s.tasks ++ [task]) (htask : ∀ key, revalidates env key task = false) :
    Quiet env s s' := by
  refine ⟨hinFlight, fun key => ?_⟩
  rw [htasks, countP_concat, htask key]
  rfl

/-- A task that is no revalidation is taken out. -/
theorem Quiet.of_erased {s s' : ServerState W} {index : Nat} {task : Task}
    (hinFlight : s'.inFlight = s.inFlight) (hindex : s.tasks[index]? = some task)
    (htasks : s'.tasks = s.tasks.eraseIdx index) (htask : ∀ key, revalidates env key task = false) :
    Quiet env s s' := by
  refine ⟨hinFlight, fun key => ?_⟩
  rw [htasks, countP_eraseIdx hindex, htask key]
  rfl

theorem serveEntry_inFlight {req : Request} {query : Query} {entry : CacheEntry W}
    {s s' : ServerState W} {outcome : ProcessOutcome W}
    (h : serveEntry env req query entry s = some (outcome, s')) : s'.inFlight = s.inFlight := by
  obtain ⟨log, rfl⟩ := serveEntry_state h
  rfl

theorem serveReader_quiet (r : Reader W) (s : ServerState W) : Quiet env s (serveReader env r s) := by
  unfold serveReader
  split
  · rename_i heq
    have hinFlight := serveEntry_inFlight heq
    have htasks := serveEntry_tasks heq
    exact ⟨hinFlight, fun key => congrArg (List.countP _) htasks⟩
  · exact .of_added rfl rfl fun _ => rfl

/-- A request that does not read a stale entry claims nothing. -/
theorem receive_quiet {req : Request} {s : ServerState W} (hstale : staleRead env req s = none) :
    Quiet env s (receive env req s).2 := by
  unfold receive
  split
  · rename_i query hquestion
    split
    · exact .of_same rfl rfl
    · exact .of_same rfl rfl
    · rename_i haction
      unfold staleRead at hstale
      rw [hquestion, haction] at hstale
      unfold lookupCache
      split
      · exact .of_added rfl rfl fun _ => rfl
      · rename_i entry hentry
        simp only [hentry] at hstale
        have hnotStale : entry.freshnessAt s.now env.maxStale ≠ .stale := by
          intro h
          rw [if_pos h] at hstale
          cases hstale
        simp only [if_neg hnotStale]
        split
        · exact .of_added rfl rfl fun _ => rfl
        · split
          · rename_i heq
            exact .of_same (serveEntry_inFlight heq) (serveEntry_tasks heq)
          · exact .of_added rfl rfl fun _ => rfl
  · exact .of_same rfl rfl

theorem insertResolved_inFlight (query : Query) (msg : Message) (status : DnssecStatus) (now : Nat)
    (s : ServerState W) : (insertResolved env query msg status now s).inFlight = s.inFlight := by
  unfold insertResolved
  split <;> rfl

theorem applyRevalidation_inFlight (query : Query) (result : Option (Message × DnssecStatus))
    (s : ServerState W) : (applyRevalidation env query result s).inFlight = s.inFlight := by
  unfold applyRevalidation
  split
  · rfl
  · split
    · rfl
    · split
      · exact insertResolved_inFlight query _ _ _ s
      · unfold touchEntry
        split <;> rfl

theorem applyRevalidation_tasks (query : Query) (result : Option (Message × DnssecStatus))
    (s : ServerState W) : (applyRevalidation env query result s).tasks = s.tasks :=
  finish_tasks (.revalidation query) result s

/-- The end of a task that is no revalidation releases nothing. -/
theorem finish_inFlight {task : Task} (htask : ∀ key, revalidates env key task = false)
    (result : Option (Message × DnssecStatus)) (s : ServerState W) :
    (finish env task result s).2.inFlight = s.inFlight := by
  cases task with
  | foreground req query now =>
      show (finishForeground env req query now result s).2.inFlight = s.inFlight
      rw [finishForeground_state]
      split
      · rfl
      · split
        · exact insertResolved_inFlight query _ _ now s
        · rfl
  | revalidation query =>
      have hself := htask (queryKey env query)
      simp [revalidates, ofKey] at hself
  | prewarm query =>
      show (finishPrewarm env query result s).inFlight = s.inFlight
      unfold finishPrewarm
      split
      · rfl
      · split
        · rfl
        · split
          · rfl
          · exact insertResolved_inFlight query _ _ s.now s

end Steps

/-! ### Every step keeps the count -/

section Invariant

variable {env : ServerEnv W} {s : FlightState W}

theorem SingleFlight.of_quiet (h : SingleFlight env s) {server : ServerState W}
    {readers : List (Reader W)} (hquiet : Quiet env s.server server) :
    SingleFlight env { s with server := server, readers := readers } := by
  have hholders (key : Text) :
      holders env key { s with server := server, readers := readers } = holders env key s := by
    unfold holders
    rw [hquiet.tasks key]
  constructor
  · intro key
    rw [hholders, h.held key, hquiet.inFlight]
  · intro key
    rw [hholders]
    exact h.balanced key

/-- A claim takes a key that nobody holds. -/
theorem claimKey_singleFlight (h : SingleFlight env s) (index : Nat) :
    SingleFlight env (claimKey env index s) := by
  unfold claimKey
  split
  · exact h
  · rename_i r _
    simp only
    split
    · exact h.of_quiet (serveReader_quiet r s.server)
    · rename_i hfree
      -- The claimed key gains a holder, the others keep theirs.
      have hgained (key : Text) : holders env key
          { s with
            readers := s.readers.eraseIdx index
            server := { s.server with inFlight := s.server.inFlight.insert (queryKey env r.query) () }
            claimed := s.claimed ++ [r]
            claims := queryKey env r.query :: s.claims } =
          holders env key s + (ofKey env key r.query).toNat := by
        unfold holders
        simp only [countP_concat]
        omega
      constructor
      · intro key
        rw [hgained, h.held key]
        by_cases hkey : key = queryKey env r.query
        · subst hkey
          rw [hfree]
          simp [ofKey]
        · simp only [TextMap.insert_of_ne _ _ hkey, ofKey, decide_eq_false (Ne.symm hkey)]
          rfl
      · intro key
        rw [hgained]
        have hbalanced := h.balanced key
        simp only [List.count_cons, beq_iff_eq, ofKey]
        by_cases hkey : queryKey env r.query = key
        · rw [if_pos hkey, decide_eq_true hkey, hbalanced]
          rfl
        · rw [if_neg hkey, decide_eq_false hkey, hbalanced]
          rfl

/-- The spawned task holds what its request held. -/
theorem spawnTask_singleFlight (h : SingleFlight env s) (index : Nat) :
    SingleFlight env (spawnTask env index s) := by
  unfold spawnTask
  split
  · exact h
  · rename_i r hr
    have hquiet := @serveReader_quiet W env r
      { s.server with tasks := s.server.tasks ++ [.revalidation r.query] }
    have hmoved (key : Text) : holders env key
        { s with
          claimed := s.claimed.eraseIdx index
          server := serveReader env r
            { s.server with tasks := s.server.tasks ++ [.revalidation r.query] } } =
        holders env key s := by
      have hclaimed := countP_eraseIdx hr fun r => ofKey env key r.query
      unfold holders
      rw [hquiet.tasks key, countP_concat, hclaimed]
      simp only [revalidates]
      omega
    constructor
    · intro key
      rw [hmoved, h.held key]
      show _ = if ((serveReader env r _).inFlight key).isSome then 1 else 0
      rw [hquiet.inFlight]
    · intro key
      rw [hmoved]
      exact h.balanced key

/-- The task goes on holding its key until it releases it. -/
theorem applyTask_singleFlight (h : SingleFlight env s) {index : Nat} {query : Query}
    (hindex : s.server.tasks[index]? = some (.revalidation query))
    (result : Option (Message × DnssecStatus)) :
    SingleFlight env (applyTask env index query result s) := by
  have hmoved (key : Text) :
      holders env key (applyTask env index query result s) = holders env key s := by
    have htasks : s.server.tasks.countP (revalidates env key) =
        (s.server.tasks.eraseIdx index).countP (revalidates env key) +
          (ofKey env key query).toNat :=
      countP_eraseIdx hindex (revalidates env key)
    have hreleasing : (query :: s.releasing).countP (ofKey env key) =
        s.releasing.countP (ofKey env key) + (ofKey env key query).toNat := by
      rw [List.countP_cons]
      cases ofKey env key query <;> rfl
    unfold holders applyTask
    simp only [applyRevalidation_tasks]
    omega
  constructor
  · intro key
    rw [hmoved, h.held key]
    show _ = if ((applyRevalidation env query result _).inFlight key).isSome then 1 else 0
    rw [applyRevalidation_inFlight]
  · intro key
    rw [hmoved]
    exact h.balanced key

/-- A release frees the key of the task that releases, which was its only holder. -/
theorem releaseKey_singleFlight (h : SingleFlight env s) (index : Nat) :
    SingleFlight env (releaseKey env index s) := by
  unfold releaseKey
  split
  · exact h
  · rename_i query hquery
    have hlost (key : Text) : holders env key s = holders env key
        { s with
          server := { s.server with inFlight := s.server.inFlight.remove (queryKey env query) }
          releasing := s.releasing.eraseIdx index
          releases := queryKey env query :: s.releases } + (ofKey env key query).toNat := by
      have hreleasing := countP_eraseIdx hquery (ofKey env key)
      unfold holders
      simp only
      omega
    constructor
    · intro key
      have hheld := hlost key
      rw [h.held key] at hheld
      by_cases hkey : key = queryKey env query
      · subst hkey
        simp only [TextMap.remove_self, Option.isSome_none, Bool.false_eq_true, if_false]
        simp only [ofKey, decide_true, Bool.toNat_true] at hheld
        split at hheld
        · omega
        · omega
      · simp only [ofKey, decide_eq_false (Ne.symm hkey), Bool.toNat_false, Nat.add_zero] at hheld
        simp only [TextMap.remove_of_ne _ hkey]
        exact hheld.symm
    · intro key
      have hbalanced := h.balanced key
      rw [hlost key] at hbalanced
      simp only [List.count_cons, beq_iff_eq]
      by_cases hkey : queryKey env query = key
      · simp only [ofKey, decide_eq_true hkey, Bool.toNat_true] at hbalanced
        rw [if_pos hkey, hbalanced]
        omega
      · simp only [ofKey, decide_eq_false hkey, Bool.toNat_false] at hbalanced
        rw [if_neg hkey, hbalanced]
        omega

/-- An event of `Server`. -/
theorem serverEvent_singleFlight (h : SingleFlight env s) (event : Event) :
    SingleFlight env (serverEvent env event s) := by
  cases event with
  | wait seconds => exact h.of_quiet (.of_same rfl rfl)
  | receive req =>
      unfold serverEvent
      simp only
      split
      · exact h.of_quiet (.of_same rfl rfl)
      · rename_i hstale
        exact h.of_quiet (receive_quiet hstale)
  | finish index result =>
      unfold serverEvent
      simp only
      split
      · rename_i query hindex
        exact applyTask_singleFlight h hindex result
      · rename_i hother
        simp only [step]
        split
        · exact h.of_quiet (.of_same rfl rfl)
        · rename_i task hindex
          have htask : ∀ key, revalidates env key task = false := by
            cases task with
            | foreground req query now => exact fun _ => rfl
            | revalidation query => exact absurd hindex (hother query)
            | prewarm query => exact fun _ => rfl
          exact h.of_quiet (.of_erased (finish_inFlight htask result _) hindex
            (finish_tasks task result _) htask)
  | prewarm name rtype =>
      simp only [serverEvent, step]
      split
      · exact h.of_quiet (.of_same rfl rfl)
      · exact h.of_quiet (.of_added rfl rfl fun _ => rfl)
  | saveStart => exact h.of_quiet (.of_same rfl rfl)
  | saveItem key =>
      simp only [serverEvent, step, saveItem]
      split
      · exact h.of_quiet (.of_same rfl rfl)
      · split
        · exact h.of_quiet (.of_same rfl rfl)
        · exact h.of_quiet (.of_same rfl rfl)
  | saveEnd outcome =>
      simp only [serverEvent, step, saveEnd]
      split
      · exact h.of_quiet (.of_same rfl rfl)
      · exact h.of_quiet (.of_same rfl rfl)
  | restart => exact ⟨fun key => rfl, fun key => rfl⟩

theorem flightStep_singleFlight (h : SingleFlight env s) (event : FlightEvent) :
    SingleFlight env (flightStep env s event) := by
  cases event with
  | server event => exact serverEvent_singleFlight h event
  | claim index => exact claimKey_singleFlight h index
  | spawn index => exact spawnTask_singleFlight h index
  | release index => exact releaseKey_singleFlight h index

theorem flightRun_singleFlight (h : SingleFlight env s) (events : List FlightEvent) :
    SingleFlight env (flightRun env events s) := by
  induction events generalizing s with
  | nil => exact h
  | cons event rest ih => exact ih (flightStep_singleFlight h event)

end Invariant

/-! ### What a task does -/

/-- What is served of an entry. -/
def CacheEntry.content (entry : CacheEntry W) : W × DnssecStatus × Nat × Nat :=
  (entry.rawWire, entry.dnssecStatus, entry.minTtl, entry.cachedAt)

/-- A complete new entry for a resolved message, in the place of the old one. -/
def Renewed (env : ServerEnv W) (query : Query) (result : Option (Message × DnssecStatus)) (now : Nat)
    (entry : Option (CacheEntry W)) : Prop :=
  ∃ msg status wire, result = some (msg, status) ∧
    (status = .secure ∨ status = .insecureUnsigned) ∧
      env.encode (canonicalResponse msg status) = some wire ∧
        entry = some ⟨wire, calculateCacheTtl (canonicalResponse msg status) status now, now, now, status,
          resolvedQuery query⟩

/-- A task changes what is served only by a complete new entry under its own key. -/
theorem applyRevalidation_cache (env : ServerEnv W) (query : Query)
    (result : Option (Message × DnssecStatus)) (s : ServerState W) (key : Text) :
    ((applyRevalidation env query result s).cache key).map CacheEntry.content =
        (s.cache key).map CacheEntry.content ∨
      (key = queryKey env query ∧
        Renewed env query result s.now ((applyRevalidation env query result s).cache key)) := by
  unfold applyRevalidation
  split
  · exact Or.inl rfl
  · rename_i msg status
    split
    · exact Or.inl rfl
    · split
      · rename_i hcacheable
        have hstatus : status = .secure ∨ status = .insecureUnsigned := by
          simpa [isCacheableDnssec] using (Bool.and_eq_true_iff.mp hcacheable).2
        unfold insertResolved
        split
        · exact Or.inl rfl
        · rename_i wire hwire
          by_cases hkey : key = queryKey env query
          · subst hkey
            exact Or.inr ⟨rfl, msg, status, wire, rfl, hstatus, hwire, TextMap.insert_self _ _ _⟩
          · exact Or.inl (congrArg _ (TextMap.insert_of_ne _ _ hkey))
      · -- Only the time of the last revalidation is written.
        unfold touchEntry
        split
        · exact Or.inl rfl
        · rename_i entry hentry
          left
          by_cases hkey : key = queryKey env query
          · subst hkey
            simp [hentry, TextMap.insert, CacheEntry.content]
          · exact congrArg _ (TextMap.insert_of_ne _ _ hkey)

/-- What is promised of revalidation in a state of the machine. -/
structure RevalidationContract (env : ServerEnv W) (s : FlightState W) : Prop where
  inFlight_iff : ∀ key, (s.server.inFlight key).isSome ↔ holders env key s = 1
  free_iff : ∀ key, s.server.inFlight key = none ↔ holders env key s = 0
  /-- Every claim since the start was released once or is held now. -/
  balanced : ∀ key, s.claims.count key = s.releases.count key + holders env key s
  /-- Whatever its result, a task comes to its release, still holding its key. -/
  finishes : ∀ index query result, s.server.tasks[index]? = some (.revalidation query) →
    let s' := flightStep env s (.server (.finish index result))
    s'.releasing = query :: s.releasing ∧ s'.server.tasks = s.server.tasks.eraseIdx index ∧
      s'.server.inFlight = s.server.inFlight ∧
        ∀ key, (s'.server.cache key).map CacheEntry.content = (s.server.cache key).map CacheEntry.content ∨
          (key = queryKey env query ∧ Renewed env query result s.server.now (s'.server.cache key))
  /-- A release ends the task that was the only holder, and changes nothing else. -/
  releases : ∀ index query, s.releasing[index]? = some query →
    let s' := flightStep env s (.release index)
    holders env (queryKey env query) s = 1 ∧ holders env (queryKey env query) s' = 0 ∧
      s'.releasing = s.releasing.eraseIdx index ∧ s'.server.tasks = s.server.tasks ∧
        s'.server.inFlight = s.server.inFlight.remove (queryKey env query) ∧
          s'.server.cache = s.server.cache

theorem SingleFlight.inFlight_iff {env : ServerEnv W} {s : FlightState W} (h : SingleFlight env s)
    (key : Text) : (s.server.inFlight key).isSome ↔ holders env key s = 1 := by
  rw [h.held key]
  cases s.server.inFlight key with
  | none => simp
  | some _ => simp

theorem SingleFlight.free_iff {env : ServerEnv W} {s : FlightState W} (h : SingleFlight env s)
    (key : Text) : s.server.inFlight key = none ↔ holders env key s = 0 := by
  rw [h.held key]
  cases s.server.inFlight key with
  | none => simp
  | some _ => simp

/-- A task that is about to release holds its key. -/
theorem holders_pos_of_releasing {env : ServerEnv W} {s : FlightState W} {index : Nat} {query : Query}
    (h : s.releasing[index]? = some query) : 0 < holders env (queryKey env query) s := by
  have hreleasing := countP_eraseIdx h (ofKey env (queryKey env query))
  rw [ofKey, decide_eq_true rfl] at hreleasing
  unfold holders
  simp only [Bool.toNat_true] at hreleasing
  omega

/-- **Single-flight revalidation.**  For every interleaving of requests, revalidations and all other
events, one map operation at a time. -/
theorem revalidation_contract (env : ServerEnv W) (events : List FlightEvent) :
    RevalidationContract env (flightRun env events (.ofServer (.init W))) := by
  have hinit : SingleFlight env (.ofServer (.init W)) := ⟨fun _ => rfl, fun _ => rfl⟩
  have h := flightRun_singleFlight hinit events
  generalize flightRun env events (.ofServer (.init W)) = s at h
  refine ⟨h.inFlight_iff, h.free_iff, h.balanced, ?_, ?_⟩
  · intro index query result hindex
    have hstep : flightStep env s (.server (.finish index result)) =
        applyTask env index query result s := by
      simp only [flightStep, serverEvent, hindex]
    simp only [hstep]
    exact ⟨rfl, applyRevalidation_tasks query result _, applyRevalidation_inFlight query result _,
      applyRevalidation_cache env query result _⟩
  · intro index query hindex
    have hafter := (releaseKey_singleFlight h index).held (queryKey env query)
    have hstep : flightStep env s (.release index) = { s with
        server := { s.server with inFlight := s.server.inFlight.remove (queryKey env query) }
        releasing := s.releasing.eraseIdx index
        releases := queryKey env query :: s.releases } := by
      simp only [flightStep, releaseKey, hindex]
    have hone : holders env (queryKey env query) s = 1 := by
      have hpos := @holders_pos_of_releasing W env s index query hindex
      rw [h.held] at hpos ⊢
      split
      · rfl
      · rename_i hfree
        rw [if_neg hfree] at hpos
        omega
    have hzero : holders env (queryKey env query) (flightStep env s (.release index)) = 0 := by
      show holders env (queryKey env query) (releaseKey env index s) = 0
      rw [hafter]
      show (if ((flightStep env s (.release index)).server.inFlight (queryKey env query)).isSome
        then 1 else 0) = 0
      rw [hstep]
      simp
    refine ⟨hone, hzero, ?_⟩
    rw [hstep]
    exact ⟨rfl, rfl, rfl, rfl⟩

/-! ### The steps of `Server` are runs -/

/-- Nothing is under way between the maps. -/
structure FlightState.Idle (s : FlightState W) : Prop where
  readers : s.readers = []
  claimed : s.claimed = []
  releasing : s.releasing = []

theorem staleRead_eq_some {env : ServerEnv W} {req : Request} {s : ServerState W} {query : Query}
    {entry : CacheEntry W} (h : staleRead env req s = some (query, entry)) :
    req.message.queries = [query] ∧ req.action = .allow ∧ s.cache (queryKey env query) = some entry ∧
      entry.freshnessAt s.now env.maxStale = .stale := by
  unfold staleRead at h
  split at h
  · rename_i query' hquestion haction
    split at h
    · rename_i entry' hentry
      split at h
      · rename_i hstale
        cases h
        exact ⟨hquestion, haction, hentry, hstale⟩
      · cases h
    · cases h
  · cases h

/-- A request that reads a stale entry, in one step: the claim, the spawn and the reply. -/
theorem receive_stale {env : ServerEnv W} {req : Request} {s : ServerState W} {query : Query}
    {entry : CacheEntry W} (h : staleRead env req s = some (query, entry)) :
    (receive env req s).2 =
      serveReader env ⟨req, query, entry, s.now⟩ (spawnRevalidation env query s) := by
  obtain ⟨hquestion, haction, hentry, hstale⟩ := staleRead_eq_some h
  have hnotExpired : entry.freshnessAt s.now env.maxStale ≠ .expired := by
    rw [hstale]
    decide
  unfold receive
  rw [hquestion, haction]
  simp only
  rw [lookupCache_hit req query hentry hnotExpired, if_pos hstale]
  unfold serveOrMiss serveReader missCache
  simp only
  rw [← @spawnRevalidation_now W env query s]
  split
  · rename_i served heq
    obtain ⟨log, rfl⟩ := serveEntry_state heq
    have heq' : serveEntry env req query entry (spawnRevalidation env query s) = _ := heq
    simp only [heq']
  · rename_i heq
    have heq' : serveEntry env req query entry (spawnRevalidation env query s) = none := heq
    simp only [heq']

/-- What the three steps of a request that reads a stale entry come to. -/
theorem flightRun_stale {env : ServerEnv W} {req : Request} {s : FlightState W} (hidle : s.Idle)
    {query : Query} {entry : CacheEntry W} (h : staleRead env req s.server = some (query, entry)) :
    let s' := flightRun env [.server (.receive req), .claim 0, .spawn 0] s
    s'.Idle ∧ s'.server = (receive env req s.server).2 := by
  obtain ⟨server, readers, claimed, releasing, claims, releases⟩ := s
  obtain ⟨rfl, rfl, rfl⟩ := hidle
  simp only at h
  have hread : flightStep env ⟨server, [], [], [], claims, releases⟩ (.server (.receive req)) =
      ⟨server, [⟨req, query, entry, server.now⟩], [], [], claims, releases⟩ := by
    simp only [flightStep, serverEvent, h, List.nil_append]
  simp only [flightRun, List.foldl_cons, List.foldl_nil, hread, receive_stale h]
  cases hfree : server.inFlight (queryKey env query) with
  | some _ =>
      have hclaim : flightStep env ⟨server, [⟨req, query, entry, server.now⟩], [], [], claims, releases⟩
          (.claim 0) =
          ⟨serveReader env ⟨req, query, entry, server.now⟩ server, [], [], [], claims, releases⟩ := by
        simp [flightStep, claimKey, hfree]
      rw [hclaim]
      refine ⟨⟨rfl, rfl, rfl⟩, ?_⟩
      simp [flightStep, spawnTask, spawnRevalidation, hfree]
  | none =>
      have hclaim : flightStep env ⟨server, [⟨req, query, entry, server.now⟩], [], [], claims, releases⟩
          (.claim 0) =
          ⟨{ server with inFlight := server.inFlight.insert (queryKey env query) () }, [],
            [⟨req, query, entry, server.now⟩], [], queryKey env query :: claims, releases⟩ := by
        simp [flightStep, claimKey, hfree]
      rw [hclaim]
      refine ⟨⟨rfl, rfl, rfl⟩, ?_⟩
      simp [flightStep, spawnTask, spawnRevalidation, hfree]

/-- A step of `Server` is a run from an idle state to an idle state. -/
theorem step_eq_flightRun (env : ServerEnv W) (event : Event) {s : FlightState W} (hidle : s.Idle) :
    ∃ events, (flightRun env events s).Idle ∧
      (flightRun env events s).server = step env event s.server := by
  have hsame (s' : FlightState W) (h : flightStep env s (.server event) = s') (hidle' : s'.Idle)
      (hserver : s'.server = step env event s.server) : ∃ events, (flightRun env events s).Idle ∧
        (flightRun env events s).server = step env event s.server := by
    refine ⟨[.server event], ?_⟩
    rw [show flightRun env [.server event] s = s' from h]
    exact ⟨hidle', hserver⟩
  have hstays (server : ServerState W) : FlightState.Idle { s with server := server } :=
    ⟨hidle.readers, hidle.claimed, hidle.releasing⟩
  cases event with
  | receive req =>
      cases hstale : staleRead env req s.server with
      | none =>
          refine hsame { s with server := step env (.receive req) s.server } ?_ (hstays _) rfl
          simp only [flightStep, serverEvent, hstale]
      | some read =>
          obtain ⟨query, entry⟩ := read
          exact ⟨_, flightRun_stale hidle hstale⟩
  | finish index result =>
      cases hindex : s.server.tasks[index]? with
      | none =>
          refine hsame { s with server := step env (.finish index result) s.server } ?_ (hstays _) rfl
          simp only [flightStep, serverEvent, hindex]
      | some task =>
          cases task with
          | foreground req query now =>
              refine hsame { s with server := step env (.finish index result) s.server } ?_ (hstays _) rfl
              simp only [flightStep, serverEvent, hindex]
          | prewarm query =>
              refine hsame { s with server := step env (.finish index result) s.server } ?_ (hstays _) rfl
              simp only [flightStep, serverEvent, hindex]
          | revalidation query =>
              -- The end of a revalidation is what it does to the cache, and the release.
              obtain ⟨server, readers, claimed, releasing, claims, releases⟩ := s
              obtain ⟨rfl, rfl, rfl⟩ := hidle
              simp only at hindex
              refine ⟨[.server (.finish index result), .release 0], ?_⟩
              simp only [flightRun, List.foldl_cons, List.foldl_nil, flightStep, serverEvent, hindex,
                applyTask, releaseKey, List.getElem?_cons_zero, step, finish, finishRevalidation]
              exact ⟨⟨rfl, rfl, rfl⟩, trivial⟩
  | restart => exact hsame _ rfl ⟨rfl, rfl, rfl⟩ rfl
  | wait seconds => exact hsame _ rfl (hstays _) rfl
  | prewarm name rtype => exact hsame _ rfl (hstays _) rfl
  | saveStart => exact hsame _ rfl (hstays _) rfl
  | saveItem key => exact hsame _ rfl (hstays _) rfl
  | saveEnd outcome => exact hsame _ rfl (hstays _) rfl

/-- Every state of `Server` is one of this machine with nothing under way between the maps. -/
theorem serverRun_flightRun {env : ServerEnv W} {server : ServerState W} (h : ServerRun env server) :
    ∃ events, (flightRun env events (.ofServer (.init W))).Idle ∧
      (flightRun env events (.ofServer (.init W))).server = server := by
  induction h with
  | init => exact ⟨[], ⟨rfl, rfl, rfl⟩, rfl⟩
  | step event _ _ ih =>
      obtain ⟨before, hidle, rfl⟩ := ih
      obtain ⟨events, hidle', hserver⟩ := step_eq_flightRun env event hidle
      refine ⟨before ++ events, ?_⟩
      unfold flightRun at hidle' hserver ⊢
      rw [List.foldl_append]
      exact ⟨hidle', hserver⟩

end Engine
end UnifiedDns
