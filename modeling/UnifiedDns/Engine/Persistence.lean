import UnifiedDns.Engine.CacheSafety
import UnifiedDns.Lib.BufferedWriter

/-!
# The cache file

`save_cache_to_disk_sync` and `load_cache_from_disk` down to single writes.

* `CacheCodec` — what `serde_json` writes and reads.
* `saveCacheToDiskSync` — a temporary file, a buffered writer that is dropped, and a rename.
* `loadCacheFromDisk` — the entries that parse and have not expired.
* `LosesTail` — the flush at the drop fails, and nobody notices.
* `replaced_atomically_iff` — when a save leaves the old file or a complete new one.
* `save_simulates` — a save of the file is the end of a save in the machine of the server.
-/

namespace UnifiedDns
namespace Engine

/-- `serde_json` on the cache; `J` is its `Value`. -/
structure CacheCodec (W J : Type) where
  /-- The writes of `to_writer` for a map of these entries. -/
  chunks : List (Text × CacheEntry W) → List (List Byte)
  /-- `from_reader` into a map of values. -/
  fromReader : List Byte → Option (List (Text × J))
  /-- `from_value`; an entry without a status gives nothing. -/
  fromValue : J → Option (CacheEntry W)

/-- What stands at the path of the cache and at the temporary path. -/
structure CacheFiles where
  target : Option (List Byte)
  temp : Option (List Byte)

/-- How the operating system answers a save. -/
structure SaveAnswers where
  create : Bool
  writes : List WriteResult
  rename : Bool

variable {W J : Type}

/-- The entries that a save collects. -/
def liveItems (maxStale now : Nat) (items : List (Text × CacheEntry W)) :
    List (Text × CacheEntry W) :=
  items.filter fun item => decide (item.2.freshnessAt now maxStale ≠ .expired)

/-- The buffered writer when `to_writer` has made its writes, or has given up. -/
def writtenOut (writes : List WriteResult) (chunks : List (List Byte)) : Bool × BufWriter Byte :=
  (BufWriter.new 8192 writes).writeChunks chunks

/-- `serde_json::to_writer` on a `BufWriter` by value: whether it succeeds, and what the file holds when
the writer has been dropped. The flush of the drop has no result. -/
def toWriter (writes : List WriteResult) (chunks : List (List Byte)) : Bool × List Byte :=
  ((writtenOut writes chunks).1, (writtenOut writes chunks).2.flushBuf.2.file)

/-- `save_cache_to_disk_sync`; `items` is what the cache yields. -/
def saveCacheToDiskSync (codec : CacheCodec W J) (maxStale now : Nat) (answers : SaveAnswers)
    (items : List (Text × CacheEntry W)) (files : CacheFiles) : CacheFiles :=
  if answers.create = false then files
  else
    let (written, content) := toWriter answers.writes (codec.chunks (liveItems maxStale now items))
    if written = false then { files with temp := some content }
    else if answers.rename = false then { files with temp := some content }
    else { target := some content, temp := none }

/-- One value of the file: it goes into the cache if it parses and has not expired. -/
def loadValue (codec : CacheCodec W J) (maxStale now : Nat) (cache : TextMap (CacheEntry W))
    (item : Text × J) : TextMap (CacheEntry W) :=
  match codec.fromValue item.2 with
  | none => cache
  | some entry =>
      if entry.freshnessAt now maxStale = .expired then cache else cache.insert item.1 entry

/-- `load_cache_from_disk`. -/
def loadCacheFromDisk (codec : CacheCodec W J) (maxStale now : Nat) (files : CacheFiles)
    (cache : TextMap (CacheEntry W)) : TextMap (CacheEntry W) :=
  match files.target with
  | none => cache
  | some content =>
      match codec.fromReader content with
      | none => cache
      | some values => values.foldl (loadValue codec maxStale now) cache

/-- The cache as a table. -/
def cacheTable (items : List (Text × CacheEntry W)) : TextMap (CacheEntry W) := fun key =>
  (items.find? fun item => decide (item.1 = key)).map Prod.snd

/-- `serde_json` reads back the map it wrote, in some order. -/
def RoundTrips (codec : CacheCodec W J) (items : List (Text × CacheEntry W)) : Prop :=
  ∃ values, codec.fromReader (codec.chunks items).flatten = some values ∧
    (values.map fun item => (item.1, codec.fromValue item.2)).Perm
      (items.map fun item => (item.1, some item.2))

/-- The path of the cache holds what it held, or the complete file, from which a later start restores
exactly the entries that have not expired by then. -/
def ReplacedAtomically (codec : CacheCodec W J) (env : ServerEnv W) (now : Nat)
    (items : List (Text × CacheEntry W)) (before after : CacheFiles) : Prop :=
  after.target = before.target ∨
    (after.target = some (codec.chunks (liveItems env.maxStale now items)).flatten ∧
      ∀ later, now ≤ later → loadCacheFromDisk codec env.maxStale later after TextMap.empty =
        unexpired env later (cacheTable items))

/-- Everything succeeds but the flush at the drop of the writer. -/
def LosesTail (answers : SaveAnswers) (chunks : List (List Byte)) : Prop :=
  answers.create = true ∧ (writtenOut answers.writes chunks).1 = true ∧
    (writtenOut answers.writes chunks).2.flushBuf.1 = false ∧ answers.rename = true

/-! ### Loading what was saved -/

section Loading

variable {codec : CacheCodec W J} {maxStale now : Nat} {values : List (Text × J)}
  {items : List (Text × CacheEntry W)} {cache : TextMap (CacheEntry W)} {key : Text}
  {entry : CacheEntry W}

theorem loadValue_of_ne {item : Text × J} (hne : key ≠ item.1) :
    loadValue codec maxStale now cache item key = cache key := by
  unfold loadValue
  cases codec.fromValue item.2 with
  | none => rfl
  | some entry =>
      dsimp only
      split
      · rfl
      · exact TextMap.insert_of_ne _ _ hne

theorem foldl_loadValue_of_notMem (h : key ∉ values.map Prod.fst) :
    values.foldl (loadValue codec maxStale now) cache key = cache key := by
  induction values generalizing cache with
  | nil => rfl
  | cons item rest ih =>
      obtain ⟨hne, hrest⟩ := not_or.mp (mt List.mem_cons.mpr h)
      rw [List.foldl_cons, ih hrest, loadValue_of_ne hne]

/-- With one value for a key, the table holds the value if it parses and has not expired. -/
theorem foldl_loadValue_eq_some (hkeys : (values.map Prod.fst).Nodup) :
    values.foldl (loadValue codec maxStale now) TextMap.empty key = some entry ↔
      (key, some entry) ∈ values.map (fun item => (item.1, codec.fromValue item.2)) ∧
        entry.freshnessAt now maxStale ≠ .expired := by
  suffices hgeneral : ∀ cache : TextMap (CacheEntry W), cache key = none →
      (values.foldl (loadValue codec maxStale now) cache key = some entry ↔
        (key, some entry) ∈ values.map (fun item => (item.1, codec.fromValue item.2)) ∧
          entry.freshnessAt now maxStale ≠ .expired) from hgeneral _ rfl
  induction values with
  | nil =>
      intro cache hcache
      rw [List.foldl_nil, hcache]
      simp
  | cons item rest ih =>
      obtain ⟨hfresh, hrest⟩ := List.nodup_cons.mp hkeys
      intro cache hcache
      rw [List.foldl_cons, List.map_cons, List.mem_cons]
      by_cases hkey : key = item.1
      · subst hkey
        -- The rest has no value for the key.
        have hnone : ∀ own : Option (CacheEntry W),
            (item.1, own) ∉ rest.map fun item => (item.1, codec.fromValue item.2) := by
          intro own hmem
          obtain ⟨other, hother, heq⟩ := List.mem_map.mp hmem
          exact hfresh (List.mem_map.mpr ⟨other, hother, (Prod.mk.inj heq).1⟩)
        rw [foldl_loadValue_of_notMem hfresh, or_iff_left (hnone _), Prod.mk.injEq]
        unfold loadValue
        cases hvalue : codec.fromValue item.2 with
        | none => simp [hcache]
        | some own =>
            by_cases hexpired : own.freshnessAt now maxStale = .expired
            · simp only [hexpired, if_true, hcache, true_and, Option.some.injEq]
              constructor
              · exact fun h => absurd h (Option.some_ne_none _).symm
              · rintro ⟨rfl, hnot⟩
                exact absurd hexpired hnot
            · simp only [hexpired, if_false, TextMap.insert_self, true_and, Option.some.injEq]
              constructor
              · rintro rfl
                exact ⟨rfl, hexpired⟩
              · exact fun h => h.1.symm
      · have hhead : ¬ (key, some entry) = (item.1, codec.fromValue item.2) :=
          fun h => hkey (Prod.mk.inj h).1
        rw [ih hrest _ ((loadValue_of_ne hkey).trans hcache), or_iff_right hhead]

theorem cacheTable_eq_some (hkeys : (items.map Prod.fst).Nodup) :
    cacheTable items key = some entry ↔ (key, entry) ∈ items := by
  unfold cacheTable
  constructor
  · intro h
    obtain ⟨item, hfind, rfl⟩ := Option.map_eq_some_iff.mp h
    have hkey := List.find?_some hfind
    obtain rfl : item.1 = key := of_decide_eq_true hkey
    exact List.mem_of_find?_eq_some hfind
  · intro hmem
    cases hfind : items.find? fun item => decide (item.1 = key) with
    | none => exact absurd (decide_eq_true rfl) (List.find?_eq_none.mp hfind _ hmem)
    | some item =>
        have hkey := List.find?_some hfind
        have hsame := List.inj_on_of_nodup_map hkeys (List.mem_of_find?_eq_some hfind) hmem
          (of_decide_eq_true hkey)
        rw [hsame]
        rfl

theorem unexpired_eq_some_iff {env : ServerEnv W} {entries : TextMap (CacheEntry W)} :
    unexpired env now entries key = some entry ↔
      entries key = some entry ∧ entry.freshnessAt now env.maxStale ≠ .expired := by
  unfold unexpired
  cases entries key with
  | none => simp
  | some own =>
      dsimp only
      split
      · next hlive =>
          rw [Option.some.injEq]
          exact ⟨fun h => ⟨h, h ▸ hlive⟩, fun h => h.1⟩
      · next hexpired =>
          rw [Option.some.injEq]
          exact ⟨fun h => absurd h (Option.some_ne_none _).symm, fun h => absurd (h.1 ▸ h.2) hexpired⟩

/-- An entry that has expired does not come back. -/
theorem CacheEntry.live_of_later {later : Nat} (hlater : now ≤ later)
    (h : entry.freshnessAt later maxStale ≠ .expired) : entry.freshnessAt now maxStale ≠ .expired := by
  unfold CacheEntry.freshnessAt at h ⊢
  dsimp only at h ⊢
  split at h
  · rw [if_pos (by omega)]
    exact CacheFreshness.noConfusion
  · split at h
    · split
      · exact CacheFreshness.noConfusion
      · rw [if_pos (by omega)]
        exact CacheFreshness.noConfusion
    · exact absurd rfl h

theorem nodup_liveItems (hkeys : (items.map Prod.fst).Nodup) :
    ((liveItems maxStale now items).map Prod.fst).Nodup :=
  hkeys.sublist (List.filter_sublist.map _)

theorem mem_liveItems_iff {later : Nat} (hlater : now ≤ later)
    (hlive : entry.freshnessAt later maxStale ≠ .expired) :
    (key, entry) ∈ liveItems maxStale now items ↔ (key, entry) ∈ items := by
  constructor
  · exact fun hmem => (List.mem_filter.mp hmem).1
  · exact fun hmem =>
      List.mem_filter.mpr ⟨hmem, decide_eq_true (CacheEntry.live_of_later hlater hlive)⟩

end Loading

/-! ### One save -/

section Save

variable {codec : CacheCodec W J} {env : ServerEnv W} {now : Nat} {answers : SaveAnswers}
  {items : List (Text × CacheEntry W)} {files : CacheFiles} {chunks : List (List Byte)}

/-- What has been accepted is in the file when the writer is dropped, but for a lost tail. -/
theorem toWriter_content (h : (toWriter answers.writes chunks).1 = true) :
    ((writtenOut answers.writes chunks).2.flushBuf.1 = true ∧
      (toWriter answers.writes chunks).2 = chunks.flatten) ∨
    ((writtenOut answers.writes chunks).2.flushBuf.1 = false ∧
      ∃ lost, lost ≠ [] ∧ chunks.flatten = (toWriter answers.writes chunks).2 ++ lost) := by
  have htaken : (writtenOut answers.writes chunks).2.taken = chunks.flatten :=
    BufWriter.writeChunks_taken h
  rcases (writtenOut answers.writes chunks).2.flushBuf_file with
    ⟨hflush, hfile⟩ | ⟨hflush, lost, hlost, heq⟩
  · exact Or.inl ⟨hflush, hfile.trans htaken⟩
  · exact Or.inr ⟨hflush, lost, hlost, htaken.symm.trans heq⟩

/-- A later start restores what a complete file holds. -/
theorem load_complete (hkeys : (items.map Prod.fst).Nodup)
    (hserde : RoundTrips codec (liveItems env.maxStale now items)) {after : CacheFiles}
    (htarget : after.target = some (codec.chunks (liveItems env.maxStale now items)).flatten)
    {later : Nat} (hlater : now ≤ later) :
    loadCacheFromDisk codec env.maxStale later after TextMap.empty =
      unexpired env later (cacheTable items) := by
  obtain ⟨values, hread, hperm⟩ := hserde
  have hload : loadCacheFromDisk codec env.maxStale later after TextMap.empty =
      values.foldl (loadValue codec env.maxStale later) TextMap.empty := by
    rw [loadCacheFromDisk, htarget]
    simp only [hread]
  have hvalueKeys : (values.map Prod.fst).Nodup := by
    have hkeysPerm := hperm.map Prod.fst
    rw [List.map_map, List.map_map] at hkeysPerm
    exact hkeysPerm.nodup_iff.mpr (nodup_liveItems hkeys)
  funext key
  rw [hload]
  apply Option.ext
  intro entry
  rw [foldl_loadValue_eq_some hvalueKeys, hperm.mem_iff, unexpired_eq_some_iff,
    cacheTable_eq_some hkeys]
  refine and_congr_left fun hlive => ?_
  rw [← mem_liveItems_iff hlater hlive]
  constructor
  · intro hmem
    obtain ⟨item, hitem, heq⟩ := List.mem_map.mp hmem
    obtain ⟨rfl, hentry⟩ := Prod.mk.inj heq
    rw [← Option.some.inj hentry]
    exact hitem
  · exact fun hmem => List.mem_map.mpr ⟨(key, entry), hmem, rfl⟩

/-- The file is swapped in when nothing is known to have failed. -/
theorem saveCacheToDiskSync_target (codec : CacheCodec W J) (maxStale now : Nat) (answers : SaveAnswers)
    (items : List (Text × CacheEntry W)) (files : CacheFiles) :
    (saveCacheToDiskSync codec maxStale now answers items files).target =
      if answers.create = true ∧ answers.rename = true ∧
          (toWriter answers.writes (codec.chunks (liveItems maxStale now items))).1 = true then
        some (toWriter answers.writes (codec.chunks (liveItems maxStale now items))).2
      else files.target := by
  unfold saveCacheToDiskSync
  generalize toWriter answers.writes (codec.chunks (liveItems maxStale now items)) = result
  obtain ⟨written, content⟩ := result
  obtain ⟨create, writes, rename⟩ := answers
  cases create <;> cases written <;> cases rename <;> rfl

/-- **When a save replaces the file atomically.** Whatever the answers to its writes: the path holds the
old content or the complete new one just when the save does not lose its tail, or what it wrote happens to
be the old content. -/
theorem replaced_atomically_iff (codec : CacheCodec W J) (env : ServerEnv W) (now : Nat)
    (answers : SaveAnswers) (items : List (Text × CacheEntry W)) (files : CacheFiles)
    (hkeys : (items.map Prod.fst).Nodup)
    (hserde : RoundTrips codec (liveItems env.maxStale now items)) :
    ReplacedAtomically codec env now items files
        (saveCacheToDiskSync codec env.maxStale now answers items files) ↔
      (LosesTail answers (codec.chunks (liveItems env.maxStale now items)) →
        files.target =
          some (toWriter answers.writes (codec.chunks (liveItems env.maxStale now items))).2) := by
  have htarget := saveCacheToDiskSync_target codec env.maxStale now answers items files
  unfold ReplacedAtomically
  by_cases hswapped : answers.create = true ∧ answers.rename = true ∧
      (toWriter answers.writes (codec.chunks (liveItems env.maxStale now items))).1 = true
  · rw [if_pos hswapped] at htarget
    obtain ⟨hcreate, hrename, hwritten⟩ := hswapped
    rcases toWriter_content hwritten with ⟨hflush, hall⟩ | ⟨hflush, lost, hlost, hpart⟩
    · rw [hall] at htarget
      constructor
      · rintro - ⟨-, -, hlosesTail, -⟩
        rw [hflush] at hlosesTail
        exact absurd hlosesTail.symm Bool.false_ne_true
      · exact fun _ => Or.inr ⟨htarget, fun later hlater => load_complete hkeys hserde htarget hlater⟩
    · rw [htarget]
      constructor
      · rintro (hsame | ⟨hcomplete, -⟩) -
        · exact hsame.symm
        · -- A proper prefix is not the whole.
          have hequal := Option.some.inj hcomplete
          rw [hpart] at hequal
          exact absurd (List.self_eq_append_right.mp hequal) hlost
      · exact fun h => Or.inl (h ⟨hcreate, hwritten, hflush, hrename⟩).symm
  · rw [if_neg hswapped] at htarget
    constructor
    · rintro - ⟨hcreate, hwritten, -, hrename⟩
      exact absurd ⟨hcreate, hrename, hwritten⟩ hswapped
    · exact fun _ => Or.inl htarget

/-- How a save leaves the file, in the terms of the server's machine. -/
def saveOutcome (answers : SaveAnswers) (chunks : List (List Byte)) : SaveOutcome :=
  if answers.create = true ∧ answers.rename = true ∧ (toWriter answers.writes chunks).1 = true then
    if (writtenOut answers.writes chunks).2.flushBuf.1 then .swapped else .truncated
  else .kept

/-- What expires later does not matter to the entries a save collects. -/
theorem unexpired_liveItems (hkeys : (items.map Prod.fst).Nodup) {later : Nat} (hlater : now ≤ later) :
    unexpired env later (cacheTable (liveItems env.maxStale now items)) =
      unexpired env later (cacheTable items) := by
  funext key
  apply Option.ext
  intro entry
  rw [unexpired_eq_some_iff, unexpired_eq_some_iff, cacheTable_eq_some (nodup_liveItems hkeys),
    cacheTable_eq_some hkeys]
  exact and_congr_left fun hlive => mem_liveItems_iff hlater hlive

/-- If no proper prefix of the JSON text parses, the file after a save holds what the server's machine has
on its disk after the end of the save. -/
theorem save_simulates (hkeys : (items.map Prod.fst).Nodup)
    (hserde : RoundTrips codec (liveItems env.maxStale now items))
    (hcut : ∀ content lost, lost ≠ [] →
      (codec.chunks (liveItems env.maxStale now items)).flatten = content ++ lost →
        codec.fromReader content = none)
    {s : ServerState W} {started : Nat}
    (hsaving : s.saving = some (started, cacheTable (liveItems env.maxStale now items)))
    (hdisk : ∀ later, now ≤ later →
      loadCacheFromDisk codec env.maxStale later files TextMap.empty = unexpired env later s.disk)
    {later : Nat} (hlater : now ≤ later) :
    loadCacheFromDisk codec env.maxStale later
        (saveCacheToDiskSync codec env.maxStale now answers items files) TextMap.empty =
      unexpired env later (saveEnd (saveOutcome answers
        (codec.chunks (liveItems env.maxStale now items))) s).disk := by
  have htarget := saveCacheToDiskSync_target codec env.maxStale now answers items files
  rw [saveEnd, hsaving, saveOutcome]
  by_cases hswapped : answers.create = true ∧ answers.rename = true ∧
      (toWriter answers.writes (codec.chunks (liveItems env.maxStale now items))).1 = true
  · rw [if_pos hswapped] at htarget ⊢
    rcases toWriter_content hswapped.2.2 with ⟨hflush, hall⟩ | ⟨hflush, lost, hlost, hpart⟩
    · rw [hall] at htarget
      rw [if_pos hflush, load_complete hkeys hserde htarget hlater]
      exact (unexpired_liveItems hkeys hlater).symm
    · rw [if_neg (by rw [hflush]; exact Bool.false_ne_true), loadCacheFromDisk, htarget]
      simp only [hcut _ lost hlost hpart]
      rfl
  · rw [if_neg hswapped] at htarget ⊢
    rw [loadCacheFromDisk, htarget]
    exact hdisk later hlater

end Save

/-! ### A cache of one entry -/

def sampleEntry : CacheEntry Message where
  rawWire := .new
  minTtl := 60
  cachedAt := 1
  lastRevalidatedAt := 1
  dnssecStatus := .secure
  origin := addressQuery .IN

def sampleItems : List (Text × CacheEntry Message) := [(asciiText "a.:A:IN", sampleEntry)]

/-- The JSON text of the cache. -/
def sampleJson : List Byte :=
  asciiText "\x7b\"a.:A:IN\":\x7b\"raw_wire\":\"AAAAAAAAAAAAAAAA\",\"min_ttl\":60,\"cached_at\":1," ++
    asciiText "\"last_revalidated_at\":1,\"dnssec_status\":\"Secure\"\x7d\x7d"

/-- `serde_json` on this cache and on the empty one. -/
def sampleCodec : CacheCodec Message Unit where
  chunks items := if items.isEmpty then [asciiText "\x7b", asciiText "\x7d"] else [sampleJson]
  fromReader content :=
    if content = sampleJson then some [(asciiText "a.:A:IN", ())]
    else if content = asciiText "\x7b\x7d" then some []
    else none
  fromValue _ := some sampleEntry

theorem sampleCodec_roundTrips : RoundTrips sampleCodec (liveItems 300 10 sampleItems) := by
  refine ⟨[(asciiText "a.:A:IN", ())], ?_, List.Perm.refl _⟩
  decide

/-- Without failures the file is replaced. -/
theorem replaced_atomically_iff_swapped :
    ReplacedAtomically sampleCodec sampleServer 10 sampleItems ⟨some [], none⟩
      (saveCacheToDiskSync sampleCodec 300 10 ⟨true, [], true⟩ sampleItems ⟨some [], none⟩) := by
  refine (replaced_atomically_iff sampleCodec sampleServer 10 ⟨true, [], true⟩ sampleItems
    ⟨some [], none⟩ (by decide) sampleCodec_roundTrips).mpr fun hlost => ?_
  have hflush : (writtenOut [] (sampleCodec.chunks (liveItems 300 10 sampleItems))).2.flushBuf.1 = true := by
    decide +kernel
  exact absurd (hflush.symm.trans hlost.2.2.1).symm Bool.false_ne_true

/-- The disk is full at the only flush, the one at the drop of the writer. The save swaps an empty file
in, and the next start restores nothing, though the entry has not expired. -/
theorem tail_lost :
    (saveCacheToDiskSync sampleCodec 300 10 ⟨true, [.failed], true⟩ sampleItems
        ⟨some sampleJson, none⟩).target = some [] ∧
      loadCacheFromDisk sampleCodec 300 10 (saveCacheToDiskSync sampleCodec 300 10
        ⟨true, [.failed], true⟩ sampleItems ⟨some sampleJson, none⟩) TextMap.empty = TextMap.empty ∧
      unexpired sampleServer 10 (cacheTable sampleItems) (asciiText "a.:A:IN") = some sampleEntry ∧
      ¬ ReplacedAtomically sampleCodec sampleServer 10 sampleItems ⟨some sampleJson, none⟩
        (saveCacheToDiskSync sampleCodec 300 10 ⟨true, [.failed], true⟩ sampleItems
          ⟨some sampleJson, none⟩) := by
  have htarget : (saveCacheToDiskSync sampleCodec 300 10 ⟨true, [.failed], true⟩ sampleItems
      ⟨some sampleJson, none⟩).target = some [] := by decide +kernel
  have hnone : sampleCodec.fromReader [] = none := by decide
  refine ⟨htarget, ?_, ?_, ?_⟩
  · simp only [loadCacheFromDisk, htarget, hnone]
  · rfl
  · rintro (hsame | ⟨hcomplete, -⟩)
    · rw [htarget] at hsame
      exact absurd hsame (by decide)
    · rw [htarget] at hcomplete
      exact absurd hcomplete (by decide)

end Engine
end UnifiedDns
