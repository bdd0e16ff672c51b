import UnifiedDns.Lib.TextLines

/-!
# The list of popular domains

The names for pre-warming come from a file, or are downloaded and written to that file.  Files and downloads are
texts here: a line that is not UTF-8 ends the reading, so that the text is what stands before it.

* `listedDomain`, `readDomains` — the domain of a line, and those of the first lines.
* `loadFromFile`, `downloadAndExtract` — the two readers; only one of them knows comments.
* `getOrDownloadTranco`, `startsRun` — one start, and one start after the other.
* `PlainDomain` — a domain that both readers read as itself.
* `saved_list_served_iff` — when a list that has been saved serves the later starts.
-/

namespace UnifiedDns
namespace Engine

/-- `EMBEDDED_FALLBACK`. -/
def embeddedFallback : List (List Char) :=
  ["google.com", "youtube.com", "facebook.com", "wikipedia.org", "amazon.com", "reddit.com", "netflix.com",
    "bing.com", "microsoft.com", "apple.com", "github.com", "cloudflare.com", "archlinux.org", "ubuntu.com",
    "example.com"].map String.toList

/-! ### Reading -/

/-- What stands behind the rank, or the whole line. -/
def lineDomain (trimmed : List Char) : List Char :=
  match splitOnce ',' trimmed with
  | some (_, d) => trimText d
  | none => trimmed

/-- The domain of a line that is not skipped. -/
def listedDomain (skipped : List Char → Bool) (line : List Char) : Option (List Char) :=
  let trimmed := trimText line
  if skipped trimmed then none
  else
    let domain := lineDomain trimmed
    if domain.isEmpty then none else some domain

/-- The loop of both readers: it ends when there are `limit` domains. -/
def readDomains (skipped : List Char → Bool) (limit : Nat) :
    List (List Char) → List (List Char) → List (List Char)
  | domains, [] => domains
  | domains, line :: rest =>
      match listedDomain skipped line with
      | none => readDomains skipped limit domains rest
      | some domain =>
          let domains := domains ++ [domain]
          if limit ≤ domains.length then domains else readDomains skipped limit domains rest

/-- The file may hold comments. -/
def skippedInFile (trimmed : List Char) : Bool := trimmed.isEmpty || decide (trimmed.head? = some '#')

/-- `load_from_file`. -/
def loadFromFile (limit : Nat) (text : List Char) : List (List Char) :=
  readDomains skippedInFile limit [] (splitLines text)

/-- What `download_and_extract` makes of the text in the archive; an empty archive is an empty text. -/
def downloadAndExtract (limit : Nat) (text : List Char) : List (List Char) :=
  readDomains List.isEmpty limit [] (splitLines text)

/-! ### Starts -/

/-- A start of the program. -/
structure WarmStart where
  limit : Nat
  /-- The text that is downloaded, unless the download fails. -/
  download : Option (List Char)
  /-- The file can be created. -/
  created : Bool

/-- `get_or_download_tranco`: the domains, and the file afterwards. -/
def getOrDownloadTranco (start : WarmStart) (file : Option (List Char)) :
    List (List Char) × Option (List Char) :=
  let missing : List (List Char) × Option (List Char) :=
    match start.download with
    | some text =>
        let domains := downloadAndExtract start.limit text
        (domains, if start.created then some (writeLines domains) else file)
    | none => (embeddedFallback.take start.limit, file)
  if start.limit = 0 then ([], file)
  else
    match file with
    | some text =>
        let domains := loadFromFile start.limit text
        if start.limit ≤ domains.length then (domains, file) else missing
    | none => missing

/-- One start after the other: the domains of each, and the file afterwards. -/
def startsRun : List WarmStart → Option (List Char) → List (List (List Char)) × Option (List Char)
  | [], file => ([], file)
  | start :: rest, file =>
      let (domains, file) := getOrDownloadTranco start file
      let (later, file) := startsRun rest file
      (domains :: later, file)

/-! ### What is read -/

section Reading

variable {skipped : List Char → Bool} {limit : Nat}

theorem readDomains_eq {domains lines : List (List Char)} (h : domains.length < limit) :
    readDomains skipped limit domains lines =
      domains ++ (lines.filterMap (listedDomain skipped)).take (limit - domains.length) := by
  induction lines generalizing domains with
  | nil => rw [readDomains, List.filterMap_nil, List.take_nil, List.append_nil]
  | cons line rest ih =>
      unfold readDomains
      cases hline : listedDomain skipped line with
      | none => rw [List.filterMap_cons_none hline, ← ih h]
      | some domain =>
          have hlength : (domains ++ [domain]).length = domains.length + 1 := by
            rw [List.length_append, List.length_singleton]
          have hroom : limit - domains.length = limit - (domains.length + 1) + 1 := by omega
          simp only
          rw [List.filterMap_cons_some hline, hroom, List.take_succ_cons]
          split
          · rename_i hfull
            rw [hlength] at hfull
            rw [Nat.sub_eq_zero_of_le hfull, List.take_zero]
          · rename_i hmore
            rw [ih (Nat.not_le.mp hmore), hlength, List.append_assoc]
            rfl

/-- The first domains of the text. -/
theorem readDomains_nil (h : 0 < limit) (lines : List (List Char)) :
    readDomains skipped limit [] lines = (lines.filterMap (listedDomain skipped)).take limit :=
  (readDomains_eq h).trans (List.nil_append _)

/-- A domain that is read is not empty, is trimmed, and stands on one line. -/
theorem listedDomain_spec {line domain : List Char} (h : listedDomain skipped line = some domain)
    (hline : '\n' ∉ line) : domain ≠ [] ∧ trimText domain = domain ∧ '\n' ∉ domain := by
  unfold listedDomain at h
  simp only at h
  split at h
  · cases h
  · split at h
    · cases h
    · rename_i hnonempty
      cases h
      refine ⟨fun hnil => hnonempty (by rw [hnil]; rfl), ?_⟩
      have htrimmed : '\n' ∉ trimText line := fun hmem => hline ((trimText_within line).subset hmem)
      unfold lineDomain
      split
      · rename_i before after hsplit
        refine ⟨trimText_trimText after, fun hmem => htrimmed ?_⟩
        rw [splitOnce_eq_some hsplit]
        exact List.mem_append_right _ (List.mem_cons_of_mem _ ((trimText_within after).subset hmem))
      · exact ⟨trimText_trimText line, htrimmed⟩

end Reading

/-- A domain that both readers read as itself. -/
def PlainDomain (domain : List Char) : Prop := ',' ∉ domain ∧ domain.head? ≠ some '#'

instance (domain : List Char) : Decidable (PlainDomain domain) := by
  unfold PlainDomain
  infer_instance

/-- The reader of the file reads the plain domains as they are, and no others. -/
theorem listedDomain_self_iff {domain : List Char} (hne : domain ≠ []) (htrim : trimText domain = domain) :
    listedDomain skippedInFile domain = some domain ↔ PlainDomain domain := by
  have hempty : domain.isEmpty = false := List.isEmpty_eq_false_iff.mpr hne
  simp only [listedDomain, htrim, skippedInFile, hempty, Bool.false_or, decide_eq_true_eq]
  by_cases hcomment : domain.head? = some '#'
  · simp [hcomment, PlainDomain]
  · rw [if_neg hcomment]
    unfold lineDomain
    cases hsplit : splitOnce ',' domain with
    | none => simp [hempty, PlainDomain, hcomment, splitOnce_eq_none_iff.mp hsplit]
    | some parts =>
        obtain ⟨before, after⟩ := parts
        have hdomain := splitOnce_eq_some hsplit
        -- What stands behind the comma is shorter than the line.
        have hshorter : trimText after ≠ domain := by
          intro hsame
          have hle := (trimText_within after).length_le
          rw [hsame, hdomain, List.length_append, List.length_cons] at hle
          omega
        have hcomma : ',' ∈ domain := by
          rw [hdomain]
          exact List.mem_append_right _ List.mem_cons_self
        refine iff_of_false ?_ fun hplain => hplain.1 hcomma
        simp only
        split
        · exact nofun
        · exact fun h => hshorter (Option.some.inj h)

/-! ### A list that has been saved -/

theorem filterMap_eq_self_iff {α : Type} {f : α → Option α} {l : List α} :
    l.filterMap f = l ↔ ∀ x ∈ l, f x = some x := by
  induction l with
  | nil => simp
  | cons x rest ih =>
      rw [List.forall_mem_cons, ← ih]
      cases hx : f x with
      | none =>
          rw [List.filterMap_cons_none hx]
          refine iff_of_false (fun h => ?_) (fun h => nomatch h.1)
          have hlength := List.length_filterMap_le f rest
          rw [h, List.length_cons] at hlength
          omega
      | some y => rw [List.filterMap_cons_some hx, List.cons.injEq, Option.some.injEq]

section Saved

variable {limit : Nat} {text : List Char}

theorem downloadAndExtract_spec (hlimit : 0 < limit) :
    ∀ domain ∈ downloadAndExtract limit text,
      domain ≠ [] ∧ trimText domain = domain ∧ '\n' ∉ domain := by
  intro domain hdomain
  rw [downloadAndExtract, readDomains_nil hlimit] at hdomain
  obtain ⟨line, hline, hlisted⟩ := List.mem_filterMap.mp (List.mem_of_mem_take hdomain)
  exact listedDomain_spec hlisted (newline_not_mem_splitLines hline)

/-- What a later start reads from the file. -/
theorem loadFromFile_saved (hlimit : 0 < limit) {later : Nat} (hlater : 0 < later) :
    loadFromFile later (writeLines (downloadAndExtract limit text)) =
      ((downloadAndExtract limit text).filterMap (listedDomain skippedInFile)).take later := by
  rw [loadFromFile, readDomains_nil hlater, splitLines_writeLines fun line hline => ?_]
  obtain ⟨-, htrim, hnewline⟩ := downloadAndExtract_spec hlimit line hline
  refine ⟨hnewline, fun hreturn => ?_⟩
  rw [← htrim] at hreturn
  exact absurd (getLast?_trimText hreturn) (by decide)

/-- A plain list is served by the file alone. -/
theorem getOrDownloadTranco_saved (hlimit : 0 < limit)
    (hplain : ∀ domain ∈ downloadAndExtract limit text, PlainDomain domain) (start : WarmStart)
    (hstart : start.limit ≤ (downloadAndExtract limit text).length) :
    getOrDownloadTranco start (some (writeLines (downloadAndExtract limit text))) =
      ((downloadAndExtract limit text).take start.limit,
        some (writeLines (downloadAndExtract limit text))) := by
  unfold getOrDownloadTranco
  by_cases hzero : start.limit = 0
  · rw [if_pos hzero, hzero, List.take_zero]
  · have hread : loadFromFile start.limit (writeLines (downloadAndExtract limit text)) =
        (downloadAndExtract limit text).take start.limit := by
      rw [loadFromFile_saved hlimit (Nat.pos_of_ne_zero hzero), filterMap_eq_self_iff.mpr]
      intro domain hdomain
      obtain ⟨hne, htrim, -⟩ := downloadAndExtract_spec hlimit domain hdomain
      exact (listedDomain_self_iff hne htrim).mpr (hplain domain hdomain)
    have henough : start.limit ≤ ((downloadAndExtract limit text).take start.limit).length := by
      rw [List.length_take_of_le hstart]
    simp only [if_neg hzero, hread, if_pos henough]

/-- **When a saved list serves.**  A list that has been downloaded and written to the file serves every sequence
of later starts that ask for no more domains than it has, each with its first domains, without another download
and whatever the network does, if and only if no domain of it has a comma or begins with a number sign. -/
theorem saved_list_served_iff (hlimit : 0 < limit) :
    (∀ starts : List WarmStart, (∀ start ∈ starts, start.limit ≤ (downloadAndExtract limit text).length) →
        startsRun starts (some (writeLines (downloadAndExtract limit text))) =
          (starts.map fun start => (downloadAndExtract limit text).take start.limit,
            some (writeLines (downloadAndExtract limit text)))) ↔
      ∀ domain ∈ downloadAndExtract limit text, PlainDomain domain := by
  constructor
  · intro hserved domain hdomain
    have hpos : 0 < (downloadAndExtract limit text).length := List.length_pos_of_mem hdomain
    -- A start without network that asks for the whole list.
    have hone := hserved [⟨(downloadAndExtract limit text).length, none, false⟩] (by simp)
    simp only [startsRun, List.map_cons, List.map_nil, List.take_length, Prod.mk.injEq, List.cons.injEq,
      and_true, getOrDownloadTranco, if_neg (Nat.ne_of_gt hpos)] at hone
    split at hone
    · rename_i henough
      have hread := hone.1
      simp only [loadFromFile_saved hlimit hpos] at hread henough
      have hall : (downloadAndExtract limit text).filterMap (listedDomain skippedInFile) =
          downloadAndExtract limit text := by
        rwa [List.take_of_length_le (List.length_filterMap_le _ _)] at hread
      obtain ⟨hne, htrim, -⟩ := downloadAndExtract_spec hlimit domain hdomain
      exact (listedDomain_self_iff hne htrim).mp (filterMap_eq_self_iff.mp hall domain hdomain)
    · -- The file is not enough, so the answer is the built-in list.
      have hfallback : ∀ d ∈ embeddedFallback, ',' ∉ d ∧ d.head? ≠ some '#' := by decide
      rw [← hone.1] at hdomain
      exact hfallback domain (List.mem_of_mem_take hdomain)
  · intro hplain starts hstarts
    induction starts with
    | nil => rfl
    | cons start rest ih =>
        obtain ⟨hstart, hrest⟩ := List.forall_mem_cons.mp hstarts
        have hlater := ih hrest
        simp only [startsRun, getOrDownloadTranco_saved hlimit hplain start hstart, hlater, List.map_cons]

end Saved

/-- Two ranked domains and an empty line. -/
def rankedText : List Char := "1,example.com\r\n\n2, example.org \n".toList

/-- The ranks and the blanks go, and two starts are served. -/
theorem saved_list_served_iff_ranked :
    downloadAndExtract 5 rankedText = ["example.com".toList, "example.org".toList] ∧
      startsRun [⟨2, none, true⟩, ⟨1, some [], true⟩] (some "example.com\nexample.org\n".toList) =
        ([["example.com".toList, "example.org".toList], ["example.com".toList]],
          some "example.com\nexample.org\n".toList) := by
  have hlist : downloadAndExtract 5 rankedText = ["example.com".toList, "example.org".toList] := by
    decide +kernel
  refine ⟨hlist, ?_⟩
  have hserved := (@saved_list_served_iff 5 rankedText (by decide)).mpr (by
    rw [hlist]
    decide)
  rw [hlist] at hserved
  exact hserved [⟨2, none, true⟩, ⟨1, some [], true⟩] (by decide)

end Engine
end UnifiedDns
