import UnifiedDns.Zone.NsecComplete
import UnifiedDns.Zone.Nsec3Denial

/-!
# When an NSEC3 denial is complete

The records a zone with an NSEC3 chain sends when it has no answer (RFC 5155, section 7.2), and which
of these proofs `validate_nsec3` accepts.

* `Nsec3Sent`, `Nsec3Proof` — the names whose records a server sends, and a list of exactly these.
* `Plural` — the chain has more than one record.  The record of a chain of one links to itself, and
  the code takes its gap for empty.
* `Nsec3Proof.closest_found` — the code finds the true closest encloser when it looks far enough.
* `validateNsec3_complete_iff` — a conforming proof is accepted exactly when it is `Nsec3Accepted`.
-/

namespace UnifiedDns
namespace Zone

open Dnssec

/-- The signed zone answers: it owns the type, a CNAME, or signatures. -/
def SignedAnswers3 (Z : Zone) (p : Path) (t : RecordType) : Prop :=
  Z.Answers p t ∨ (t = .RRSIG ∧ Z.OwnsSigned p)

/-- A zone with an NSEC3 chain has no answer for the name and type. -/
abbrev Denied3 (Z : Zone) (q : Path) (t : RecordType) : Prop :=
  Z.DeniedBy (fun p => Z.SignedAnswers3 p t) q

/-- The record of `o` covers the hash of `p`. -/
def Nsec3Covers (Z : Zone) (N : Nsec3Params) (o p : Path) : Prop :=
  Z.Exists o ∧ ∃ next, CyclicChain.CyclicNext {h | ∃ p, Z.Exists p ∧ h = N.hash p} (N.hash o) next ∧
    CyclicChain.InGap (N.hash o) next (N.hash p)

/-- The next closer name of `q` under `c`. -/
def nextCloserPath (q c : Path) : Path := q.take (c.length + 1)

/-- The record of `o` is one that a server sends with a denial of `q`: the record of the name itself;
or the closest encloser proof with the record of the wildcard or the one that covers it. -/
inductive Nsec3Sent (Z : Zone) (N : Nsec3Params) (q : Path) : Path → Prop
  | own (hq : Z.Exists q) : Nsec3Sent Z N q q
  | closest {c : Path} (hq : ¬ Z.Exists q) (hc : Z.ClosestEncloser q c) : Nsec3Sent Z N q c
  | nextCloser {o c : Path} (hq : ¬ Z.Exists q) (hc : Z.ClosestEncloser q c)
      (hcovers : Z.Nsec3Covers N o (nextCloserPath q c)) : Nsec3Sent Z N q o
  | wildcard {c : Path} (hq : ¬ Z.Exists q) (hc : Z.ClosestEncloser q c)
      (hstar : Z.Exists (c ++ [star])) : Nsec3Sent Z N q (c ++ [star])
  | wildcardCover {o c : Path} (hq : ¬ Z.Exists q) (hc : Z.ClosestEncloser q c)
      (hstar : ¬ Z.Exists (c ++ [star])) (hcovers : Z.Nsec3Covers N o (c ++ [star])) :
      Nsec3Sent Z N q o

/-- The list holds exactly the records a server sends with a denial of `q`. -/
structure Nsec3Proof (Z : Zone) (N : Nsec3Params) (q : Path) (records : List Record) : Prop where
  genuine : ∀ rec ∈ records, Z.Nsec3RecordOf N rec
  exactly : ∀ o, (∃ rec ∈ records, Z.Nsec3RecordAt N o rec) ↔ Z.Nsec3Sent N q o

/-- The chain has more than one record. -/
def Plural (Z : Zone) : Prop := ∃ p, Z.Exists p ∧ p ≠ Z.apex

/-- One of the records sent covers the hash of `p`. -/
def CoveredBySent (Z : Zone) (N : Nsec3Params) (q p : Path) : Prop :=
  ∃ o, Z.Nsec3Sent N q o ∧ Z.Nsec3Covers N o p

/-- The records sent pass for a denial below `e`, with the name that the code reads for the wildcard there:
its record is sent without the type; or, in a chain of more than one record, one covers the next closer name
and one covers that wildcard or is its record. -/
def AbsenceSent (Z : Zone) (N : Nsec3Params) (q : Name) (t : RecordType) (e : Path) : Prop :=
  let wildcard := (wildcardName N.platform (q.trimTo e.length)).path
  (Z.Nsec3Sent N q.path wildcard ∧ Z.BitmapLacks3 wildcard t) ∨
    (Z.Plural ∧ Z.CoveredBySent N q.path (nextCloserPath q.path e) ∧
      (Z.Nsec3Sent N q.path wildcard ∨ Z.CoveredBySent N q.path wildcard))

/-- The conforming proofs that are accepted.  For an existing name: all, unless a DS is asked for
where an SOA is.  For a missing one: those that pass for a denial below the closest encloser, if it is
at most fifteen labels up, and for a DS question deeper down those that pass for one below the parent. -/
def Nsec3Accepted (Z : Zone) (N : Nsec3Params) (q : Name) (t : RecordType) : Prop :=
  (Z.Exists q.path ∧ ¬ (t = .DS ∧ RecordType.SOA ∈ Z.types q.path)) ∨
    (¬ Z.Exists q.path ∧ ∃ c, Z.ClosestEncloser q.path c ∧
      if q.path.length < c.length + maxClosestEncloserSteps then Z.AbsenceSent N q t c
      else t = .DS ∧ Z.AbsenceSent N q t q.path.dropLast)

variable {Z : Zone} {N : Nsec3Params} {q : Name} {t : RecordType} {records : List Record}

/-- Only existing names have records to send. -/
theorem Nsec3Sent.exist {p o : Path} (h : Z.Nsec3Sent N p o) : Z.Exists o := by
  cases h with
  | own hq => exact hq
  | closest _ hc => exact hc.exist
  | nextCloser _ _ hcovers => exact hcovers.1
  | wildcard _ _ hstar => exact hstar
  | wildcardCover _ _ _ hcovers => exact hcovers.1

/-- What the code can be shown is what the zone lacks. -/
theorem bitmapLacks3_iff {p : Path} : Z.BitmapLacks3 p t ↔ ¬ Z.SignedAnswers3 p t := by
  simp [BitmapLacks3, SignedAnswers3]

theorem exists_apex (Z : Zone) : Z.Exists Z.apex := exists_of_mem_owners Z.apex_mem_owners

/-- Two existing names with one hash are the same. -/
theorem eq_of_hash_eq {p p' : Path} (hfree : Z.CollisionFree N q) (hp : Z.Exists p)
    (hp' : Z.Exists p') (heq : N.hash p = N.hash p') : p = p' :=
  hfree p p' (Or.inl hp) (Or.inl hp') heq

/-- A record links to another hash than its own exactly when the chain has more than one record. -/
theorem Nsec3RecordAt.next_ne_iff {p : Path} {rec : Record} {n : NSEC3}
    (hfree : Z.CollisionFree N q) (h : Z.Nsec3RecordAt N p rec) (hn : rec.nsec3? = some n) :
    N.hash p ≠ n.nextHashedOwnerName ↔ Z.Plural := by
  obtain ⟨hp, -, n', hn', hnext, -⟩ := h
  rw [hn] at hn'
  cases hn'
  constructor
  · intro hne
    by_contra hsingle
    have hall : ∀ p', Z.Exists p' → p' = Z.apex := by
      intro p' hp'
      by_contra hother
      exact hsingle ⟨p', hp', hother⟩
    obtain ⟨-, ⟨p', hp', heq⟩, -⟩ := hnext
    rw [hall p hp, heq, hall p' hp'] at hne
    exact hne rfl
  · rintro ⟨p', hp', hother⟩ hself
    rw [← hself] at hnext
    obtain ⟨-, -, ⟨hlt, -⟩ | ⟨-, hbounds⟩⟩ := hnext
    · exact lt_irrefl _ hlt
    · -- The link to itself leaves one hash, so one name.
      have hone : ∀ p', Z.Exists p' → p' = p := by
        intro p' hp'
        obtain ⟨hlow, hhigh⟩ := hbounds _ ⟨p', hp', rfl⟩
        exact eq_of_hash_eq hfree hp' hp (le_antisymm hhigh hlow)
      exact hother ((hone p' hp').trans (hone Z.apex Z.exists_apex).symm)

/-- Some record covers the hash of a missing name. -/
theorem exists_nsec3Covers {p : Path} (hfree : Z.CollisionFree N q)
    (hp : Z.Considered N q p) (hnone : ¬ Z.Exists p) : ∃ o, Z.Nsec3Covers N o p := by
  have hmem : N.hash p ∉ Z.existing.map N.hash := by
    intro hmem
    obtain ⟨p', hp', heq⟩ := List.mem_map.mp hmem
    have hexist := mem_existing.mp hp'
    rw [hfree p p' hp (Or.inl hexist) heq.symm] at hnone
    exact hnone hexist
  have hne : Z.existing.map N.hash ≠ [] := by
    have hapex := List.mem_map_of_mem (f := N.hash) (mem_existing.mpr Z.exists_apex)
    exact List.ne_nil_of_mem hapex
  obtain ⟨o, n, hnext, hgap⟩ := CyclicChain.exists_inGap_of_notMem hne hmem
  rw [← hashes_eq_existing] at hnext
  obtain ⟨o', ho', rfl⟩ := hnext.left_mem
  exact ⟨o', ho', n, hnext, hgap⟩

/-- The covering test on a conforming proof: a gap is closed at its owner, unless the chain has one record
only. -/
theorem Nsec3Proof.covers_iff {n : Name} (hproof : Z.Nsec3Proof N q.path records)
    (hfree : Z.CollisionFree N q) (hn : Z.Considered N q n.path) :
    (∃ rec ∈ records,
        nsec3Covers N.platform rec (nsec3Hash N.platform n N.salt N.iterations) = true) ↔
      Z.Plural ∧ (Z.Nsec3Sent N q.path n.path ∨ Z.CoveredBySent N q.path n.path) := by
  simp only [nsec3Covers_iff, nsec3Hash_eq_hashPath]
  constructor
  · rintro ⟨rec, hrec, owner, n3, howner, hn3, hne, htarget⟩
    obtain ⟨p, hat⟩ := hproof.genuine rec hrec
    have hplural := hat.next_ne_iff hfree hn3
    have hsent := (hproof.exactly p).mp ⟨rec, hrec, hat⟩
    obtain ⟨hp, howner', n3', hn3', hnext, -⟩ := hat
    rw [hn3] at hn3'
    cases hn3'
    rw [howner] at howner'
    cases howner'
    refine ⟨hplural.mp hne, ?_⟩
    rcases htarget with heq | hgap
    · rw [hfree n.path p hn (Or.inl hp) heq]
      exact Or.inl hsent
    · exact Or.inr ⟨p, hsent, hp, _, hnext, hgap⟩
  · rintro ⟨hplural, hsent | ⟨o, hsent, ho, next, hnext, hgap⟩⟩
    · obtain ⟨rec, hrec, hat⟩ := (hproof.exactly n.path).mpr hsent
      have hrecord := hat
      obtain ⟨-, howner, n3, hn3, -⟩ := hrecord
      exact ⟨rec, hrec, _, n3, howner, hn3, (hat.next_ne_iff hfree hn3).mpr hplural, Or.inl rfl⟩
    · obtain ⟨rec, hrec, hat⟩ := (hproof.exactly o).mpr hsent
      have hrecord := hat
      obtain ⟨-, howner, n3, hn3, hnext', -⟩ := hrecord
      refine ⟨rec, hrec, _, n3, howner, hn3, (hat.next_ne_iff hfree hn3).mpr hplural, Or.inr ?_⟩
      rwa [hnext'.unique hnext]

/-- Nothing of a conforming proof matches a missing name. -/
theorem Nsec3Proof.not_matches {n : Name} (hproof : Z.Nsec3Proof N q.path records)
    (hfree : Z.CollisionFree N q) (hn : Z.Considered N q n.path) (hnone : ¬ Z.Exists n.path) :
    ¬ ∃ rec ∈ records,
      matchesHash N.platform (nsec3Hash N.platform n N.salt N.iterations) rec = true := by
  rw [exists_match_iff hfree hproof.genuine hn]
  rintro ⟨rec, -, hat⟩
  exact hnone hat.1

section Missing

variable {c : Path}

/-- Where the code looks far enough it finds the true closest encloser. -/
theorem Nsec3Proof.closest_found (hproof : Z.Nsec3Proof N q.path records)
    (hfree : Z.CollisionFree N q) (hq : ¬ Z.Exists q.path) (hc : Z.ClosestEncloser q.path c)
    (hnear : q.path.length < c.length + maxClosestEncloserSteps) :
    ∃ closest, findNsec3ClosestProvableEncloser N.platform q records N.salt N.iterations =
      some closest ∧ closest.path = c := by
  have hshown : ∃ rec ∈ records, Z.Nsec3RecordAt N c rec :=
    (hproof.exactly c).mpr (.closest hq hc)
  obtain ⟨rec, hrec, hat⟩ := hshown
  obtain ⟨found, hfind⟩ := findNsec3ClosestFrom_isSome hc.isPrefix hnear
    ⟨rec, hrec, matchesHash_iff.mpr hat.2.1⟩
  obtain ⟨hpre, hmatch, hbetween⟩ := findNsec3ClosestFrom_some hfind
  refine ⟨found, hfind, ?_⟩
  -- What is found exists, so it stands at or above the closest encloser; nothing lies between.
  have hexist : Z.Exists found.path := by
    by_contra hnone
    exact hproof.not_matches hfree (considered_of_ancestor hpre) hnone hmatch
  have hne : found.path ≠ q.path := fun heq => hq (heq ▸ hexist)
  have hup := hc.longest found.path hexist hpre hne
  by_contra hother
  have hpath : (q.trimTo c.length).path = c := by
    rw [Name.path_trimTo]
    exact (List.prefix_iff_eq_take.mp hc.isPrefix).symm
  have hsilent := hbetween (q.trimTo c.length) (by rw [hpath]; exact hc.isPrefix)
    (by rwa [hpath]) (by rw [hpath]; exact fun heq => hother heq.symm) rec hrec
  have hmatches : matchesHash N.platform (hashPath N.platform N.salt N.iterations c) rec = true :=
    matchesHash_iff.mpr hat.2.1
  rw [nsec3Hash_eq_hashPath, hpath, hmatches] at hsilent
  cases hsilent

/-- Where the closest encloser is too far up, the search finds nothing. -/
theorem Nsec3Proof.closest_not_found (hproof : Z.Nsec3Proof N q.path records)
    (hfree : Z.CollisionFree N q) (hq : ¬ Z.Exists q.path) (hc : Z.ClosestEncloser q.path c)
    (hfar : ¬ q.path.length < c.length + maxClosestEncloserSteps) :
    findNsec3ClosestProvableEncloser N.platform q records N.salt N.iterations = none := by
  cases hfind : findNsec3ClosestProvableEncloser N.platform q records N.salt N.iterations with
  | none => rfl
  | some found =>
      obtain ⟨hpre, hmatch, -⟩ := findNsec3ClosestFrom_some hfind
      have hwithin := findNsec3ClosestFrom_within hfind
      have hexist : Z.Exists found.path := by
        by_contra hnone
        exact hproof.not_matches hfree (considered_of_ancestor hpre) hnone hmatch
      have hup := hc.longest found.path hexist hpre fun heq => hq (heq ▸ hexist)
      have hlen := hup.length_le
      omega

/-- The next closer name is missing. -/
theorem not_exists_nextCloser (hq : ¬ Z.Exists q.path) (hc : Z.ClosestEncloser q.path c) :
    ¬ Z.Exists (nextCloserPath q.path c) := by
  intro hexist
  have hpre : nextCloserPath q.path c <+: q.path := List.take_prefix _ _
  have hup := hc.longest _ hexist hpre fun heq => hq (heq ▸ hexist)
  have hlt : c.length < q.path.length :=
    lt_of_le_of_ne hc.isPrefix.length_le fun heq => hc.ne (hc.isPrefix.eq_of_length heq)
  have hlen := hup.length_le
  rw [nextCloserPath, List.length_take] at hlen
  omega

/-- The next closer name of the code under the closest encloser. -/
theorem path_nextCloser {closest next : Name} (hnext : nextCloser q closest = some next)
    (hpre : closest.path <+: q.path) (hne : closest.path ≠ q.path) :
    next.path = nextCloserPath q.path closest.path := by
  obtain ⟨hnextq, hdrop, hnextne⟩ := nextCloser_spec hnext hpre hne
  have hlen := congrArg List.length hdrop
  rw [List.length_dropLast] at hlen
  have hlt : closest.path.length < next.path.length := by
    have hle : closest.path <+: next.path := by
      rw [← hdrop]
      exact List.dropLast_prefix _
    exact lt_of_le_of_ne hle.length_le fun heq => hnextne (hle.eq_of_length heq).symm
  rw [List.prefix_iff_eq_take.mp hnextq, nextCloserPath]
  congr 1
  omega

/-- Below the closest encloser that the code works with, a proof is accepted just when it passes for a
denial there. -/
theorem Nsec3Proof.shown_iff {closest : Name} (hproof : Z.Nsec3Proof N q.path records)
    (hfree : Z.CollisionFree N q)
    (hclosest : nsec3ClosestEncloser N.platform q t records N.salt N.iterations = some closest)
    (hne : closest.path ≠ q.path) (hmissing : ¬ Z.Exists (nextCloserPath q.path closest.path)) :
    (Z.WildcardShown3 N q t records ∨ AbsenceShown3 N q t records) ↔
      Z.AbsenceSent N q t closest.path := by
  have hsuffix := nsec3ClosestEncloser_suffix hclosest
  have hpre := (nsec3ClosestEncloser_spec hclosest hne).1
  have hwildcard := considered_wildcardName (Z := Z) (N := N) hsuffix
  have htrim : q.trimTo closest.path.length = closest := by
    rw [Name.length_path, ← Name.eq_trimTo_of_suffix hsuffix]
  -- The next closer name is missing, so what covers it is no record of its own.
  have hnext : ∀ next, nextCloser q closest = some next →
      ((∃ rec ∈ records, nsec3Covers N.platform rec
          (nsec3Hash N.platform next N.salt N.iterations) = true) ↔
        Z.Plural ∧ Z.CoveredBySent N q.path (nextCloserPath q.path closest.path)) := by
    intro next hnext
    have hpath := path_nextCloser hnext hpre hne
    have hconsidered : Z.Considered N q next.path := by
      rw [hpath]
      exact considered_of_ancestor (List.take_prefix _ _)
    have hunsent : ¬ Z.Nsec3Sent N q.path (nextCloserPath q.path closest.path) :=
      fun hsent => hmissing hsent.exist
    rw [hproof.covers_iff hfree hconsidered, hpath, or_iff_right hunsent]
  have hwild := hproof.covers_iff hfree hwildcard
  unfold AbsenceSent
  rw [htrim]
  constructor
  · rintro (⟨closest', hclosest', -, hshown, hlacks⟩ |
      ⟨closest', next, hclosest', -, hfound, hcovers, hcovered⟩)
    · cases hclosest.symm.trans hclosest'
      exact Or.inl ⟨(hproof.exactly _).mp hshown, hlacks⟩
    · cases hclosest.symm.trans hclosest'
      obtain ⟨hplural, hgap⟩ := (hnext next hfound).mp hcovers
      exact Or.inr ⟨hplural, hgap, (hwild.mp hcovered).2⟩
  · rintro (⟨hsent, hlacks⟩ | ⟨hplural, hgap, hcovered⟩)
    · exact Or.inl ⟨closest, hclosest, hne, (hproof.exactly _).mpr hsent, hlacks⟩
    · obtain ⟨next, hfound⟩ := nextCloser_isSome hpre hne
      exact Or.inr ⟨closest, next, hclosest, hne, hfound, (hnext next hfound).mpr ⟨hplural, hgap⟩,
        hwild.mpr ⟨hplural, hcovered⟩⟩

/-- Where the wildcard below the true closest encloser is read as itself, the proof passes unless the chain
has one record only. -/
theorem absenceSent_iff_plural (hfree : Z.CollisionFree N q) (hdenied : Z.Denied3 q.path t)
    (hq : ¬ Z.Exists q.path) (hc : Z.ClosestEncloser q.path c)
    (hreads : (wildcardName N.platform (q.trimTo c.length)).path = c ++ [star]) :
    Z.AbsenceSent N q t c ↔ Z.Plural := by
  unfold AbsenceSent
  simp only [hreads]
  constructor
  · rintro (⟨hsent, -⟩ | ⟨hplural, -⟩)
    · refine ⟨_, hsent.exist, fun heq => ?_⟩
      -- The wildcard is longer than the apex.
      have hlen := hc.exist.1.length_le
      rw [← heq, List.length_append, List.length_singleton] at hlen
      omega
    · exact hplural
  · intro hplural
    by_cases hstar : Z.Exists (c ++ [star])
    · exact Or.inl ⟨.wildcard hq hc hstar, bitmapLacks3_iff.mpr (hdenied.no_wildcard hq _ hc)⟩
    · have hconsidered : Z.Considered N q (c ++ [star]) :=
        Or.inr (Or.inr ⟨c.length, hc.isPrefix.length_le, hreads.symm⟩)
      obtain ⟨o, ho⟩ := exists_nsec3Covers hfree
        (considered_of_ancestor (List.take_prefix (c.length + 1) q.path)) (not_exists_nextCloser hq hc)
      obtain ⟨o', ho'⟩ := exists_nsec3Covers hfree hconsidered hstar
      exact Or.inr ⟨hplural, ⟨o, .nextCloser hq hc ho, ho⟩,
        Or.inr ⟨o', .wildcardCover hq hc hstar ho', ho'⟩⟩

/-- With the true closest encloser in reach, the proof is judged there. -/
theorem Nsec3Proof.shown_iff_of_near (hproof : Z.Nsec3Proof N q.path records)
    (hfree : Z.CollisionFree N q) (hq : ¬ Z.Exists q.path) (hc : Z.ClosestEncloser q.path c)
    (hnear : q.path.length < c.length + maxClosestEncloserSteps) :
    (Z.WildcardShown3 N q t records ∨ AbsenceShown3 N q t records) ↔ Z.AbsenceSent N q t c := by
  obtain ⟨closest, hfind, rfl⟩ := hproof.closest_found hfree hq hc hnear
  have hclosest : nsec3ClosestEncloser N.platform q t records N.salt N.iterations =
      some closest := by
    simp only [nsec3ClosestEncloser, hfind]
  exact hproof.shown_iff hfree hclosest hc.ne (not_exists_nextCloser hq hc)

/-- With the closest encloser out of reach, a DS denial is judged below the parent of the name. -/
theorem Nsec3Proof.shown_iff_of_far (hproof : Z.Nsec3Proof N q.path records)
    (hfree : Z.CollisionFree N q) (hq : ¬ Z.Exists q.path) (hc : Z.ClosestEncloser q.path c)
    (hfar : ¬ q.path.length < c.length + maxClosestEncloserSteps) :
    (Z.WildcardShown3 N q t records ∨ AbsenceShown3 N q t records) ↔
      t = .DS ∧ Z.AbsenceSent N q t q.path.dropLast := by
  have hfind := hproof.closest_not_found hfree hq hc hfar
  by_cases ht : t = .DS
  · have hclosest : nsec3ClosestEncloser N.platform q t records N.salt N.iterations =
        some q.baseName := by
      simp only [nsec3ClosestEncloser, hfind, ht, if_true]
    have hroot : q.path ≠ [] := by
      intro hnil
      rw [hnil] at hc
      exact hc.ne (List.prefix_nil.mp hc.isPrefix)
    have hnext : nextCloserPath q.path q.baseName.path = q.path := by
      have hpos := List.length_pos_iff.mpr hroot
      rw [nextCloserPath, Name.path_baseName, List.length_dropLast, List.take_of_length_le (by omega)]
    rw [hproof.shown_iff hfree hclosest (Name.path_baseName_ne hroot) (by rwa [hnext]),
      Name.path_baseName, and_iff_right ht]
  · have hclosest : nsec3ClosestEncloser N.platform q t records N.salt N.iterations = none := by
      simp only [nsec3ClosestEncloser, hfind, ht, if_false]
    simp [WildcardShown3, AbsenceShown3, hclosest, ht]

end Missing

/-- An existing name is denied by its own record only. -/
theorem Nsec3Proof.shown_iff_of_exists (hproof : Z.Nsec3Proof N q.path records)
    (hfree : Z.CollisionFree N q) (hdenied : Z.Denied3 q.path t) (hq : Z.Exists q.path) :
    (Z.NodataShown3 N q t records ∨ Z.WildcardShown3 N q t records ∨
        AbsenceShown3 N q t records) ↔
      ¬ (t = .DS ∧ RecordType.SOA ∈ Z.types q.path) := by
  have hshown : ∃ rec ∈ records, Z.Nsec3RecordAt N q.path rec := (hproof.exactly _).mpr (.own hq)
  have hlacks : Z.BitmapLacks3 q.path t := bitmapLacks3_iff.mpr (hdenied.no_data hq)
  -- The search stops at the name itself.
  have hself : ∀ closest,
      nsec3ClosestEncloser N.platform q t records N.salt N.iterations = some closest →
      closest.path = q.path := by
    intro closest hclosest
    by_contra hne
    obtain ⟨hpre, -, hbetween⟩ := nsec3ClosestEncloser_spec hclosest hne
    obtain ⟨rec, hrec, hat⟩ := hshown
    have hmatch := (matchesHash_iff_recordAt hfree ⟨_, hat⟩
      (considered_of_ancestor List.prefix_rfl)).mpr hat
    rw [hbetween q List.prefix_rfl hpre (fun heq => hne heq.symm) rec hrec] at hmatch
    cases hmatch
  constructor
  · rintro (⟨-, -, hds⟩ | ⟨closest, hclosest, hne, -⟩ | ⟨closest, next, hclosest, hne, -⟩)
    · exact hds
    · exact absurd (hself closest hclosest) hne
    · exact absurd (hself closest hclosest) hne
  · exact fun hds => Or.inl ⟨hshown, hlacks, hds⟩

/-- **Which conforming NSEC3 proofs are accepted.**  For every zone with a chain without Opt-Out,
every name and type that the zone denies, and exactly the records a server sends for them, with all
signatures verified: the verdict is `secure` if and only if the proof is one of the accepted ones. -/
theorem validateNsec3_complete_iff {env : Env} {keys : List DNSKEY} {authority : List Record}
    {s : VState} (hplatform : N.platform = env.platform) (hiterations : N.iterations ≤ 150)
    (hfree : Z.CollisionFree N q) (hdenied : Z.Denied3 q.path t)
    (hproof : Z.Nsec3Proof N q.path (denialRecords .NSEC3 authority))
    (hverified :
      (verifyDenialRecords env authority keys (denialRecords .NSEC3 authority) s).1 = true) :
    (validateNsec3 env keys q t authority s).1 = .secure ↔ Z.Nsec3Accepted N q t := by
  rw [validateNsec3_secure_iff hplatform hiterations hfree hproof.genuine hverified]
  by_cases hq : Z.Exists q.path
  · rw [hproof.shown_iff_of_exists hfree hdenied hq]
    simp [Nsec3Accepted, hq]
  · obtain ⟨c, hc⟩ := exists_closestEncloser Z.exists_apex hdenied.below_apex hq
    have hnodata : ¬ Z.NodataShown3 N q t (denialRecords .NSEC3 authority) := by
      rintro ⟨⟨rec, -, hat⟩, -⟩
      exact hq hat.1
    have hunique : ∀ c', Z.ClosestEncloser q.path c' → c' = c := fun c' hc' => hc'.unique hc
    simp only [hnodata, false_or, Nsec3Accepted, hq, false_and, not_false_eq_true, true_and]
    by_cases hnear : q.path.length < c.length + maxClosestEncloserSteps
    · rw [hproof.shown_iff_of_near hfree hq hc hnear]
      constructor
      · intro habsence
        exact ⟨c, hc, by rwa [if_pos hnear]⟩
      · rintro ⟨c', hc', haccepted⟩
        rwa [hunique c' hc', if_pos hnear] at haccepted
    · rw [hproof.shown_iff_of_far hfree hq hc hnear]
      constructor
      · intro habsence
        exact ⟨c, hc, by rwa [if_neg hnear]⟩
      · rintro ⟨c', hc', haccepted⟩
        rwa [hunique c' hc', if_neg hnear] at haccepted

/-! ### A wildcard without the type in a chain of two records -/

/-- The NSEC3 record of the wildcard `*.a.`, the other one of the chain. -/
def starNsec3 : Record :=
  ⟨hashedStarA, .IN, 300, .nsec3 ⟨1, 0, 0, [], sampleSha1 [1, 97, 0], [.AAAA, .RRSIG]⟩⟩

def starAuthority3 : List Record :=
  [apexNsec3, starNsec3, signatureAt hashedA .NSEC3, signatureAt hashedStarA .NSEC3]

theorem starAuthority3_shown : denialRecords .NSEC3 starAuthority3 = [apexNsec3, starNsec3] := by
  simp [denialRecords, starAuthority3, maxNegativeRecords, apexNsec3, starNsec3, signatureAt,
    Record.recordType, RData.recordType, RecordType.NSEC3, RecordType.RRSIG]

theorem starZone_exists {p : Path} (h : starZone.Exists p) : p = [[97]] ∨ p = [[97], star] := by
  have hall : ∀ p ∈ starZone.existing, p = [[97]] ∨ p = [[97], star] := by decide
  exact hall p (mem_existing.mpr h)

theorem apexNsec3_recordAt : starZone.Nsec3RecordAt plainParams [[97]] apexNsec3 := by
  refine ⟨by decide, by decide, _, rfl, ?_, rfl, rfl, rfl, by decide, fun t => ?_⟩
  · rw [hashes_eq_existing]
    decide
  · have htypes : starZone.types [[97]] = [.NS, .SOA] := by decide
    have hsigned : starZone.OwnsSigned [[97]] := by
      refine ⟨by decide, fun h => ?_⟩
      exact absurd h.1 (by decide)
    simp [htypes, hsigned, or_assoc]

theorem starNsec3_recordAt : starZone.Nsec3RecordAt plainParams [[97], star] starNsec3 := by
  refine ⟨by decide, by decide, _, rfl, ?_, rfl, rfl, rfl, by decide, fun t => ?_⟩
  · rw [hashes_eq_existing]
    decide
  · have htypes : starZone.types [[97], star] = [.AAAA] := by decide
    have hsigned : starZone.OwnsSigned [[97], star] := by
      refine ⟨by decide, fun h => ?_⟩
      exact absurd h.1 (by decide)
    simp [htypes, hsigned]

theorem starZone_collisionFree : starZone.CollisionFree plainParams nameBA := by
  decide

theorem starZone_denied3 : starZone.Denied3 nameBA.path .A where
  below_apex := by decide
  not_delegated := by decide
  not_occluded := by decide
  no_data hexist := absurd hexist starZone_not_exists
  no_wildcard := by
    intro _ c hc
    rw [starZone_closest hc]
    rintro (hanswers | ⟨htype, -⟩)
    · exact absurd hanswers (by decide)
    · cases htype

theorem starAuthority3_proof :
    starZone.Nsec3Proof plainParams nameBA.path (denialRecords .NSEC3 starAuthority3) := by
  obtain ⟨c, hc⟩ := exists_closestEncloser starZone.exists_apex (by decide) starZone_not_exists
  have hclosest := starZone_closest hc
  subst hclosest
  rw [starAuthority3_shown]
  constructor
  · intro rec hrec
    rcases List.mem_pair.mp hrec with rfl | rfl
    · exact ⟨_, apexNsec3_recordAt⟩
    · exact ⟨_, starNsec3_recordAt⟩
  · intro o
    constructor
    · -- Both existing names have their records sent.
      rintro ⟨rec, -, hat⟩
      rcases starZone_exists hat.1 with rfl | rfl
      · exact .closest starZone_not_exists hc
      · exact .wildcard starZone_not_exists hc (by decide)
    · intro hsent
      rcases starZone_exists hsent.exist with rfl | rfl
      · exact ⟨apexNsec3, by simp, apexNsec3_recordAt⟩
      · exact ⟨starNsec3, by simp, starNsec3_recordAt⟩

/-- The zone has no address for `b.a.`, and the two records it should send are accepted. -/
theorem validateNsec3_complete_iff_star :
    (validateNsec3 sha1Env [plainKey] nameBA .A starAuthority3 VState.init).1 = .secure ∧
      starZone.Nsec3Accepted plainParams nameBA .A := by
  have hsecure : (validateNsec3 sha1Env [plainKey] nameBA .A starAuthority3 VState.init).1 =
      .secure := by decide
  have hiff : (validateNsec3 sha1Env [plainKey] nameBA .A starAuthority3 VState.init).1 = .secure ↔
      starZone.Nsec3Accepted plainParams nameBA .A :=
    validateNsec3_complete_iff rfl (by decide) starZone_collisionFree starZone_denied3
      starAuthority3_proof (by decide)
  exact ⟨hsecure, hiff.mp hsecure⟩

/-! ### A chain of one record -/

/-- The record of the apex, which links to itself. -/
def singleNsec3 : Record :=
  ⟨hashedA, .IN, 300, .nsec3 ⟨1, 0, 0, [], sampleSha1 [1, 97, 0], [.NS, .SOA, .RRSIG]⟩⟩

def singleAuthority : List Record := [singleNsec3, signatureAt hashedA .NSEC3]

theorem singleAuthority_shown : denialRecords .NSEC3 singleAuthority = [singleNsec3] := by
  simp [denialRecords, singleAuthority, maxNegativeRecords, singleNsec3, signatureAt,
    Record.recordType, RData.recordType, RecordType.NSEC3, RecordType.RRSIG]

theorem singleNsec3_recordAt : singleZone.Nsec3RecordAt plainParams [[97]] singleNsec3 := by
  refine ⟨by decide, by decide, _, rfl, ?_, rfl, rfl, rfl, by decide, fun t => ?_⟩
  · rw [hashes_eq_existing]
    decide
  · have htypes : singleZone.types [[97]] = [.NS, .SOA] := by decide
    have hsigned : singleZone.OwnsSigned [[97]] := by
      refine ⟨by decide, fun h => ?_⟩
      exact absurd h.1 (by decide)
    simp [htypes, hsigned, or_assoc]

theorem singleZone_collisionFree : singleZone.CollisionFree plainParams nameBA := by
  decide

theorem singleZone_denied : singleZone.Denied3 nameBA.path .A where
  below_apex := by decide
  not_delegated := by decide
  not_occluded := by decide
  no_data hexist := absurd hexist singleZone_missing
  no_wildcard := by
    intro _ c hc
    rw [singleZone_exists hc.exist]
    rintro (hanswers | ⟨htype, -⟩)
    · exact absurd hanswers (by decide)
    · cases htype

theorem singleAuthority_proof :
    singleZone.Nsec3Proof plainParams nameBA.path (denialRecords .NSEC3 singleAuthority) := by
  rw [singleAuthority_shown]
  obtain ⟨c, hc⟩ := exists_closestEncloser singleZone.exists_apex (by decide) singleZone_missing
  constructor
  · intro rec hrec
    rw [List.mem_singleton.mp hrec]
    exact ⟨_, singleNsec3_recordAt⟩
  · intro o
    simp only [List.mem_singleton, exists_eq_left]
    constructor
    · intro hat
      rw [singleZone_exists hat.1, ← singleZone_exists hc.exist]
      exact .closest singleZone_missing hc
    · intro hsent
      rw [singleZone_exists hsent.exist]
      exact singleNsec3_recordAt

/-- The zone has nothing at `b.a.` and proves it with its only record, and the proof is refused. -/
theorem single_record_refused :
    ¬ ∀ (Z : Zone) (N : Nsec3Params) (env : Env) (keys : List DNSKEY) (q : Name) (t : RecordType)
        (authority : List Record) (s : VState), N.platform = env.platform → N.iterations ≤ 150 →
        Z.CollisionFree N q → Z.Denied3 q.path t →
        Z.Nsec3Proof N q.path (denialRecords .NSEC3 authority) →
        (denialRecords .NSEC3 authority).length ≤ 8 →
        (verifyDenialRecords env authority keys (denialRecords .NSEC3 authority) s).1 = true →
        (validateNsec3 env keys q t authority s).1 = .secure := by
  intro hclaim
  have hsecure := hclaim singleZone plainParams sha1Env [plainKey] nameBA .A singleAuthority
    VState.init rfl (by decide) singleZone_collisionFree singleZone_denied singleAuthority_proof
    (by decide) (by decide)
  have hbogus : (validateNsec3 sha1Env [plainKey] nameBA .A singleAuthority VState.init).1 =
      .bogus := by decide
  rw [hbogus] at hsecure
  cases hsecure

end Zone
end UnifiedDns
