import TensorGrep.Index.Staleness

/-!
# Candidates of a query

`queryWithTrigrams` intersects the posting lists of all trigrams of a pattern,
shortest list first, and turns what is left into pairs of an absolute path and
a line number.

`mem_queryWithTrigrams_iff` says what that computes: a line of an active entry
is a candidate exactly when every trigram is posted on it.
-/

namespace TensorGrep
namespace Index

open Kernel

/-- A file and the number of a line that may match. -/
abbrev Candidate := Bytes × Nat

/-- Paths are compared component by component. -/
def pathKey (path : Bytes) : List (List Nat) :=
  (path.splitOn slash).map nameKey

/-- Candidates are ordered by path, then by line. -/
def candidateKey (c : Candidate) : List (List Nat) ×ₗ ℕ :=
  toLex (pathKey c.1, c.2)

/-- Retain what occurs in every list, and stop when nothing is left. -/
def retainAll : List PostingEntry → List (List PostingEntry) → List PostingEntry
  | candidates, [] => candidates
  | candidates, postingList :: rest =>
      if candidates.filter (fun c => c ∈ postingList) = [] then []
      else retainAll (candidates.filter (fun c => c ∈ postingList)) rest

/-- The absolute path and the line number of a posting, unless its entry is deleted. -/
def toCandidate
    (idx : TrigramIndex)
    (c : PostingEntry) : Option Candidate :=
  (idx.files[c.fileId.toNat]?).bind (fun e =>
    if e.deleted then none else some (idx.derefPath e.path, c.line.toNat))

/-- `TrigramIndex::query_with_trigrams`. -/
def queryWithTrigrams
    (idx : TrigramIndex)
    (trigrams : List Trigram) : List Candidate :=
  if trigrams = [] then []
  else match trigrams.mapM (fun t => idx.postings.lookup t) with
  | none => []
  | some sets =>
      match sortByKey List.length sets with
      | [] => []
      | first :: rest =>
          (sortDedup PostingEntry.key (retainAll first rest)).filterMap (toCandidate idx)

/-- A trigram is posted on a line of the file stored under a number. -/
def TrigramIndex.Posts
    (idx : TrigramIndex)
    (f : Nat)
    (t : Trigram)
    (n : Nat) : Prop :=
  ∃ p ∈ idx.postings.get t, p.fileId.toNat = f ∧ p.line.toNat = n

/-! ## What the intersection computes -/

theorem splitOn_injective
    {α : Type*} [DecidableEq α]
    (sep : α) :
    Function.Injective (fun l : List α => l.splitOn sep) := by
  intro l₁ l₂ h
  have hjoin := congrArg (fun ps => List.intercalate [sep] ps) h
  simpa only [List.intercalate_splitOn] using hjoin

theorem candidateKey_injective :
    Function.Injective candidateKey := by
  rintro ⟨p, n⟩ ⟨q, k⟩ h
  have hpair : (pathKey p, n) = (pathKey q, k) := toLex.injective h
  obtain ⟨hp, hn⟩ := Prod.mk.inj hpair
  have hpath : p = q :=
    splitOn_injective slash (List.map_injective_iff.mpr nameKey_injective hp)
  rw [hpath, hn]

theorem mem_retainAll
    {candidates : List PostingEntry}
    {lists : List (List PostingEntry)}
    {c : PostingEntry} :
    c ∈ retainAll candidates lists ↔ c ∈ candidates ∧ ∀ l ∈ lists, c ∈ l := by
  induction lists generalizing candidates with
  | nil => simp [retainAll]
  | cons l lists ih =>
      rw [retainAll]
      split_ifs with h
      · constructor
        · intro hc
          cases hc
        · rintro ⟨hc, hall⟩
          have hmem : c ∈ candidates.filter (fun c => c ∈ l) :=
            List.mem_filter.mpr ⟨hc, by simpa using hall l (by simp)⟩
          rw [h] at hmem
          cases hmem
      · rw [ih, List.mem_filter, List.forall_mem_cons, decide_eq_true_eq, and_assoc]

theorem mem_get_of_lookup
    {idx : TrigramIndex}
    {t : Trigram}
    {p : PostingEntry} :
    p ∈ idx.postings.get t ↔ ∃ l, idx.postings.lookup t = some l ∧ p ∈ l := by
  rw [MultiMap.get]
  cases idx.postings.lookup t with
  | none => simp
  | some l => simp

/-- The entries that all lists of the trigrams have in common. -/
theorem mem_queryWithTrigrams
    {idx : TrigramIndex}
    {trigrams : List Trigram}
    {x : Candidate} :
    x ∈ queryWithTrigrams idx trigrams ↔
      trigrams ≠ [] ∧ ∃ c, (∀ t ∈ trigrams, c ∈ idx.postings.get t) ∧
        toCandidate idx c = some x := by
  rw [queryWithTrigrams]
  by_cases hnil : trigrams = []
  · simp [hnil]
  rw [if_neg hnil]
  cases hsets : trigrams.mapM (fun t => idx.postings.lookup t) with
  | none =>
      constructor
      · intro h
        cases h
      · rintro ⟨-, c, hc, -⟩
        have hall : ∃ sets, trigrams.mapM (fun t => idx.postings.lookup t) = some sets := by
          refine ⟨trigrams.map idx.postings.get, mapM_eq_some_iff.mpr ?_⟩
          rw [List.forall₂_map_right_iff, List.forall₂_same]
          intro t ht
          obtain ⟨l, hl, -⟩ := mem_get_of_lookup.mp (hc t ht)
          rw [hl, MultiMap.get_eq_of_lookup hl]
        obtain ⟨sets, h⟩ := hall
        rw [hsets] at h
        cases h
  | some sets =>
      have hall := mapM_eq_some_iff.mp hsets
      have hcommon : ∀ c, (∀ l ∈ sets, c ∈ l) ↔
          ∀ t ∈ trigrams, c ∈ idx.postings.get t := by
        intro c
        constructor
        · intro h t ht
          obtain ⟨l, hl, hlookup⟩ := exists_right_of_forall₂ hall ht
          exact mem_get_of_lookup.mpr ⟨l, hlookup, h l hl⟩
        · intro h l hl
          obtain ⟨t, ht, hlookup⟩ := exists_left_of_forall₂ hall hl
          obtain ⟨l', hlookup', hc⟩ := mem_get_of_lookup.mp (h t ht)
          rw [hlookup] at hlookup'
          cases hlookup'
          exact hc
      have hsort : ∀ l, l ∈ sortByKey List.length sets ↔ l ∈ sets :=
        fun _ => mem_sortByKey
      simp only
      cases hsorted : sortByKey List.length sets with
      | nil =>
          obtain ⟨t, ht⟩ := List.exists_mem_of_ne_nil _ hnil
          obtain ⟨l, hl, -⟩ := exists_right_of_forall₂ hall ht
          have hmem := (hsort l).mpr hl
          rw [hsorted] at hmem
          cases hmem
      | cons first rest =>
          simp only [List.mem_filterMap, mem_sortDedup PostingEntry.key_injective,
            mem_retainAll, hnil, ne_eq, not_false_eq_true, true_and]
          refine exists_congr (fun c => and_congr_left (fun _ => ?_))
          have hcons : (∀ l ∈ first :: rest, c ∈ l) ↔ c ∈ first ∧ ∀ l ∈ rest, c ∈ l :=
            List.forall_mem_cons
          rw [← hcommon, ← hcons, ← hsorted]
          exact forall_congr' (fun l => by rw [hsort])

section Listed

variable {idx : TrigramIndex}

theorem derefPath_injOn
    (hidx : Listed idx)
    {e e' : FileEntry}
    (he : e ∈ idx.files)
    (he' : e' ∈ idx.files)
    (h : idx.derefPath e.path = idx.derefPath e'.path) :
    e.path = e'.path := by
  have hrel : ∀ e ∈ idx.files, (utf8 e.path).head? ≠ some slash := by
    intro e he hhead
    exact (hidx.confined e he).1
      ((head?_utf8_eq_some_iff (show IsAscii '/' by decide)).mp hhead)
  exact utf8_injective (joinPath_injective (hrel e he) (hrel e' he') h)

/-- A line of an active entry is a candidate exactly when all trigrams are posted on it. -/
theorem mem_queryWithTrigrams_iff
    (hidx : Listed idx)
    {f : Nat}
    {e : FileEntry}
    (he : idx.files[f]? = some e)
    (hact : e.deleted = false)
    {trigrams : List Trigram}
    {n : Nat} :
    (idx.derefPath e.path, n) ∈ queryWithTrigrams idx trigrams ↔
      trigrams ≠ [] ∧ ∀ t ∈ trigrams, idx.Posts f t n := by
  rw [mem_queryWithTrigrams]
  refine and_congr_right (fun hne => ?_)
  constructor
  · rintro ⟨c, hc, hcand⟩ t ht
    obtain ⟨e', he', hcand⟩ := Option.bind_eq_some_iff.mp hcand
    split_ifs at hcand with hdel
    obtain ⟨hpath, hline⟩ := Prod.mk.inj (Option.some.inj hcand)
    have hsame := derefPath_injOn hidx (List.mem_of_getElem? he')
      (List.mem_of_getElem? he) hpath
    have hfile := nodup_activeEntries_iff.mp hidx.filesInv.activeNodup _ _ _ _ he' he
      (by simpa using hdel) hact hsame
    exact ⟨c, hc t ht, hfile, hline⟩
  · intro h
    obtain ⟨t₀, ht₀⟩ := List.exists_mem_of_ne_nil _ hne
    obtain ⟨c, hc, hfile, hline⟩ := h t₀ ht₀
    refine ⟨c, ?_, ?_⟩
    · intro t ht
      obtain ⟨p, hp, hpfile, hpline⟩ := h t ht
      have hpc : p = c := by
        obtain ⟨pf, pn⟩ := p
        obtain ⟨cf, cn⟩ := c
        simp only at hpfile hpline hfile hline
        rw [UInt32.toNat_inj.mp (hpfile.trans hfile.symm),
          UInt32.toNat_inj.mp (hpline.trans hline.symm)]
      rw [← hpc]
      exact hp
    · rw [toCandidate, hfile, he, Option.bind_some, if_neg (by simp [hact]), hline]

/-- Candidates are lines of active entries. -/
theorem exists_entry_of_mem_queryWithTrigrams
    {trigrams : List Trigram}
    {x : Candidate}
    (h : x ∈ queryWithTrigrams idx trigrams) :
    ∃ e ∈ activeEntries idx.files, x.1 = idx.derefPath e.path := by
  obtain ⟨-, c, -, hcand⟩ := mem_queryWithTrigrams.mp h
  obtain ⟨e, he, hcand⟩ := Option.bind_eq_some_iff.mp hcand
  split_ifs at hcand with hdel
  cases hcand
  exact ⟨e, mem_activeEntries.mpr ⟨List.mem_of_getElem? he, by simpa using hdel⟩, rfl⟩

/-- No candidate is listed twice. -/
theorem nodup_queryWithTrigrams
    (hidx : Listed idx)
    (trigrams : List Trigram) :
    (queryWithTrigrams idx trigrams).Nodup := by
  rw [queryWithTrigrams]
  split_ifs
  · exact List.nodup_nil
  split
  · exact List.nodup_nil
  · split
    · exact List.nodup_nil
    · refine List.Nodup.filterMap ?_
        (nodup_of_pairwise_key_lt (pairwise_sortDedup PostingEntry.key _))
      intro c c' x hc hc'
      obtain ⟨e, he, hc⟩ := Option.bind_eq_some_iff.mp hc
      obtain ⟨e', he', hc'⟩ := Option.bind_eq_some_iff.mp hc'
      split_ifs at hc hc' with hdel hdel'
      cases hc
      obtain ⟨hpath, hline⟩ := Prod.mk.inj (Option.some.inj hc')
      have hsame := derefPath_injOn hidx (List.mem_of_getElem? he')
        (List.mem_of_getElem? he) hpath
      have hfile := nodup_activeEntries_iff.mp hidx.filesInv.activeNodup _ _ _ _ he' he
        (by simpa using hdel') (by simpa using hdel) hsame
      obtain ⟨f, n⟩ := c
      obtain ⟨f', n'⟩ := c'
      simp only at hfile hline
      rw [UInt32.toNat_inj.mp hfile, UInt32.toNat_inj.mp hline]

end Listed

end Index
end TensorGrep
