import TensorGrep.Index.State

/-!
# Maintaining posting lists

The three edits of the posting map: adding the hits of a file, removing them,
and normalising posting lists.  `Mirrors` relates the posting map to the
per-file trigrams, and each edit of the map is matched with the edit of the
per-file trigrams that keeps the relation.

Normalisation is deferred: adding and removing only record the trigrams they
touched, and `TidyOutside` says that every other posting list is in order.
-/

namespace TensorGrep
namespace Index

open Kernel

/-- The postings that a file with the given hits contributes. -/
def filePostings
    (fileId : UInt32)
    (hits : FileTrigramHits) : List (Trigram × PostingEntry) :=
  hits.map (fun h => (h.1, ⟨fileId, h.2⟩))

/-- `add_file_postings`. -/
def addFilePostings
    (postings : Postings)
    (fileId : UInt32)
    (hits : FileTrigramHits)
    (affected : List Trigram) : Postings × List Trigram :=
  (postings.pushAll (filePostings fileId hits),
    hits.foldl (fun acc h => acc.insert h.1) affected)

/-- Drop the entries of a file on the given lines. -/
def retainOtherLines
    (fileId : UInt32)
    (lines : List UInt32)
    (entries : List PostingEntry) : List PostingEntry :=
  let sorted := sortDedup UInt32.toNat lines
  entries.filter (fun e => e.fileId ≠ fileId ∨ e.line ∉ sorted)

/-- `remove_file_postings`. -/
def removeFilePostings
    (postings : Postings)
    (fileId : UInt32)
    (hits : FileTrigramHits)
    (affected : List Trigram) : Postings × List Trigram :=
  let linesByTrigram : MultiMap Trigram UInt32 := MultiMap.pushAll ∅ hits
  (linesByTrigram.entries.foldl
      (fun acc e => acc.modify e.1 (retainOtherLines fileId e.2)) postings,
    linesByTrigram.entries.foldl (fun acc e => acc.insert e.1) affected)

/-- `normalize_postings`. -/
def normalizePostings (postings : Postings) : Postings :=
  postings.mapLists (sortDedup PostingEntry.key)

/-- One round of `normalize_affected_postings`. -/
def normalizeAt
    (postings : Postings)
    (t : Trigram) : Postings :=
  match postings.lookup t with
  | none => postings
  | some entries =>
      if sortDedup PostingEntry.key entries = [] then postings.erase t
      else postings.insert t (sortDedup PostingEntry.key entries)

/-- `normalize_affected_postings`. -/
def normalizeAffectedPostings
    (postings : Postings)
    (affected : List Trigram) : Postings :=
  affected.foldl normalizeAt postings

/-! ## Postings against per-file trigrams -/

/-- The posting map holds exactly the hits of every file. -/
def Mirrors
    (fileTrigrams : List FileTrigramHits)
    (postings : Postings) : Prop :=
  ∀ t p, p ∈ postings.get t ↔
    ∃ hits, fileTrigrams[p.fileId.toNat]? = some hits ∧ (t, p.line) ∈ hits

/-- Posting lists of trigrams outside `affected` are strictly sorted and not empty. -/
def TidyOutside
    (affected : List Trigram)
    (postings : Postings) : Prop :=
  ∀ t, t ∉ affected → ∀ l, postings.lookup t = some l →
    l.Pairwise (fun a b => a.key < b.key) ∧ l ≠ []

/-- Adding `hits` adds them at their trigrams. -/
theorem mem_get_addFilePostings
    {postings : Postings}
    {fileId : UInt32}
    {hits : FileTrigramHits}
    {affected : List Trigram}
    {t : Trigram}
    {p : PostingEntry} :
    p ∈ (addFilePostings postings fileId hits affected).1.get t ↔
      p ∈ postings.get t ∨ (p.fileId = fileId ∧ (t, p.line) ∈ hits) := by
  unfold addFilePostings filePostings
  rw [MultiMap.mem_get_pushAll]
  constructor
  · rintro (h | h)
    · exact Or.inl h
    · obtain ⟨⟨t', n⟩, hn, heq⟩ := List.mem_map.mp h
      cases heq
      exact Or.inr ⟨rfl, hn⟩
  · rintro (h | ⟨hf, hn⟩)
    · exact Or.inl h
    · subst hf
      exact Or.inr (List.mem_map.mpr ⟨_, hn, rfl⟩)

theorem mem_retainOtherLines
    {fileId : UInt32}
    {lines : List UInt32}
    {entries : List PostingEntry}
    {p : PostingEntry} :
    p ∈ retainOtherLines fileId lines entries ↔
      p ∈ entries ∧ ¬ (p.fileId = fileId ∧ p.line ∈ lines) := by
  have hinj : Function.Injective UInt32.toNat :=
    fun _ _ h => UInt32.toNat_inj.mp h
  rw [retainOtherLines, List.mem_filter, decide_eq_true_eq, mem_sortDedup hinj, ne_eq,
    not_and_or]

theorem lookup_removeFilePostings
    (postings : Postings)
    (fileId : UInt32)
    (hits : FileTrigramHits)
    (affected : List Trigram)
    (t : Trigram) :
    (removeFilePostings postings fileId hits affected).1.lookup t =
      ((MultiMap.pushAll (∅ : MultiMap Trigram UInt32) hits).lookup t).elim
        (postings.lookup t)
        (fun lines => (postings.lookup t).map (retainOtherLines fileId lines)) :=
  MultiMap.lookup_foldl_modify (retainOtherLines fileId) postings _ t

/-- Removing `hits` removes them and nothing else. -/
theorem mem_get_removeFilePostings
    {postings : Postings}
    {fileId : UInt32}
    {hits : FileTrigramHits}
    {affected : List Trigram}
    {t : Trigram}
    {p : PostingEntry} :
    p ∈ (removeFilePostings postings fileId hits affected).1.get t ↔
      p ∈ postings.get t ∧ ¬ (p.fileId = fileId ∧ (t, p.line) ∈ hits) := by
  have hlines : ∀ n, n ∈ (MultiMap.pushAll (∅ : MultiMap Trigram UInt32) hits).get t ↔
      (t, n) ∈ hits := by
    intro n
    rw [MultiMap.mem_get_pushAll]
    simp
  unfold MultiMap.get
  rw [lookup_removeFilePostings]
  cases hl : (MultiMap.pushAll (∅ : MultiMap Trigram UInt32) hits).lookup t with
  | none =>
      have habsent : ∀ n, (t, n) ∉ hits := by
        intro n hn
        have := (hlines n).mpr hn
        simp [MultiMap.get, hl] at this
      simp [habsent]
  | some lines =>
      have hmem : ∀ n, n ∈ lines ↔ (t, n) ∈ hits := by
        intro n
        rw [← hlines, MultiMap.get_eq_of_lookup hl]
      cases hp : postings.lookup t with
      | none => simp
      | some entries =>
          simp only [Option.elim_some, Option.map_some, Option.getD_some,
            mem_retainOtherLines, hmem]

/-- Trigrams that an edit leaves out of `affected` keep their posting list. -/
theorem lookup_addFilePostings_of_not_mem
    {postings : Postings}
    {fileId : UInt32}
    {hits : FileTrigramHits}
    {affected : List Trigram}
    {t : Trigram}
    (h : ∀ n, (t, n) ∉ hits) :
    (addFilePostings postings fileId hits affected).1.lookup t =
      postings.lookup t := by
  unfold addFilePostings filePostings
  induction hits generalizing postings with
  | nil => rfl
  | cons hit hits ih =>
      have hstep : ∀ l, postings.pushAll (((hit.1, (⟨fileId, hit.2⟩ : PostingEntry))) :: l) =
          (postings.push hit.1 ⟨fileId, hit.2⟩).pushAll l := fun _ => rfl
      rw [List.map_cons, hstep, ih (fun n hn => h n (List.mem_cons_of_mem _ hn)),
        MultiMap.lookup_push, if_neg]
      rintro rfl
      exact h hit.2 (by simp)

theorem mem_foldl_insert
    {γ : Type*}
    {g : γ → Trigram}
    {l : List γ}
    {acc : List Trigram}
    {t : Trigram} :
    t ∈ l.foldl (fun acc x => acc.insert (g x)) acc ↔
      t ∈ acc ∨ ∃ x ∈ l, g x = t := by
  induction l generalizing acc with
  | nil => simp
  | cons x l ih =>
      rw [List.foldl_cons, ih, List.mem_insert_iff]
      simp only [List.mem_cons, exists_eq_or_imp]
      constructor
      · rintro ((h | h) | h)
        · exact Or.inr (Or.inl h.symm)
        · exact Or.inl h
        · exact Or.inr (Or.inr h)
      · rintro (h | h | h)
        · exact Or.inl (Or.inr h)
        · exact Or.inl (Or.inl h.symm)
        · exact Or.inr h

/-- Adding touches only the trigrams it records. -/
theorem tidyOutside_addFilePostings
    {postings : Postings}
    {fileId : UInt32}
    {hits : FileTrigramHits}
    {affected : List Trigram}
    (h : TidyOutside affected postings) :
    TidyOutside (addFilePostings postings fileId hits affected).2
      (addFilePostings postings fileId hits affected).1 := by
  intro t ht l hl
  have hnot : t ∉ affected ∧ ∀ n, (t, n) ∉ hits := by
    unfold addFilePostings at ht
    rw [mem_foldl_insert (g := Prod.fst)] at ht
    push Not at ht
    exact ⟨ht.1, fun n hn => ht.2 _ hn rfl⟩
  rw [lookup_addFilePostings_of_not_mem hnot.2] at hl
  exact h t hnot.1 l hl

/-- Removing touches only the trigrams it records. -/
theorem tidyOutside_removeFilePostings
    {postings : Postings}
    {fileId : UInt32}
    {hits : FileTrigramHits}
    {affected : List Trigram}
    (h : TidyOutside affected postings) :
    TidyOutside (removeFilePostings postings fileId hits affected).2
      (removeFilePostings postings fileId hits affected).1 := by
  intro t ht l hl
  unfold removeFilePostings at ht
  rw [mem_foldl_insert (g := Sigma.fst)] at ht
  push Not at ht
  have habsent :
      (MultiMap.pushAll (∅ : MultiMap Trigram UInt32) hits).lookup t = none := by
    cases hlk : (MultiMap.pushAll (∅ : MultiMap Trigram UInt32) hits).lookup t with
    | none => rfl
    | some lines => exact absurd rfl (ht.2 _ (MultiMap.mem_entries_iff.mpr hlk))
  rw [lookup_removeFilePostings, habsent] at hl
  exact h t ht.1 l hl

/-! ## One file at a time -/

/-- Identifiers below `2 ^ 32` survive the narrowing. -/
theorem fileId_toNat
    {f : Nat}
    (h : f < 2 ^ 32) :
    (UInt32.ofNat f).toNat = f := by
  rw [UInt32.toNat_ofNat']
  exact Nat.mod_eq_of_lt h

theorem eq_ofNat_iff
    {f : Nat}
    (h : f < 2 ^ 32)
    {i : UInt32} :
    i = UInt32.ofNat f ↔ i.toNat = f := by
  rw [← UInt32.toNat_inj, fileId_toNat h]

/-- Clearing a file's trigrams matches removing its postings. -/
theorem mirrors_removeFilePostings
    {fileTrigrams : List FileTrigramHits}
    {postings : Postings}
    {f : Nat}
    {hits : FileTrigramHits}
    (affected : List Trigram)
    (hf : f < 2 ^ 32)
    (hhits : fileTrigrams[f]? = some hits)
    (h : Mirrors fileTrigrams postings) :
    Mirrors (fileTrigrams.set f [])
      (removeFilePostings postings (UInt32.ofNat f) hits affected).1 := by
  intro t p
  have hlt : f < fileTrigrams.length := (List.getElem?_eq_some_iff.mp hhits).1
  rw [mem_get_removeFilePostings, h t p, eq_ofNat_iff hf]
  by_cases hp : p.fileId.toNat = f
  · rw [hp, hhits, List.getElem?_set_self hlt]
    simp
  · rw [List.getElem?_set_ne (fun h => hp h.symm)]
    simp [hp]

/-- Filling the empty slot of a file matches adding its postings. -/
theorem mirrors_addFilePostings
    {fileTrigrams : List FileTrigramHits}
    {postings : Postings}
    {f : Nat}
    (hits : FileTrigramHits)
    (affected : List Trigram)
    (hf : f < 2 ^ 32)
    (hempty : fileTrigrams[f]? = some [])
    (h : Mirrors fileTrigrams postings) :
    Mirrors (fileTrigrams.set f hits)
      (addFilePostings postings (UInt32.ofNat f) hits affected).1 := by
  intro t p
  have hlt : f < fileTrigrams.length := (List.getElem?_eq_some_iff.mp hempty).1
  rw [mem_get_addFilePostings, h t p, eq_ofNat_iff hf]
  by_cases hp : p.fileId.toNat = f
  · rw [hp, hempty, List.getElem?_set_self hlt]
    simp
  · rw [List.getElem?_set_ne (fun h => hp h.symm)]
    simp [hp]

/-- Appending a file matches adding its postings under the next identifier. -/
theorem mirrors_append
    {fileTrigrams : List FileTrigramHits}
    {postings : Postings}
    (hits : FileTrigramHits)
    (affected : List Trigram)
    (hlen : fileTrigrams.length < 2 ^ 32)
    (h : Mirrors fileTrigrams postings) :
    Mirrors (fileTrigrams ++ [hits])
      (addFilePostings postings (UInt32.ofNat fileTrigrams.length) hits affected).1 := by
  intro t p
  rw [mem_get_addFilePostings, h t p, eq_ofNat_iff hlen]
  rcases Nat.lt_trichotomy p.fileId.toNat fileTrigrams.length with hp | hp | hp
  · rw [List.getElem?_append_left hp]
    simp [Nat.ne_of_lt hp]
  · rw [hp, List.getElem?_append_right le_rfl,
      List.getElem?_eq_none (Nat.le_refl fileTrigrams.length)]
    simp
  · rw [List.getElem?_eq_none (Nat.le_of_lt hp), List.getElem?_eq_none]
    · simp [Nat.ne_of_gt hp]
    · simp only [List.length_append, List.length_singleton]
      omega

/-! ## Normalising -/

/-- Normalising one posting list changes no membership. -/
theorem mem_get_normalizeAt
    {postings : Postings}
    {t t' : Trigram}
    {p : PostingEntry} :
    p ∈ (normalizeAt postings t).get t' ↔ p ∈ postings.get t' := by
  unfold normalizeAt
  cases hl : postings.lookup t with
  | none => rfl
  | some entries =>
      by_cases ht : t' = t
      · subst ht
        simp only
        rw [MultiMap.get_eq_of_lookup hl]
        split_ifs with hnil
        · have hentries : entries = [] :=
            (sortDedup_eq_nil_iff PostingEntry.key_injective).mp hnil
          simp [MultiMap.get, AList.lookup_erase, hentries]
        · simp [MultiMap.get, AList.lookup_insert, mem_sortDedup PostingEntry.key_injective]
      · simp only
        split_ifs
        · simp [MultiMap.get, AList.lookup_erase_ne ht]
        · simp [MultiMap.get, AList.lookup_insert_ne ht]

theorem mem_get_normalizeAffectedPostings
    {postings : Postings}
    {affected : List Trigram}
    {t : Trigram}
    {p : PostingEntry} :
    p ∈ (normalizeAffectedPostings postings affected).get t ↔
      p ∈ postings.get t := by
  unfold normalizeAffectedPostings
  induction affected generalizing postings with
  | nil => rfl
  | cons a affected ih => rw [List.foldl_cons, ih, mem_get_normalizeAt]

/-- A round puts its own posting list in order. -/
theorem tidyOutside_normalizeAt
    {postings : Postings}
    {affected : List Trigram}
    {t : Trigram}
    (h : TidyOutside (t :: affected) postings) :
    TidyOutside affected (normalizeAt postings t) := by
  intro t' ht' l hl
  unfold normalizeAt at hl
  by_cases heq : t' = t
  · subst heq
    cases hlk : postings.lookup t' with
    | none =>
        rw [hlk] at hl
        simp only at hl
        rw [hlk] at hl
        cases hl
    | some entries =>
        rw [hlk] at hl
        simp only at hl
        split_ifs at hl with hnil
        · rw [AList.lookup_erase] at hl
          cases hl
        · rw [AList.lookup_insert] at hl
          cases hl
          exact ⟨pairwise_sortDedup _ entries, hnil⟩
  · have hsame : postings.lookup t' = some l := by
      cases hlk : postings.lookup t with
      | none =>
          rw [hlk] at hl
          exact hl
      | some entries =>
          rw [hlk] at hl
          simp only at hl
          split_ifs at hl
          · rwa [AList.lookup_erase_ne heq] at hl
          · rwa [AList.lookup_insert_ne heq] at hl
    exact h t' (by simp [heq, ht']) l hsame

/-- Normalising the affected posting lists puts all of them in order. -/
theorem tidyOutside_normalizeAffectedPostings
    {postings : Postings}
    {affected : List Trigram}
    (h : TidyOutside affected postings) :
    TidyOutside [] (normalizeAffectedPostings postings affected) := by
  unfold normalizeAffectedPostings
  induction affected generalizing postings with
  | nil => exact h
  | cons t affected ih => exact ih (tidyOutside_normalizeAt h)

theorem mem_get_normalizePostings
    {postings : Postings}
    {t : Trigram}
    {p : PostingEntry} :
    p ∈ (normalizePostings postings).get t ↔ p ∈ postings.get t := by
  unfold normalizePostings MultiMap.get
  rw [MultiMap.lookup_mapLists]
  cases postings.lookup t with
  | none => rfl
  | some l => simp [mem_sortDedup PostingEntry.key_injective]

/-- Normalising a map without empty lists puts all of it in order. -/
theorem tidyOutside_normalizePostings
    {postings : Postings}
    (h : ∀ t l, postings.lookup t = some l → l ≠ []) :
    TidyOutside [] (normalizePostings postings) := by
  intro t _ l hl
  unfold normalizePostings at hl
  rw [MultiMap.lookup_mapLists] at hl
  obtain ⟨entries, hentries, rfl⟩ := Option.map_eq_some_iff.mp hl
  refine ⟨pairwise_sortDedup _ entries, ?_⟩
  intro hnil
  exact h t entries hentries
    ((sortDedup_eq_nil_iff PostingEntry.key_injective).mp hnil)

/-! ## The invariant from its parts -/

/-- Under the invariant the posting map mirrors the per-file trigrams. -/
theorem RepInv.mirrors
    {idx : TrigramIndex}
    (h : RepInv idx) :
    Mirrors idx.fileTrigrams idx.postings := by
  intro t p
  constructor
  · intro hp
    have hlt : p.fileId.toNat < idx.fileTrigrams.length := by
      rw [h.lengths]
      exact h.inRange t p hp
    refine ⟨idx.fileTrigrams[p.fileId.toNat], List.getElem?_eq_getElem hlt, ?_⟩
    rw [h.mirror _ _ (List.getElem?_eq_getElem hlt)]
    exact ⟨p, hp, rfl, rfl⟩
  · rintro ⟨hits, hhits, hline⟩
    obtain ⟨q, hq, hid, hl⟩ := (h.mirror _ hits hhits t p.line).mp hline
    obtain ⟨f, n⟩ := p
    obtain ⟨g, m⟩ := q
    simp only at hid hl
    rw [UInt32.toNat_inj.mp hid, hl] at hq
    exact hq

theorem RepInv.tidyOutside
    {idx : TrigramIndex}
    (h : RepInv idx) :
    TidyOutside [] idx.postings :=
  fun t _ l hl => ⟨h.sorted t l hl, h.nonempty t l hl⟩

/-- Under the invariant a deleted entry has no trigrams. -/
theorem RepInv.hits_eq_nil_of_deleted
    {idx : TrigramIndex}
    (h : RepInv idx)
    {f : Nat}
    {e : FileEntry}
    {hits : FileTrigramHits}
    (he : idx.files[f]? = some e)
    (hdel : e.deleted = true)
    (hhits : idx.fileTrigrams[f]? = some hits) :
    hits = [] := by
  rw [List.eq_nil_iff_forall_not_mem]
  rintro ⟨t, n⟩ hmem
  obtain ⟨p, hp, rfl, -⟩ := (h.mirror f hits hhits t n).mp hmem
  have := h.tombstones t p hp e he
  rw [hdel] at this
  cases this

/-- The invariant, assembled for at most `2 ^ 32` entries. -/
theorem repInv_of_mirrors
    {idx : TrigramIndex}
    (hbound : idx.files.length ≤ 2 ^ 32)
    (hlengths : idx.fileTrigrams.length = idx.files.length)
    (hmirrors : Mirrors idx.fileTrigrams idx.postings)
    (htidy : TidyOutside [] idx.postings)
    (htomb : ∀ (f : Nat) (e : FileEntry) (hits : FileTrigramHits),
      idx.files[f]? = some e → e.deleted = true →
      idx.fileTrigrams[f]? = some hits → hits = [])
    (hnodup : ((activeEntries idx.files).map FileEntry.path).Nodup) :
    RepInv idx where
  lengths := hlengths
  sorted t l hl := (htidy t (by simp) l hl).1
  nonempty t l hl := (htidy t (by simp) l hl).2
  inRange t p hp := by
    obtain ⟨hits, hhits, -⟩ := (hmirrors t p).mp hp
    rw [← hlengths]
    exact (List.getElem?_eq_some_iff.mp hhits).1
  mirror f hits hhits t n := by
    have hf : f < 2 ^ 32 := by
      have := (List.getElem?_eq_some_iff.mp hhits).1
      omega
    constructor
    · intro hmem
      refine ⟨⟨UInt32.ofNat f, n⟩, ?_, fileId_toNat hf, rfl⟩
      rw [hmirrors]
      simp only [fileId_toNat hf]
      exact ⟨hits, hhits, hmem⟩
    · rintro ⟨p, hp, rfl, rfl⟩
      obtain ⟨hits', hhits', hmem⟩ := (hmirrors t p).mp hp
      rw [hhits] at hhits'
      cases hhits'
      exact hmem
  tombstones t p hp e he := by
    obtain ⟨hits, hhits, hmem⟩ := (hmirrors t p).mp hp
    by_contra hdel
    rw [htomb _ e hits he (by simpa using hdel) hhits] at hmem
    cases hmem
  activeNodup := hnodup

end Index
end TensorGrep
