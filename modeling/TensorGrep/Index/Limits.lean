import TensorGrep.Index.FlatTree
import TensorGrep.Index.Maintenance

/-!
# Where the 32-bit counts end

Exact statements about incremental maintenance and about the file format, with
the inputs on which they stop to hold.

`uniformTree a b` is a directory of `a` files with `b` identical lines each.
Its index has one posting list, of length `a * b`.  With 2048 files of eight
megabytes the list has `2 ^ 32` elements, its length is written as zero, and
loading the saved index loses all postings without an error.
-/

namespace TensorGrep
namespace Index

open Kernel

/-! ## Directories of identical files -/

/-- Names of files, one for every number. -/
def numberName (i : Nat) : Text :=
  (Nat.digits 10 (i + 1)).map (fun d => Char.ofNat (48 + d))

theorem toNat_digitChar
    {d : Nat}
    (h : d < 10) :
    (Char.ofNat (48 + d)).toNat = 48 + d := by
  have hv : (48 + d).isValidChar := Or.inl (by omega)
  rw [Char.ofNat, dif_pos hv]
  rfl

theorem numberName_injective :
    Function.Injective numberName := by
  have hleft : ∀ i, (numberName i).map (fun c => c.toNat - 48) = Nat.digits 10 (i + 1) := by
    intro i
    unfold numberName
    rw [List.map_map]
    calc
      (Nat.digits 10 (i + 1)).map _ = (Nat.digits 10 (i + 1)).map id := by
        apply List.map_congr_left
        intro d hd
        have hlt := Nat.digits_lt_base (by omega) hd
        simp [toNat_digitChar hlt]
      _ = Nat.digits 10 (i + 1) := List.map_id _
  intro i j h
  have hdigits := hleft i
  rw [h, hleft j] at hdigits
  have := Nat.digits_inj_iff.mp hdigits
  omega

theorem length_utf8_numberName
    (i : Nat) :
    (utf8 (numberName i)).length ≤ i + 2 := by
  have hascii : IsAsciiText (numberName i) := by
    intro c hc
    obtain ⟨d, hd, rfl⟩ := List.mem_map.mp hc
    have hlt := Nat.digits_lt_base (by omega) hd
    unfold IsAscii
    rw [toNat_digitChar hlt]
    omega
  rw [utf8_length_of_isAsciiText hascii]
  unfold numberName
  rw [List.length_map, Nat.length_digits 10 (i + 1) (by omega) (by omega)]
  have := Nat.log_le_self 10 (i + 1)
  omega

theorem flatNames_numberName
    (a : Nat) :
    FlatNames ((List.range a).map numberName) := by
  refine ⟨List.nodup_range.map numberName_injective, ?_⟩
  intro n hn
  obtain ⟨i, -, rfl⟩ := List.mem_map.mp hn
  have hchar : ∀ c ∈ numberName i, 48 ≤ c.toNat := by
    intro c hc
    obtain ⟨d, hd, rfl⟩ := List.mem_map.mp hc
    rw [toNat_digitChar (Nat.digits_lt_base (by omega) hd)]
    omega
  refine ⟨?_, ?_, ?_⟩
  · intro hnil
    have hdigits := List.map_eq_nil_iff.mp hnil
    rw [Nat.digits_eq_nil_iff_eq_zero] at hdigits
    omega
  · intro hslash
    exact absurd (hchar '/' hslash) (by decide)
  · intro hdots
    exact absurd (hchar '.' (hdots ▸ by simp)) (by decide)

/-- The bytes of `b` lines `aaa`. -/
def uniformContent (b : Nat) : Bytes :=
  (List.replicate b [97, 97, 97, 10]).flatten

theorem length_uniformContent
    (b : Nat) :
    (uniformContent b).length = 4 * b := by
  unfold uniformContent
  simp [Nat.mul_comm]

/-- A file with `b` lines `aaa`. -/
def uniformFile
    (b : Nat)
    (hb : 4 * b ≤ maxIndexedBytes) : RegularFile where
  modified := epoch
  content := uniformContent b
  readable := true
  bounded := by
    rw [length_uniformContent]
    unfold maxIndexedBytes at hb
    omega

/-- `a` files with `b` lines `aaa` each. -/
def uniformFiles
    (a b : Nat)
    (hb : 4 * b ≤ maxIndexedBytes) : FlatFiles :=
  (List.range a).map (fun i => (numberName i, uniformFile b hb))

theorem flatNames_uniformFiles
    (a b : Nat)
    (hb : 4 * b ≤ maxIndexedBytes) :
    FlatNames ((uniformFiles a b hb).map Prod.fst) := by
  unfold uniformFiles
  rw [List.map_map]
  exact flatNames_numberName a

/-- The directory of `a` files with `b` lines `aaa` each. -/
def uniformTree
    (a b : Nat)
    (hb : 4 * b ≤ maxIndexedBytes) : Tree :=
  flatTree (uniformFiles a b hb) (flatNames_uniformFiles a b hb)

/-- The trigram `aaa`. -/
def aaa : Trigram := (97, 97, 97)

theorem splitOn_uniformContent
    (b : Nat) :
    (uniformContent b).splitOn 10 = List.replicate b [97, 97, 97] ++ [[]] := by
  induction b with
  | zero => rfl
  | succ b ih =>
      have hcons : uniformContent (b + 1) = [97, 97, 97] ++ (10 :: uniformContent b) := by
        simp [uniformContent, List.replicate_succ]
      rw [hcons, splitOn_append_of_not_mem (by decide), splitOn_cons_sep, ih]
      simp [List.replicate_succ]

theorem mem_extractContent_uniform
    {b : Nat}
    (hb : 4 * b ≤ maxIndexedBytes)
    {t : Trigram}
    {n : UInt32} :
    (t, n) ∈ extractContent (uniformContent b) ↔
      t = aaa ∧ 1 ≤ n.toNat ∧ n.toNat ≤ b := by
  have hlines : indexedLines (uniformContent b) =
      List.replicate b [97, 97, 97] ++ [[]] := by
    unfold indexedLines
    rw [splitOn_uniformContent, List.map_append, List.map_replicate]
    rfl
  have htri : lineTrigrams [97, 97, 97] = [aaa] := by decide
  have hb32 : b + 1 < 2 ^ 32 := by
    unfold maxIndexedBytes at hb
    omega
  rw [mem_extractContent, hlines, length_uniformContent]
  constructor
  · rintro ⟨-, -, i, line, hline, ht, rfl⟩
    rcases Nat.lt_or_ge i b with hi | hi
    · rw [List.getElem?_append_left (by simpa using hi),
        List.getElem?_replicate_of_lt hi] at hline
      cases hline
      rw [htri, List.mem_singleton] at ht
      rw [fileId_toNat (by omega)]
      exact ⟨ht, by omega, by omega⟩
    · rw [List.getElem?_append_right (by simpa using hi)] at hline
      have hmem := List.mem_of_getElem? hline
      rw [List.mem_singleton] at hmem
      subst hmem
      cases ht
  · rintro ⟨rfl, hpos, hle⟩
    refine ⟨by omega, hb, n.toNat - 1, [97, 97, 97], ?_, ?_, ?_⟩
    · rw [List.getElem?_append_left (by simp; omega),
        List.getElem?_replicate_of_lt (by omega)]
    · rw [htri]
      simp
    · rw [Nat.sub_add_cancel hpos, UInt32.ofNat_toNat]

theorem filterMap_flatEntry_uniform
    (a b : Nat)
    (hb : 4 * b ≤ maxIndexedBytes) :
    (uniformFiles a b hb).filterMap flatEntry =
      (List.range a).map (fun i =>
        ⟨numberName i, 0#128, UInt64.ofNat (uniformContent b).length, false⟩) := by
  unfold uniformFiles
  rw [List.filterMap_map, ← List.filterMap_eq_map]
  rfl

theorem length_walk_uniform
    (a b : Nat)
    (hb : 4 * b ≤ maxIndexedBytes)
    (m : Bool) :
    ((uniformTree a b hb).walk m).length = a := by
  change ((uniformFiles a b hb).map (fun f => utf8 f.1)).length = a
  simp [uniformFiles]

section Uniform

variable {digest : Bytes → UInt64} {a b : Nat} {hb : 4 * b ≤ maxIndexedBytes}
  {m : Bool} {idx : TrigramIndex}

/-- The index of a directory of identical files posts every line of every file. -/
theorem mem_get_uniform
    (hbuild : buildWithOptions digest (uniformTree a b hb) m
      ((uniformTree a b hb).walkRun m) = .ok idx)
    (ha : a ≤ 2 ^ 32)
    (hroot : idx.canonicalRoot = flatRoot)
    (hfiles : idx.files = (uniformFiles a b hb).filterMap flatEntry)
    {t : Trigram}
    {p : PostingEntry} :
    p ∈ idx.postings.get t ↔
      t = aaa ∧ p.fileId.toNat < a ∧ 1 ≤ p.line.toNat ∧ p.line.toNat ≤ b := by
  have hlen : idx.files.length = a := by
    rw [hfiles, filterMap_flatEntry_uniform]
    simp
  obtain ⟨htri, hmirrors⟩ := build_fileTrigrams hbuild (hlen.trans_le ha)
  rw [hmirrors t p, htri, List.getElem?_map, hfiles, filterMap_flatEntry_uniform,
    List.getElem?_map]
  have hhits : ∀ i < a, pathHits (uniformTree a b hb) idx.canonicalRoot (numberName i) =
      extractContent (uniformContent b) := by
    intro i hi
    rw [hroot]
    exact pathHits_flatTree (flatNames_uniformFiles a b hb)
      (f := (numberName i, uniformFile b hb))
      (List.mem_map.mpr ⟨i, List.mem_range.mpr hi, rfl⟩) rfl
  rcases Nat.lt_or_ge p.fileId.toNat a with hlt | hge
  · rw [List.getElem?_range hlt]
    simp only [Option.map_some, Option.some.injEq, exists_eq_left', hhits _ hlt,
      mem_extractContent_uniform hb]
    tauto
  · rw [List.getElem?_eq_none (by simpa using hge)]
    simp [Nat.not_lt.mpr hge]

/-- Its only posting list has one element for every line of every file. -/
theorem length_get_uniform
    (hbuild : buildWithOptions digest (uniformTree a b hb) m
      ((uniformTree a b hb).walkRun m) = .ok idx)
    (ha : a ≤ 2 ^ 32)
    (hroot : idx.canonicalRoot = flatRoot)
    (hfiles : idx.files = (uniformFiles a b hb).filterMap flatEntry)
    (hinv : RepInv idx) :
    (idx.postings.get aaa).length = a * b := by
  have hb32 : b < 2 ^ 32 := by
    unfold maxIndexedBytes at hb
    omega
  have hnodup : (idx.postings.get aaa).Nodup := by
    unfold MultiMap.get
    cases hl : idx.postings.lookup aaa with
    | none => exact List.nodup_nil
    | some l => exact nodup_of_pairwise_key_lt (hinv.sorted aaa l hl)
  have himage : (idx.postings.get aaa).toFinset =
      ((Finset.range a) ×ˢ (Finset.Icc 1 b)).image
        (fun x => (⟨UInt32.ofNat x.1, UInt32.ofNat x.2⟩ : PostingEntry)) := by
    ext p
    rw [List.mem_toFinset, mem_get_uniform hbuild ha hroot hfiles, Finset.mem_image]
    constructor
    · rintro ⟨-, hf, hpos, hle⟩
      refine ⟨(p.fileId.toNat, p.line.toNat), ?_, ?_⟩
      · simp [hf, hpos, hle]
      · simp
    · rintro ⟨⟨f, n⟩, hx, rfl⟩
      simp only [Finset.mem_product, Finset.mem_range, Finset.mem_Icc] at hx
      simp only [fileId_toNat (show f < 2 ^ 32 by omega),
        fileId_toNat (show n < 2 ^ 32 by omega)]
      exact ⟨trivial, hx.1, hx.2.1, hx.2.2⟩
  rw [← List.toFinset_card_of_nodup hnodup, himage, Finset.card_image_of_injOn,
    Finset.card_product, Finset.card_range, Nat.card_Icc, Nat.add_sub_cancel]
  rintro ⟨f, n⟩ hx ⟨g, k⟩ hy h
  simp only [Finset.coe_product, Set.mem_prod, Finset.mem_coe, Finset.mem_range,
    Finset.mem_Icc] at hx hy
  simp only [PostingEntry.mk.injEq] at h
  have hf := congrArg UInt32.toNat h.1
  have hn := congrArg UInt32.toNat h.2
  rw [fileId_toNat (by omega), fileId_toNat (by omega)] at hf hn
  rw [hf, hn]

end Uniform

/-- The directory of 2048 files of eight megabytes. -/
def largeTree : Tree :=
  uniformTree 2048 (2 ^ 21) (by decide)

/-- What is known of the index of `largeTree`. -/
theorem exists_build_largeTree
    (digest : Bytes → UInt64) :
    ∃ idx, buildWithOptions digest largeTree false (largeTree.walkRun false) = .ok idx ∧
      Refines ⟨largeTree, false, idx⟩ ∧ idx.files.length = 2048 ∧
      (∀ e ∈ idx.files, (utf8 e.path).length < 2 ^ 32) ∧
      idx.canonicalRoot = flatRoot ∧ (idx.postings.get aaa).length = 2 ^ 32 ∧
      ∀ t, t ≠ aaa → idx.postings.get t = [] := by
  obtain ⟨idx, hbuild, hroot, hfiles⟩ := exists_build_flatTree
    (flatNames_uniformFiles 2048 (2 ^ 21) (by decide)) digest false
  have hlen : idx.files.length = 2048 := by
    rw [hfiles, filterMap_flatEntry_uniform]
    simp
  have hfits : (largeTree.walk false).countP
      (offered largeTree (largeTree.canonical.getD [])) ≤ 2 ^ 32 := by
    refine le_trans List.countP_le_length ?_
    rw [largeTree, length_walk_uniform]
    norm_num
  have hrefines : Refines ⟨largeTree, false, idx⟩ := refines_build hfits hbuild
  refine ⟨idx, hbuild, hrefines, hlen, ?_, hroot, ?_, ?_⟩
  · intro e he
    rw [hfiles, filterMap_flatEntry_uniform] at he
    obtain ⟨i, hi, rfl⟩ := List.mem_map.mp he
    have hi' := List.mem_range.mp hi
    have hle := length_utf8_numberName i
    simp only
    omega
  · rw [length_get_uniform hbuild (by norm_num) hroot hfiles hrefines.repInv]
    norm_num
  · intro t ht
    rw [List.eq_nil_iff_forall_not_mem]
    intro p hp
    exact ht ((mem_get_uniform hbuild (by norm_num) hroot hfiles).mp hp).1

/-! ## The file format -/

/-- An index survives writing and reading exactly when its counts fit in 32 bits, and
reading is safe on every byte string: it never panics, and an index it returns is
sorted, in range, confined, and survives writing and reading. -/
theorem bincode_exact
    (idx : TrigramIndex)
    (data : Bytes) :
    (WireInv idx → (RoundTrips idx ↔ WireBounds idx)) ∧
      match bincodeDeserialize data with
      | .ok idx =>
          (∀ t l, idx.postings.lookup t = some l →
            l.Pairwise (fun a b => a.key ≤ b.key)) ∧
          (∀ t, ∀ p ∈ idx.postings.get t, p.fileId.toNat < idx.files.length) ∧
          (∀ e ∈ idx.files, Confined e.path) ∧ RoundTrips idx
      | .error _ => True
      | .panicked => False := by
  refine ⟨roundTrips_iff, ?_⟩
  have hsound := bincodeDeserialize_sound data
  cases hres : bincodeDeserialize data with
  | ok idx =>
      rw [hres] at hsound
      obtain ⟨hinv, hbounds⟩ := hsound
      exact ⟨hinv.sorted, hinv.inRange, hinv.confined,
        roundTrips_of_wireBounds hinv hbounds⟩
  | error e => trivial
  | panicked =>
      rw [hres] at hsound
      exact hsound

/-- The index of 2048 files of eight megabytes does not survive writing and reading. -/
theorem largeTree_not_roundTrips :
    ∃ idx, buildWithOptions (fun _ => 0) largeTree false (largeTree.walkRun false) =
        .ok idx ∧ WireInv idx ∧ ¬ RoundTrips idx := by
  obtain ⟨idx, hbuild, hrefines, -, -, -, hlen, -⟩ := exists_build_largeTree (fun _ => 0)
  have hinv := wireInv_of_repInv hrefines.repInv hrefines.confined
  refine ⟨idx, hbuild, hinv, ?_⟩
  rw [roundTrips_iff hinv]
  intro hbounds
  unfold MultiMap.get at hlen
  cases hl : idx.postings.lookup aaa with
  | none =>
      rw [hl] at hlen
      simp at hlen
  | some l =>
      rw [hl] at hlen
      have := hbounds.lists aaa l hl
      simp only [Option.getD_some] at hlen
      omega

/-! ## Saving and loading an index with a long posting list -/

/-- A map whose other posting lists are absent has one entry. -/
theorem entries_eq_singleton
    {postings : Postings}
    {t : Trigram}
    {l : List PostingEntry}
    (hl : postings.lookup t = some l)
    (hother : ∀ t', t' ≠ t → postings.lookup t' = none) :
    postings.entries = [⟨t, l⟩] := by
  have hmem := MultiMap.mem_entries_iff.mpr hl
  have hall : ∀ e ∈ postings.entries, e = ⟨t, l⟩ := by
    rintro ⟨t', l'⟩ he
    have hlk := MultiMap.mem_entries_iff.mp he
    by_cases ht : t' = t
    · subst ht
      rw [hl] at hlk
      cases hlk
      rfl
    · rw [hother t' ht] at hlk
      cases hlk
  have hnodup : postings.entries.Nodup := List.NodupKeys.nodup postings.nodupKeys
  match hes : postings.entries with
  | [] =>
      rw [hes] at hmem
      cases hmem
  | [e] =>
      rw [hall e (by rw [hes]; simp)]
  | e :: e' :: es =>
      rw [hes] at hnodup
      have he := hall e (by rw [hes]; simp)
      have he' := hall e' (by rw [hes]; simp)
      rw [he, he'] at hnodup
      simp at hnodup

/-- A posting list of `2 ^ 32` elements is loaded as the empty list. -/
theorem exists_reload_empty
    {idx : TrigramIndex}
    {t : Trigram}
    {l : List PostingEntry}
    (hinv : WireInv idx)
    (hroot : (utf8 idx.canonicalRoot).length < 2 ^ 32)
    (hfiles : idx.files.length < 2 ^ 32)
    (hpaths : ∀ e ∈ idx.files, (utf8 e.path).length < 2 ^ 32)
    (hl : idx.postings.lookup t = some l)
    (hother : ∀ t', t' ≠ t → idx.postings.lookup t' = none)
    (hlen : l.length = 2 ^ 32) :
    ∃ bytes idx', bincodeSerialize idx = .ok bytes ∧
      bincodeDeserialize bytes = .ok idx' ∧ idx'.postings.lookup t = some [] := by
  -- the bytes begin with those of the same index with an empty posting list
  let idx₀ : TrigramIndex := {
    root := idx.root
    canonicalRoot := idx.canonicalRoot
    treeFingerprint := idx.treeFingerprint
    files := idx.files
    fileTrigrams := List.replicate idx.files.length []
    postings := (∅ : Postings).insert t []
    noIgnore := idx.noIgnore }
  have hlookup : ∀ t', idx₀.postings.lookup t' = if t' = t then some [] else none := by
    intro t'
    by_cases ht : t' = t
    · subst ht
      rw [if_pos rfl]
      exact AList.lookup_insert ∅
    · rw [if_neg ht]
      exact (AList.lookup_insert_ne ht).trans (AList.lookup_empty t')
  have hget : ∀ t', idx₀.postings.get t' = [] := by
    intro t'
    unfold MultiMap.get
    rw [hlookup]
    split_ifs <;> rfl
  have hinv₀ : WireInv idx₀ := {
    confined := hinv.confined
    sorted := by
      intro t' l' hl'
      rw [hlookup] at hl'
      split_ifs at hl'
      cases hl'
      exact List.Pairwise.nil
    inRange := by
      intro t' p hp
      rw [hget] at hp
      cases hp
    lengths := List.length_replicate
    mirror := by
      intro f t' n
      rw [hget]
      constructor
      · rintro ⟨hits, hhits, hmem⟩
        rw [List.eq_of_mem_replicate (List.mem_of_getElem? hhits)] at hmem
        cases hmem
      · rintro ⟨p, hp, -⟩
        cases hp }
  have hbounds₀ : WireBounds idx₀ := {
    root := hroot
    files := hfiles
    paths := hpaths
    lists := by
      intro t' l' hl'
      rw [hlookup] at hl'
      split_ifs at hl'
      cases hl'
      norm_num }
  obtain ⟨bytes₀, idx', hwrite₀, hsame, hread⟩ :=
    exists_bincodeDeserialize_append hinv₀ hbounds₀
  obtain ⟨body, hbody⟩ := exists_writePostings (hinv.sorted t l hl) (c := Cursor.start)
    (Or.inl rfl)
  have hcount : countBytes l.length = countBytes 0 := by
    unfold countBytes
    rw [hlen]
    rfl
  have hentries₀ : idx₀.postings.entries = [⟨t, []⟩] := rfl
  have hlists₀ : idx₀.postings.entries.mapM postingListBytes =
      .ok [trigramBytes t ++ (countBytes 0 ++ [])] := by
    rw [hentries₀]
    rfl
  have hlists : idx.postings.entries.mapM postingListBytes =
      .ok [trigramBytes t ++ (countBytes 0 ++ body)] := by
    rw [entries_eq_singleton hl hother, mapM_eq_ok_iff]
    refine List.Forall₂.cons ?_ List.Forall₂.nil
    refine bind_eq_ok_iff.mpr ⟨body, hbody, ?_⟩
    simp only
    rw [hcount]
  have hwrite : bincodeSerialize idx = .ok (bytes₀ ++ body) := by
    unfold bincodeSerialize at hwrite₀ ⊢
    rw [hlists₀, hentries₀] at hwrite₀
    rw [hlists, entries_eq_singleton hl hother]
    cases hwrite₀
    refine congrArg Except.ok ?_
    simp [idx₀]
  refine ⟨_, idx', hwrite, hread body, ?_⟩
  rw [hsame.postings, hlookup, if_pos rfl]

/-! ## Maintenance -/

/-- Two directories of plain files differ visibly when their files do. -/
theorem visibleEdits_flatTree
    {files files' : FlatFiles}
    (hnames : FlatNames (files.map Prod.fst))
    (hnames' : FlatNames (files'.map Prod.fst))
    (h : ∀ f ∈ files, ∀ f' ∈ files', f'.1 = f.1 →
      f'.2.modified.ns = f.2.modified.ns →
      f'.2.content.length = f.2.content.length →
      f'.2.content = f.2.content ∧ f'.2.readable = f.2.readable) :
    VisibleEdits (flatTree files hnames) (flatTree files' hnames') where
  sameRoot := rfl
  visible path f f' hf hf' htime hsize := by
    obtain ⟨n, hn, hpath⟩ := flatStat_file hf
    obtain ⟨n', hn', hpath'⟩ := flatStat_file hf'
    have hslash := (hnames.2 n (List.mem_map_of_mem hn)).2.1
    have hslash' := (hnames'.2 n' (List.mem_map_of_mem hn')).2.1
    have hname : n' = n := utf8_injective (joinPath_injective
      (head?_utf8_ne_slash hslash') (head?_utf8_ne_slash hslash)
      (hpath'.symm.trans hpath))
    exact h (n, f) hn (n', f') hn' hname htime hsize

/-- Within 32 bits and under visible edits, an index that has been built, rebuilt, saved
and loaded in any order satisfies the representation invariant and has the catalog
of a new build of its tree. -/
theorem maintenance_refines_build
    {digest : Bytes → UInt64}
    {s : Maintained}
    (h : (maintenance digest).Reachable
      (fun s op => EditsVisible s op ∧ Fits32 s op) (some s)) :
    RepInv s.index ∧
      ∀ w : WalkRun s.tree s.noIgnore,
        ∃ b, buildWithOptions digest s.tree s.noIgnore w = .ok b ∧
          s.index.catalog = b.catalog :=
  ⟨(reachable_refines h).repInv, (reachable_refines h).eq_build⟩

/-- An index of `fooTree`, rebuilt against `grownTree`. -/
theorem maintenance_refines_build_grownTree :
    ∃ s : Maintained, s.tree = grownTree ∧ RepInv s.index ∧
      ∀ w : WalkRun s.tree s.noIgnore,
        ∃ b, buildWithOptions (fun _ => 0) s.tree s.noIgnore w = .ok b ∧
          s.index.catalog = b.catalog := by
  obtain ⟨idx, hbuild, -, hfiles⟩ := exists_build_flatTree
    flatNames_fooFiles (fun _ => 0) false
  obtain ⟨r, hrebuild⟩ := exists_rebuild (w := grownTree.walkRun true) (fun _ => 0) idx rfl
    (currentEntries_flatTree flatNames_grownFiles)
  have hlen : idx.files.length = 1 := by
    rw [hfiles]
    rfl
  have hedit : VisibleEdits fooTree grownTree := by
    apply visibleEdits_flatTree
    intro f hf f' hf' hname _ hsize
    simp only [fooFiles, grownFiles, List.mem_cons, List.not_mem_nil, or_false] at hf hf'
    subst hf
    rcases hf' with rfl | rfl
    · simp [plainFile] at hsize
    · simp at hname
  have hreach₀ : (maintenance (fun _ => 0)).Reachable
      (fun s op => EditsVisible s op ∧ Fits32 s op) (some ⟨fooTree, false, idx⟩) :=
    .next (.start rfl) ⟨trivial, le_trans List.countP_le_length (by decide)⟩ (.build hbuild)
  have hreach : (maintenance (fun _ => 0)).Reachable
      (fun s op => EditsVisible s op ∧ Fits32 s op) (some ⟨grownTree, true, r.index⟩) := by
    refine .next (l := .rebuild grownTree true _) hreach₀ ⟨hedit, ?_⟩ (.rebuild hrebuild)
    refine le_trans (Nat.add_le_add (Nat.le_of_eq hlen) List.countP_le_length) ?_
    decide
  exact ⟨_, rfl, maintenance_refines_build hreach⟩

/-- Saving and loading the index of `largeTree` breaks the representation invariant. -/
theorem largeTree_reload_breaks_invariant :
    ∃ s : Maintained, (maintenance (fun _ => 0)).Reachable EditsVisible (some s) ∧
      ¬ RepInv s.index := by
  obtain ⟨idx, hbuild, hrefines, hfiles, hpaths, hroot, hlen, hother⟩ :=
    exists_build_largeTree (fun _ => 0)
  have hlookup : ∃ l, idx.postings.lookup aaa = some l ∧ l.length = 2 ^ 32 := by
    unfold MultiMap.get at hlen
    cases hl : idx.postings.lookup aaa with
    | none =>
        rw [hl] at hlen
        simp at hlen
    | some l =>
        rw [hl, Option.getD_some] at hlen
        exact ⟨l, rfl, hlen⟩
  obtain ⟨l, hl, hcount⟩ := hlookup
  have habsent : ∀ t, t ≠ aaa → idx.postings.lookup t = none := by
    intro t ht
    cases hlt : idx.postings.lookup t with
    | none => rfl
    | some l' =>
        refine absurd ?_ (hrefines.repInv.nonempty t l' hlt)
        rw [← MultiMap.get_eq_of_lookup hlt]
        exact hother t ht
  have hrootlen : (utf8 idx.canonicalRoot).length < 2 ^ 32 := by
    rw [hroot]
    decide
  have hfileslen : idx.files.length < 2 ^ 32 := by
    rw [hfiles]
    norm_num
  obtain ⟨bytes, idx', hwrite, hread, hempty⟩ := exists_reload_empty
    (wireInv_of_repInv hrefines.repInv hrefines.confined) hrootlen hfileslen hpaths hl
    habsent hcount
  refine ⟨⟨largeTree, false, idx'⟩,
    .next (l := .reload) (.next (.start rfl) trivial (.build hbuild)) trivial
      (.reload hwrite hread), ?_⟩
  intro hinv
  exact hinv.nonempty aaa [] hempty rfl

end Index
end TensorGrep
