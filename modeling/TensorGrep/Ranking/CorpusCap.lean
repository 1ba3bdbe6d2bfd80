import TensorGrep.Ranking.Chunks

/-!
# The chunk cap of a ranking corpus

The files of a search are chunked one after another until there are more chunks than a
cap allows.  The chunks of the file that passes the cap are already in the corpus when
the cap is looked at.
-/

namespace TensorGrep
namespace Ranking

open Kernel

/-- `_int_env`, where `int` is the conversion and `raw` is the variable if it is set. -/
def intEnv
    (int : Text → Option Int)
    (raw : Option Text)
    (default : Int) : Int :=
  match raw with
  | none => default
  | some raw => (int raw).getD default

/-- `_rank_corpus_chunk_cap`, where `raw` is `TG_RANK_CORPUS_CHUNK_CAP`. -/
def rankCorpusChunkCap
    (int : Text → Option Int)
    (raw : Option Text) : Nat :=
  if 0 < intEnv int raw maxChunks then (intEnv int raw maxChunks).toNat else maxChunks

/-- The reason that is given when the cap is passed. -/
def corpusCapReason (cap chunkedFileCount fileCount : Nat) : String :=
  "bm25 rank corpus cap reached (" ++ toString cap ++ " chunks over " ++
    toString chunkedFileCount ++ " of " ++ toString fileCount ++
    " matched files); ranking covers the first " ++ toString chunkedFileCount ++
    " files, remaining matches keep grep order"

section Corpus

variable {File Error Piece : Type} (chunkFile : File → Except Error (List Piece))

/-- The loop over the files, with the chunks and the number of files so far. -/
def chunkCorpusLoop
    (cap fileCount : Nat)
    (chunks : List Piece)
    (chunkedFileCount : Nat) : List File → Except Error (List Piece × Option String)
  | [] => .ok (chunks, none)
  | path :: rest =>
      match chunkFile path with
      | .error error => .error error
      | .ok made =>
          if cap < (chunks ++ made).length then
            .ok (chunks ++ made,
              some (corpusCapReason cap (chunkedFileCount + 1) fileCount))
          else chunkCorpusLoop cap fileCount (chunks ++ made) (chunkedFileCount + 1) rest

/-- `_chunk_corpus_with_total_cap`: the chunks and the fallback reason. -/
def chunkCorpusWithTotalCap
    (int : Text → Option Int)
    (raw : Option Text)
    (filePaths : List File) : Except Error (List Piece × Option String) :=
  chunkCorpusLoop chunkFile (rankCorpusChunkCap int raw) filePaths.length [] 0 filePaths

end Corpus

/-! ## Where the loop stops -/

section Stops

variable {File Error Piece : Type} {chunkFile : File → Except Error (List Piece)} {cap : Nat}
variable {chunksOf : File → List Piece} {files : List File}

/-- Files whose chunks are within the cap are all chunked. -/
theorem chunkCorpusLoop_of_le
    (hchunks : ∀ file ∈ files, chunkFile file = .ok (chunksOf file))
    (fileCount : Nat)
    (chunks : List Piece)
    (made : Nat)
    (h : (chunks ++ files.flatMap chunksOf).length ≤ cap) :
    chunkCorpusLoop chunkFile cap fileCount chunks made files =
      .ok (chunks ++ files.flatMap chunksOf, none) := by
  induction files generalizing chunks made with
  | nil => rw [chunkCorpusLoop, List.flatMap_nil, List.append_nil]
  | cons file rest ih =>
      rw [List.flatMap_cons, ← List.append_assoc] at h ⊢
      have hfits : ¬ cap < (chunks ++ chunksOf file).length := by
        rw [List.length_append] at h
        omega
      rw [chunkCorpusLoop, hchunks file List.mem_cons_self]
      simp only [if_neg hfits]
      exact ih (fun f hf => hchunks f (List.mem_cons_of_mem file hf)) _ (made + 1) h

/-- Files whose chunks are more than the cap are chunked up to the one that passes it. -/
theorem exists_chunkCorpusLoop_of_lt
    (hchunks : ∀ file ∈ files, chunkFile file = .ok (chunksOf file))
    (fileCount : Nat)
    (chunks : List Piece)
    (made : Nat)
    (hle : chunks.length ≤ cap)
    (h : cap < (chunks ++ files.flatMap chunksOf).length) :
    ∃ before file after, files = before ++ file :: after ∧
      (chunks ++ before.flatMap chunksOf).length ≤ cap ∧
      cap < (chunks ++ (before ++ [file]).flatMap chunksOf).length ∧
      chunkCorpusLoop chunkFile cap fileCount chunks made files =
        .ok (chunks ++ (before ++ [file]).flatMap chunksOf,
          some (corpusCapReason cap (made + before.length + 1) fileCount)) := by
  induction files generalizing chunks made with
  | nil =>
      rw [List.flatMap_nil, List.append_nil] at h
      omega
  | cons file rest ih =>
      have hfile := hchunks file List.mem_cons_self
      by_cases hcut : cap < (chunks ++ chunksOf file).length
      · refine ⟨[], file, rest, rfl, ?_, ?_, ?_⟩
        · simpa using hle
        · simpa using hcut
        · rw [chunkCorpusLoop, hfile]
          simp only [if_pos hcut, List.nil_append, List.flatMap_singleton, List.length_nil,
            Nat.add_zero]
      · rw [List.flatMap_cons, ← List.append_assoc] at h
        obtain ⟨before, last, after, rfl, hwithin, hpassed, hstop⟩ :=
          ih (fun f hf => hchunks f (List.mem_cons_of_mem file hf)) _ (made + 1)
            (not_lt.mp hcut) h
        refine ⟨file :: before, last, after, rfl, ?_, ?_, ?_⟩
        · rwa [List.flatMap_cons, ← List.append_assoc]
        · rwa [List.cons_append, List.flatMap_cons, ← List.append_assoc]
        · rw [chunkCorpusLoop, hfile]
          simp only [if_neg hcut, hstop, List.cons_append, List.flatMap_cons, List.append_assoc,
            List.length_cons]
          rw [Nat.add_right_comm made 1, Nat.add_assoc made]

end Stops

/-! ## The cap and the longest beginning within it -/

section Honest

variable {File Error Piece : Type} {chunkFile : File → Except Error (List Piece)} {cap : Nat}
variable {chunksOf : File → List Piece} {files : List File}

/-- So many first files have no more chunks than the cap, or are one file that has. -/
def WithinCap
    (chunksOf : File → List Piece)
    (cap : Nat)
    (files : List File)
    (count : Nat) : Prop :=
  ((files.take count).flatMap chunksOf).length ≤ cap ∨
    (count = 1 ∧ cap < ((files.take 1).flatMap chunksOf).length)

/-- The chunks of the longest beginning of the files within the cap, with a reason exactly
if a file is left out. -/
def HonestCap
    (chunksOf : File → List Piece)
    (cap : Nat)
    (files : List File)
    (result : List Piece × Option String) : Prop :=
  ∃ count ≤ files.length,
    result.1 = (files.take count).flatMap chunksOf ∧
    WithinCap chunksOf cap files count ∧
    (∀ other ≤ files.length, WithinCap chunksOf cap files other → other ≤ count) ∧
    (result.2 = none ↔ count = files.length)

/-- More files have no fewer chunks. -/
theorem length_flatMap_take_le
    (chunksOf : File → List Piece)
    (files : List File)
    {m n : Nat}
    (h : m ≤ n) :
    ((files.take m).flatMap chunksOf).length ≤ ((files.take n).flatMap chunksOf).length :=
  (List.Sublist.flatMap (List.take_sublist_take_left h) chunksOf).length_le

/-- If the first file passes the cap, no file is in front of the one that does. -/
theorem eq_nil_of_first_passes
    {before after : List File}
    {file : File}
    (hwithin : (before.flatMap chunksOf).length ≤ cap)
    (hfirst : cap < (((before ++ file :: after).take 1).flatMap chunksOf).length) :
    before = [] := by
  by_contra hne
  have hpos : 1 ≤ before.length := List.length_pos_iff.mpr hne
  have hle := length_flatMap_take_le chunksOf before hpos
  rw [List.take_length] at hle
  rw [List.take_append_of_le_length hpos] at hfirst
  omega

/-- The cap is honest exactly if the files are within it, or the first of several files
passes it. -/
theorem chunkCorpus_honest_iff
    (int : Text → Option Int)
    (raw : Option Text)
    (hchunks : ∀ file ∈ files, chunkFile file = .ok (chunksOf file)) :
    (∃ result, chunkCorpusWithTotalCap chunkFile int raw files = .ok result ∧
        HonestCap chunksOf (rankCorpusChunkCap int raw) files result) ↔
      (files.flatMap chunksOf).length ≤ rankCorpusChunkCap int raw ∨
        (2 ≤ files.length ∧
          rankCorpusChunkCap int raw < ((files.take 1).flatMap chunksOf).length) := by
  rw [chunkCorpusWithTotalCap]
  generalize rankCorpusChunkCap int raw = cap
  by_cases htotal : (files.flatMap chunksOf).length ≤ cap
  · rw [chunkCorpusLoop_of_le hchunks files.length [] 0 htotal]
    refine iff_of_true ⟨_, rfl, files.length, le_rfl, ?_, ?_, fun _ h _ => h, ?_⟩ (.inl htotal)
    · rw [List.take_length, List.nil_append]
    · rw [WithinCap, List.take_length]
      exact .inl htotal
    · exact iff_of_true rfl rfl
  · obtain ⟨before, file, after, rfl, hwithin, hpassed, hstop⟩ :=
      exists_chunkCorpusLoop_of_lt hchunks files.length [] 0 (Nat.zero_le cap) (not_le.mp htotal)
    rw [List.nil_append] at hwithin hpassed
    rw [hstop, List.nil_append]
    constructor
    · rintro ⟨_, hresult, count, hcount, hchunked, hadmitted, -, hreason⟩
      obtain rfl := Except.ok.inj hresult
      rcases hadmitted with hle | ⟨rfl, hfirst⟩
      · rw [← hchunked] at hle
        exact absurd hle (not_le.mpr hpassed)
      · -- a reason is given, so the first file is not all
        have hmore : ¬ 1 = (before ++ file :: after).length := fun h => by
          simpa using hreason.mpr h
        exact .inr ⟨by omega, hfirst⟩
    · rintro (hle | ⟨hseveral, hfirst⟩)
      · exact absurd hle htotal
      · obtain rfl := eq_nil_of_first_passes hwithin hfirst
        refine ⟨_, rfl, 1, by omega, rfl, .inr ⟨rfl, hfirst⟩, ?_, ?_⟩
        · rintro other - (hle | ⟨rfl, -⟩)
          · by_contra hlt
            have := length_flatMap_take_le chunksOf ([] ++ file :: after)
              (show 1 ≤ other by omega)
            omega
          · exact le_rfl
        · exact iff_of_false (Option.some_ne_none _) (by omega)

/-- Files that are as many chunks as they have. -/
def countedFile (count : Nat) : Except Empty (List Unit) :=
  .ok (List.replicate count ())

/-- The first of two files has three chunks, and the cap is two. -/
theorem chunkCorpus_honest_first :
    ∃ result, chunkCorpusWithTotalCap countedFile (fun _ => some 2) (some ['2']) [3, 1] =
        .ok result ∧
      HonestCap (fun n => List.replicate n ()) 2 [3, 1] result :=
  (chunkCorpus_honest_iff (fun _ => some 2) (some ['2']) fun _ _ => rfl).mpr
    (.inr (by decide))

/-- Two files have one chunk each, and the cap is one: both chunks are returned. -/
theorem second_file_passes_cap :
    ¬ ∃ result, chunkCorpusWithTotalCap countedFile (fun _ => some 1) (some ['1']) [1, 1] =
        .ok result ∧
      HonestCap (fun n => List.replicate n ()) 1 [1, 1] result := by
  rintro ⟨_, hresult, count, hcount, hchunked, hadmitted, -⟩
  obtain rfl := Except.ok.inj hresult
  rcases hadmitted with hle | ⟨rfl, hfirst⟩
  · rw [← hchunked] at hle
    exact absurd hle (by decide)
  · exact absurd hfirst (by decide)

end Honest

end Ranking
end TensorGrep
