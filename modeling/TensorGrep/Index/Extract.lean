import TensorGrep.Kernel.ListWindows
import TensorGrep.Index.Tree

/-!
# Trigram extraction

`extractFileTrigrams` is the build-time pass over the raw bytes of a file: it
splits at line feeds, drops one carriage return from the end of every piece,
lower-cases ASCII letters and records each distinct window of three bytes with
the number of its piece.  `extractTrigrams` is the query-time pass over a
pattern.

The two meet in `indexedLines`: a file posts a trigram on a line exactly when
the trigram is a window of the line as the build-time pass sees it.
-/

namespace TensorGrep
namespace Index

open Kernel

/-- Three consecutive bytes. -/
abbrev Trigram := UInt8 × UInt8 × UInt8

/-- The trigrams of one file with the number of the line they occur on. -/
abbrev FileTrigramHits := List (Trigram × UInt32)

/-- Length of a trigram. -/
def trigramLen : Nat := 3

/-- Files above this size are not indexed. -/
def maxIndexedBytes : Nat := 10 * 1024 * 1024

/-- The distinct lower-cased trigrams of a pattern, in order of first occurrence. -/
def extractTrigrams (pattern : Bytes) : List Trigram :=
  if pattern.length < trigramLen then []
  else keepUnseen [] (windows3 (pattern.map asciiLowerByte))

/-- The lines of a file as the build-time pass sees them. -/
def indexedLines (content : Bytes) : List Bytes :=
  (content.splitOn 10).map (stripCr 13)

/-- Trigrams of one line. -/
def lineTrigrams (line : Bytes) : List Trigram :=
  if trigramLen ≤ line.length then
    keepUnseen [] (windows3 (line.map asciiLowerByte))
  else []

/-- The hits of a line numbered `i + 1`. -/
def lineHits (line : Bytes) (i : Nat) : FileTrigramHits :=
  (lineTrigrams line).map (fun t => (t, UInt32.ofNat (i + 1)))

/-- The pass over the bytes of a file, with its size limit. -/
def extractContent (content : Bytes) : FileTrigramHits :=
  if content.length = 0 ∨ maxIndexedBytes < content.length then []
  else ((indexedLines content).zipIdx).flatMap (fun e => lineHits e.1 e.2)

/-- `extract_file_trigrams` of what lies behind a path; `none` when it fails. -/
def extractFileTrigrams (node : Option FsNode) : Option FileTrigramHits :=
  (node.bind FsNode.read).map extractContent

/-- `extract_file_trigrams(..).unwrap_or_default()`. -/
def extractOrDefault (node : Option FsNode) : FileTrigramHits :=
  (extractFileTrigrams node).getD []

/-- The trigrams of a pattern are the windows of its lower-cased bytes. -/
theorem mem_extractTrigrams
    {pattern : Bytes}
    {t : Trigram} :
    t ∈ extractTrigrams pattern ↔
      t ∈ windows3 (pattern.map asciiLowerByte) := by
  unfold extractTrigrams trigramLen
  split_ifs with h
  · rw [windows3_eq_nil_of_length_lt (by simpa using h)]
  · exact mem_keepUnseen_nil

theorem extractTrigrams_ne_nil
    {pattern : Bytes}
    (h : trigramLen ≤ pattern.length) :
    extractTrigrams pattern ≠ [] := by
  have hw : windows3 (pattern.map asciiLowerByte) ≠ [] :=
    windows3_ne_nil (by simpa [trigramLen] using h)
  obtain ⟨t, ht⟩ := List.exists_mem_of_ne_nil _ hw
  exact List.ne_nil_of_mem (mem_extractTrigrams.mpr ht)

theorem mem_lineTrigrams
    {line : Bytes}
    {t : Trigram} :
    t ∈ lineTrigrams line ↔ t ∈ windows3 (line.map asciiLowerByte) := by
  unfold lineTrigrams trigramLen
  split_ifs with h
  · exact mem_keepUnseen_nil
  · rw [windows3_eq_nil_of_length_lt (by simpa using h)]

/-- A pattern contained in a line up to ASCII case shares all its trigrams. -/
theorem extractTrigrams_subset_of_isInfix
    {pattern line : Bytes}
    (h : pattern.map asciiLowerByte <:+: line.map asciiLowerByte)
    {t : Trigram}
    (ht : t ∈ extractTrigrams pattern) :
    t ∈ lineTrigrams line :=
  mem_lineTrigrams.mpr (mem_windows3_of_isInfix h (mem_extractTrigrams.mp ht))

/-- Exact containment is containment up to ASCII case. -/
theorem lower_isInfix
    {u v : Bytes}
    (h : u <:+: v) :
    u.map asciiLowerByte <:+: v.map asciiLowerByte := by
  obtain ⟨p, s, rfl⟩ := h
  exact ⟨p.map asciiLowerByte, s.map asciiLowerByte, by simp⟩

/-- Line numbers of an indexable file fit in 32 bits. -/
theorem lineNumber_toNat
    {content : Bytes}
    (h : content.length ≤ maxIndexedBytes)
    {i : Nat}
    (hi : i < (indexedLines content).length) :
    (UInt32.ofNat (i + 1)).toNat = i + 1 := by
  have hsplit : ∀ c : Bytes, (c.splitOn 10).length ≤ c.length + 1 := by
    intro c
    induction c with
    | nil => simp
    | cons b c ih =>
        rw [List.splitOn_cons_eq_if_modifyHead]
        split_ifs
        · simpa using ih
        · simp only [List.length_modifyHead, List.length_cons]
          omega
  have hlen : (indexedLines content).length ≤ maxIndexedBytes + 1 := by
    unfold indexedLines
    rw [List.length_map]
    have := hsplit content
    omega
  unfold maxIndexedBytes at hlen
  rw [UInt32.toNat_ofNat']
  omega

/-- What a file posts: the windows of its indexed lines. -/
theorem mem_extractContent
    {content : Bytes}
    {t : Trigram}
    {n : UInt32} :
    (t, n) ∈ extractContent content ↔
      content.length ≠ 0 ∧ content.length ≤ maxIndexedBytes ∧
        ∃ i line, (indexedLines content)[i]? = some line ∧
          t ∈ lineTrigrams line ∧ n = UInt32.ofNat (i + 1) := by
  unfold extractContent
  by_cases hsize : content.length = 0 ∨ maxIndexedBytes < content.length
  · rw [if_pos hsize]
    constructor
    · intro h
      cases h
    · rintro ⟨hne, hle, -⟩
      omega
  · rw [if_neg hsize, List.mem_flatMap]
    constructor
    · rintro ⟨⟨line, i⟩, he, hhit⟩
      obtain ⟨t', ht', heq⟩ := List.mem_map.mp hhit
      cases heq
      exact ⟨by omega, by omega, i, line, List.mk_mem_zipIdx_iff_getElem?.mp he,
        ht', rfl⟩
    · rintro ⟨-, -, i, line, hline, ht, rfl⟩
      exact ⟨(line, i), List.mk_mem_zipIdx_iff_getElem?.mpr hline,
        List.mem_map.mpr ⟨t, ht, rfl⟩⟩

theorem mem_extractOrDefault
    {node : Option FsNode}
    {t : Trigram}
    {n : UInt32} :
    (t, n) ∈ extractOrDefault node ↔
      ∃ content, node.bind FsNode.read = some content ∧
        (t, n) ∈ extractContent content := by
  unfold extractOrDefault extractFileTrigrams
  cases h : node.bind FsNode.read with
  | none => simp
  | some content => simp

/-- Posted lines of a file, by line number. -/
theorem mem_extractContent_line
    {content : Bytes}
    {t : Trigram}
    {i : Nat}
    {line : Bytes}
    (hline : (indexedLines content)[i]? = some line) :
    (t, UInt32.ofNat (i + 1)) ∈ extractContent content ↔
      content.length ≠ 0 ∧ content.length ≤ maxIndexedBytes ∧
        t ∈ lineTrigrams line := by
  rw [mem_extractContent]
  have hi : i < (indexedLines content).length :=
    (List.getElem?_eq_some_iff.mp hline).1
  constructor
  · rintro ⟨hne, hle, j, line', hline', ht, hn⟩
    have hj : j < (indexedLines content).length :=
      (List.getElem?_eq_some_iff.mp hline').1
    have hnum := congrArg UInt32.toNat hn
    rw [lineNumber_toNat hle hi, lineNumber_toNat hle hj] at hnum
    have hij : j = i := by omega
    subst hij
    rw [hline] at hline'
    cases hline'
    exact ⟨hne, hle, ht⟩
  · rintro ⟨hne, hle, ht⟩
    exact ⟨hne, hle, i, line, hline, ht, rfl⟩

end Index
end TensorGrep
