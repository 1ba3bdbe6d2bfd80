import TensorGrep.Kernel.ExceptList
import TensorGrep.Kernel.Multiplicity
import TensorGrep.NativeSearch.MultiPattern

/-!
# The automaton against one search for each pattern

Both searches for several fixed strings are gathered from the same things: the
matches that are due in a file for the patterns (`fileHits`).  The fast path
gathers them once for each file, from the bytes of the file; the searches for one
pattern gather them for every time a file is met, from what the line searcher
reads of it.

`fast_path_agrees_iff` says for which trees this is the same.
-/

namespace TensorGrep
namespace NativeSearch

open Kernel
open CpuBackend (pickLines scanLines_eq scanLines included)

/-! ## Lines -/

/-- The lines of a text without their ends, numbered from 1. -/
def numberedLines (contents : Bytes) : List (ℕ × Bytes) :=
  (((linesOf 10 contents).map stripNativeLineTerminator).zipIdx 1).map Prod.swap

theorem pickLines_eq_numbered
    (n : ℕ)
    (lines : List Bytes) :
    pickLines (fun _ => true) n lines =
      ((lines.map stripNativeLineTerminator).zipIdx n).map Prod.swap := by
  induction lines generalizing n with
  | nil => rfl
  | cons line rest ih =>
      rw [pickLines, ih, List.map_cons, List.zipIdx_cons, List.map_cons]
      rfl

theorem scanLoop_eq_numberedLines
    (contents : Bytes) :
    CpuBackend.scanLoop (fun _ => true) contents 0 1 (CpuBackend.memchrIter 10 0 contents) =
      numberedLines contents := by
  have hscan := scanLines_eq (fun _ => true) false 1 contents
  have hall : included (fun _ => true) false = fun _ => true := by
    funext line
    rfl
  rw [scanLines, hall] at hscan
  rw [hscan, pickLines_eq_numbered, numberedLines]

theorem selectedLines_eq_filter
    (S : LineSearcher)
    (p : Bytes → Bool)
    (hp : ∀ line, S.selects line = p (stripNativeLineTerminator line))
    (n : ℕ)
    (lines : List Bytes) :
    (selectedLines S n lines).map (fun r => (r.1, stripNativeLineTerminator r.2)) =
      (((lines.map stripNativeLineTerminator).zipIdx n).map Prod.swap).filter
        fun line => p line.2 := by
  induction lines generalizing n with
  | nil => rfl
  | cons line rest ih =>
      rw [selectedLines, List.map_cons, List.zipIdx_cons, List.map_cons, List.filter_cons,
        ← ih (n + 1), hp line]
      simp only [Prod.swap_prod_mk]
      split <;> rfl

/-- Every line stands in the text. -/
theorem infix_of_mem_numberedLines
    {contents : Bytes}
    {line : ℕ × Bytes}
    (h : line ∈ numberedLines contents) :
    line.2 <:+: contents := by
  obtain ⟨⟨text, n⟩, hmem, rfl⟩ := List.mem_map.mp h
  obtain ⟨whole, hwhole, hstrip⟩ := List.mem_map.mp (List.fst_mem_of_mem_zipIdx hmem)
  have hin : whole <:+: contents := by
    rw [← @flatten_linesOf _ _ 10 contents]
    exact List.infix_of_mem_flatten hwhole
  have hstart : stripNativeLineTerminator whole <+: whole := by
    rw [stripNativeLineTerminator]
    split
    · exact List.dropLast_prefix whole
    · exact List.prefix_refl whole
  have htext : stripNativeLineTerminator whole <:+: contents := hstart.isInfix.trans hin
  rwa [hstrip] at htext

theorem pairwise_zipIdx
    {α : Type*}
    (l : List α)
    (n : ℕ) :
    (l.zipIdx n).Pairwise fun entry entry' => entry.2 < entry'.2 := by
  induction l generalizing n with
  | nil => exact List.Pairwise.nil
  | cons a l ih =>
      rw [List.zipIdx_cons]
      exact List.pairwise_cons.mpr
        ⟨fun entry hentry => List.le_snd_of_mem_zipIdx hentry, ih (n + 1)⟩

/-- The numbers grow. -/
theorem pairwise_numberedLines
    (contents : Bytes) :
    (numberedLines contents).Pairwise fun line line' => line.1 < line'.1 := by
  rw [numberedLines, List.pairwise_map]
  exact pairwise_zipIdx _ 1

/-! ## Due matches -/

section Hits

variable {Path : Type} (patterns : List Bytes)

/-- A line with a pattern gives a match. -/
def lineHits
    (path : Path)
    (line : ℕ × Bytes)
    (pattern : Bytes × ℕ) : List (NativeMultiPatternMatch Path) :=
  if pattern.1 <:+: line.2 then [⟨path, line.1, line.2, pattern.2, pattern.1⟩] else []

/-- The matches that are due in a file: one for every line and every pattern in it. -/
def fileHits
    (path : Path)
    (contents : Bytes) : List (NativeMultiPatternMatch Path) :=
  (numberedLines contents).flatMap fun line => patterns.zipIdx.flatMap (lineHits path line)

variable {patterns} {path : Path} {contents : Bytes}

theorem mem_lineHits
    {line : ℕ × Bytes}
    {pattern : Bytes × ℕ}
    {m : NativeMultiPatternMatch Path} :
    m ∈ lineHits path line pattern ↔
      pattern.1 <:+: line.2 ∧ m = ⟨path, line.1, line.2, pattern.2, pattern.1⟩ := by
  rw [lineHits]
  split
  case isTrue hin => rw [List.mem_singleton, and_iff_right hin]
  case isFalse hnot => simp [hnot]

theorem mem_fileHits
    {m : NativeMultiPatternMatch Path} :
    m ∈ fileHits patterns path contents ↔
      m.path = path ∧ (m.lineNumber, m.raw) ∈ numberedLines contents ∧
        patterns[m.patternId]? = some m.patternText ∧ m.patternText <:+: m.raw := by
  simp only [fileHits, List.mem_flatMap, mem_lineHits]
  constructor
  · rintro ⟨line, hline, ⟨text, i⟩, hpattern, hin, rfl⟩
    exact ⟨rfl, hline, List.mem_zipIdx_iff_getElem?.mp hpattern, hin⟩
  · rintro ⟨rfl, hline, hpattern, hin⟩
    exact ⟨_, hline, (m.patternText, m.patternId), List.mem_zipIdx_iff_getElem?.mpr hpattern, hin,
      rfl⟩

/-- No match is due twice. -/
theorem nodup_fileHits :
    (fileHits patterns path contents).Nodup := by
  refine List.nodup_flatMap.mpr ⟨?_, ?_⟩
  · intro line _
    refine List.nodup_flatMap.mpr ⟨?_, ?_⟩
    · intro pattern _
      rw [lineHits]
      split
      · exact List.nodup_singleton _
      · exact List.nodup_nil
    · refine (pairwise_zipIdx patterns 0).imp ?_
      intro pattern pattern' hlt m hm hm'
      obtain ⟨-, rfl⟩ := mem_lineHits.mp hm
      obtain ⟨-, heq⟩ := mem_lineHits.mp hm'
      exact hlt.ne (congrArg NativeMultiPatternMatch.patternId heq)
  · refine (pairwise_numberedLines contents).imp ?_
    intro line line' hlt m hm hm'
    simp only [List.mem_flatMap, mem_lineHits] at hm hm'
    obtain ⟨pattern, -, -, rfl⟩ := hm
    obtain ⟨pattern', -, -, heq⟩ := hm'
    exact hlt.ne (congrArg NativeMultiPatternMatch.lineNumber heq)

theorem path_of_mem_fileHits
    {m : NativeMultiPatternMatch Path}
    (h : m ∈ fileHits patterns path contents) :
    m.path = path :=
  (mem_fileHits.mp h).1

/-- Nothing is due in a text without any of the patterns. -/
theorem fileHits_eq_nil
    (h : ∀ pattern ∈ patterns, ¬ pattern <:+: contents) :
    fileHits patterns path contents = [] := by
  rw [List.eq_nil_iff_forall_not_mem]
  intro m hm
  obtain ⟨-, hline, hpattern, hin⟩ := mem_fileHits.mp hm
  exact h _ (List.mem_of_getElem? hpattern) (hin.trans (infix_of_mem_numberedLines hline))

end Hits

/-! ## The fast path -/

theorem flatMap_ite_singleton
    {α β : Type*}
    (p : α → Prop)
    [DecidablePred p]
    (f : α → β)
    (l : List α) :
    (l.flatMap fun a => if p a then [f a] else []) = (l.filter fun a => p a).map f := by
  induction l with
  | nil => rfl
  | cons a l ih =>
      rw [List.flatMap_cons, ih, List.filter_cons]
      by_cases hp : p a <;> simp [hp]

section FastPath

variable {Path : Type} {patterns : List Bytes} (matcher : AhoCorasick patterns)

/-- The ids that the automaton reports of a line, each once and in order. -/
theorem sortDedup_findOverlappingIter
    (line : Bytes) :
    sortDedup id (matcher.findOverlappingIter line) =
      (patterns.zipIdx.filter fun pattern => pattern.1 <:+: line).map Prod.snd := by
  refine eq_of_pairwise_key_lt (pairwise_sortDedup id _) ?_ ?_
  · rw [List.pairwise_map]
    exact (pairwise_zipIdx patterns 0).sublist List.filter_sublist
  · intro i
    rw [mem_sortDedup Function.injective_id, matcher.mem_findOverlappingIter, List.mem_map]
    simp only [List.mem_filter, decide_eq_true_eq, Prod.exists, exists_eq_right,
      List.mk_mem_zipIdx_iff_getElem?]

theorem collectFixedMultiPatternLineMatches_eq
    (path : Path)
    (line : ℕ × Bytes) :
    collectFixedMultiPatternLineMatches matcher path line =
      patterns.zipIdx.flatMap (lineHits path line) := by
  have hhits : patterns.zipIdx.flatMap (lineHits path line) =
      (patterns.zipIdx.filter fun pattern => pattern.1 <:+: line.2).map fun pattern =>
        ⟨path, line.1, line.2, pattern.2, pattern.1⟩ :=
    flatMap_ite_singleton _ _ _
  rw [collectFixedMultiPatternLineMatches, sortDedup_findOverlappingIter, hhits, List.map_map]
  refine List.map_congr_left fun pattern hmem => ?_
  have hget := List.mem_zipIdx_iff_getElem?.mp (List.mem_filter.mp hmem).1
  rw [Function.comp_apply, List.getD_eq_getElem?_getD, hget, Option.getD_some]

theorem collectFixedMultiPatternFileMatches_eq
    (path : Path)
    (contents : Bytes) :
    collectFixedMultiPatternFileMatches matcher path contents = fileHits patterns path contents := by
  have hline : collectFixedMultiPatternLineMatches matcher path =
      fun line => patterns.zipIdx.flatMap (lineHits path line) :=
    funext (collectFixedMultiPatternLineMatches_eq matcher path)
  rw [collectFixedMultiPatternFileMatches, scanLoop_eq_numberedLines, hline, fileHits]

variable {config : TreeSearchConfig Path} {tree : SearchTree Path}

/-- A text: it is to be taken as text, or it has no NUL byte. -/
def IsText
    (config : TreeSearchConfig Path)
    (contents : Bytes) : Prop :=
  config.text = true ∨ 0 ∉ contents

theorem nulOffset_isSome_iff
    (contents : Bytes) :
    (nulOffset contents).isSome = true ↔ 0 ∈ contents := by
  simp [nulOffset, List.findIdx?_isSome]

/-- The contents of a file that can be read. -/
def SearchTree.bytes
    (tree : SearchTree Path)
    (path : Path) : Bytes :=
  (tree.contents path).getD []

/-- A scan that gives an answer has read every file, found each to be a text, and gathered the
matches that are due in them. -/
theorem scanFiles_eq_some
    {found result : List (NativeMultiPatternMatch Path)}
    {files : List Path}
    (h : scanFiles config matcher tree found files = .ok (some result)) :
    (∀ path ∈ files, ∃ contents, tree.contents path = some contents ∧ IsText config contents) ∧
      result = found ++ files.flatMap fun path => fileHits patterns path (tree.bytes path) := by
  induction files generalizing found with
  | nil =>
      obtain rfl : found = result := by simpa [scanFiles] using h
      simp
  | cons path rest ih =>
      rw [scanFiles] at h
      split at h
      case h_1 => cases h
      case h_2 contents hcontents =>
          have hbytes : tree.bytes path = contents := by
            rw [SearchTree.bytes, hcontents, Option.getD_some]
          split at h
          case isTrue => cases h
          case isFalse htext =>
              have hIsText : IsText config contents := by
                rw [Bool.and_eq_true, Bool.not_eq_true', nulOffset_isSome_iff] at htext
                by_cases hflag : config.text = true
                · exact Or.inl hflag
                · exact Or.inr fun hmem => htext ⟨Bool.eq_false_iff.mpr hflag, hmem⟩
              split at h
              case isTrue =>
                  obtain ⟨hrest, rfl⟩ := ih h
                  refine ⟨List.forall_mem_cons.mpr ⟨⟨contents, hcontents, hIsText⟩, hrest⟩, ?_⟩
                  rw [List.flatMap_cons, collectFixedMultiPatternFileMatches_eq, hbytes,
                    List.append_assoc]
              case isFalse hmatch =>
                  -- the automaton finds nothing in the whole file, so no line has anything
                  obtain ⟨hrest, rfl⟩ := ih h
                  refine ⟨List.forall_mem_cons.mpr ⟨⟨contents, hcontents, hIsText⟩, hrest⟩, ?_⟩
                  have hnone : ∀ pattern ∈ patterns, ¬ pattern <:+: contents := by
                    intro pattern hpattern hin
                    exact hmatch ((matcher.isMatch_iff contents).mpr ⟨pattern, hpattern, hin⟩)
                  rw [List.flatMap_cons, hbytes, fileHits_eq_nil hnone, List.nil_append]

variable [LinearOrder Path]

/-- The directories that are walked. -/
def rootsOf
    (tree : SearchTree Path)
    (config : TreeSearchConfig Path) : List Path :=
  config.paths.filter fun path => !tree.isFile path

/-- The files that the single-pattern engine meets, as often as it meets them: first the named
ones, then those that the walk comes to. -/
def metFiles
    (tree : SearchTree Path)
    (config : TreeSearchConfig Path) : List Path :=
  sortDedup id (config.paths.filter tree.isFile) ++
    if (rootsOf tree config).isEmpty then [] else tree.walk (rootsOf tree config)

/-- What is known when the fast path gives an answer. -/
structure FastAnswer
    (config : TreeSearchConfig Path)
    (patterns : List Bytes)
    (tree : SearchTree Path)
    (found : List (NativeMultiPatternMatch Path)) : Prop where
  supported : supportsNativeFixedMultiPatternSearch config patterns = true
  inputs : splitSearchInputs tree config =
    .ok ⟨sortDedup id (config.paths.filter tree.isFile), rootsOf tree config⟩
  prepared : (rootsOf tree config).isEmpty = false →
    prepareWalk tree config (rootsOf tree config) = .ok ()
  texts : ∀ path ∈ metFiles tree config,
    ∃ contents, tree.contents path = some contents ∧ IsText config contents
  found_eq : found = sortByKey matchKey ((sortDedup id (metFiles tree config)).flatMap fun path =>
    fileHits patterns path (tree.bytes path))

/-- Dropping duplicates of a part first changes nothing. -/
theorem sortDedup_append_sortDedup
    (l l' : List Path) :
    sortDedup id (l ++ sortDedup id l') = sortDedup id (l ++ l') := by
  refine eq_of_pairwise_key_lt (pairwise_sortDedup id _) (pairwise_sortDedup id _) ?_
  intro path
  simp only [mem_sortDedup Function.injective_id, List.mem_append]

theorem splitSearchInputs_eq_ok
    {inputs : SearchInputs Path}
    (h : splitSearchInputs tree config = .ok inputs) :
    inputs = ⟨sortDedup id (config.paths.filter tree.isFile), rootsOf tree config⟩ := by
  rw [splitSearchInputs] at h
  split at h
  · cases h
  · exact (Except.ok.inj h).symm

/-- The files of the fast path are the met ones, each once. -/
theorem walked_spec
    {walked : List Path}
    (h : unlessEmpty (rootsOf tree config) (collectWalkedFiles tree config) = .ok walked) :
    ((rootsOf tree config).isEmpty = false →
        prepareWalk tree config (rootsOf tree config) = .ok ()) ∧
      sortDedup id (sortDedup id (config.paths.filter tree.isFile) ++ walked) =
        sortDedup id (metFiles tree config) := by
  rw [unlessEmpty] at h
  rw [metFiles]
  split at h
  case isTrue hempty =>
      obtain rfl := Except.ok.inj h
      rw [if_pos hempty]
      exact ⟨fun hne => absurd hempty (Bool.eq_false_iff.mp hne), rfl⟩
  case isFalse hne =>
      obtain ⟨_, hprepared, h⟩ := bind_eq_ok_iff.mp h
      obtain rfl := Except.ok.inj h
      rw [if_neg hne]
      exact ⟨fun _ => hprepared, sortDedup_append_sortDedup _ _⟩

theorem FastAnswer.of_run
    {automaton : Option (AhoCorasick patterns)}
    {found : List (NativeMultiPatternMatch Path)}
    (h : runNativeFixedMultiPatternSearch config patterns tree automaton = .ok (some found)) :
    FastAnswer config patterns tree found := by
  rw [runNativeFixedMultiPatternSearch] at h
  by_cases hsupported : supportsNativeFixedMultiPatternSearch config patterns = true
  swap
  · simp [hsupported] at h
    cases h
  rw [hsupported] at h
  simp only [Bool.not_true, Bool.false_eq_true, if_false] at h
  obtain ⟨inputs, hinputs, h⟩ := bind_eq_ok_iff.mp h
  obtain rfl := splitSearchInputs_eq_ok hinputs
  obtain ⟨walked, hwalked, h⟩ := bind_eq_ok_iff.mp h
  cases automaton with
  | none => cases h
  | some matcher =>
      obtain ⟨answer, hscan, h⟩ := bind_eq_ok_iff.mp h
      cases answer with
      | none => cases h
      | some result =>
          obtain rfl : sortByKey matchKey result = found := by
            simpa [pure, Except.pure] using h
          obtain ⟨htexts, rfl⟩ := scanFiles_eq_some matcher hscan
          obtain ⟨hprepared, hfiles⟩ := walked_spec hwalked
          rw [hfiles] at htexts ⊢
          refine ⟨hsupported, hinputs, hprepared, ?_, rfl⟩
          intro path hpath
          exact htexts path ((mem_sortDedup Function.injective_id).mpr hpath)

end FastPath

/-! ## One search for each pattern -/

section SlowPath

variable {Path : Type} {engine : LineEngine Path} {config : TreeSearchConfig Path}
  {patterns : List Bytes} {tree : SearchTree Path}

theorem nul_not_mem_readBySearcher
    {contents : Bytes}
    (h : 0 ∉ contents) :
    0 ∉ readBySearcher engine contents := by
  rw [readBySearcher]
  split
  · exact h
  · exact fun hmem => h (List.mem_of_mem_drop hmem)
  · exact engine.transcode_nul contents h

/-- In a text nothing stops the search. -/
theorem searchSlice_of_isText
    {S : LineSearcher}
    {contents : Bytes}
    (h : IsText config contents) :
    searchSlice (!config.text) S contents = ⟨selectedLines S 1 (linesOf 10 contents), none⟩ := by
  have hoffset : ∀ bytes : Bytes, 0 ∉ bytes → nulOffset bytes = none := by
    intro bytes hbytes
    rw [← Option.not_isSome_iff_eq_none, nulOffset_isSome_iff]
    exact hbytes
  have hstart : (if (!config.text) = true then nulOffset (contents.take binaryDetectionPrefixBytes)
      else none) = none := by
    rcases h with htext | hnul
    · rw [htext]
      rfl
    · split
      · exact hoffset _ fun hmem => hnul (List.mem_of_mem_take hmem)
      · rfl
  have hstop : ∀ line ∈ linesOf 10 contents, stopsAt (!config.text) S line = none := by
    intro line hline
    rw [stopsAt]
    rcases h with htext | hnul
    · rw [htext]
      rfl
    · split
      · refine hoffset line fun hmem => hnul ?_
        rw [← @flatten_linesOf _ _ 10 contents]
        exact List.mem_flatten.mpr ⟨line, hline, hmem⟩
      · rfl
  have htake : (linesOf 10 contents).takeWhile
      (fun line => (stopsAt (!config.text) S line).isNone) = linesOf 10 contents := by
    rw [List.takeWhile_eq_self_iff]
    intro line hline
    rw [hstop line hline, Option.isNone_none]
  have hreported := @reported_searchLines (!config.text) S 1 0 (linesOf 10 contents)
  have hbinary := (@binaryAt_searchLines (!config.text) S 1 0 (linesOf 10 contents)).mpr hstop
  rw [htake] at hreported
  have hwhole : searchLines (!config.text) S 1 0 (linesOf 10 contents) =
      ⟨selectedLines S 1 (linesOf 10 contents), none⟩ := by
    cases hsearch : searchLines (!config.text) S 1 0 (linesOf 10 contents) with
    | mk reported binaryAt =>
        rw [hsearch] at hreported hbinary
        rw [← hreported, show binaryAt = none from hbinary]
  rw [searchSlice, hstart]
  exact hwhole

/-- The search for one pattern keeps what is due for it in what is read of a text. -/
theorem map_keptMatches
    {pattern : Bytes × ℕ}
    {path : Path}
    {contents : Bytes}
    (hliteral : config.literal = true)
    (hreplace : config.replace = none)
    (h : IsText config contents) :
    (keptMatches engine config pattern.1 path contents).map (withPattern pattern) =
      (numberedLines (readBySearcher engine contents)).flatMap fun line =>
        lineHits path line pattern := by
  have hread : IsText config (readBySearcher engine contents) :=
    h.imp_right nul_not_mem_readBySearcher
  have hselects : ∀ line, (engine.searcher config pattern.1).selects line =
      decide (pattern.1 <:+: stripNativeLineTerminator line) := by
    intro line
    rw [Bool.eq_iff_iff, engine.selects_iff config pattern.1 line hliteral, decide_eq_true_eq]
  have hrender : toMatch (renderMatchedLineBytes engine config) =
      fun reported => ⟨reported.1, stripNativeLineTerminator reported.2⟩ := by
    funext reported
    rw [toMatch, renderMatchedLineBytes, hreplace]
  have hfilter := selectedLines_eq_filter (engine.searcher config pattern.1)
    (fun line => decide (pattern.1 <:+: line)) hselects 1
    (linesOf 10 (readBySearcher engine contents))
  have hhits : ((numberedLines (readBySearcher engine contents)).flatMap fun line =>
        lineHits path line pattern) =
      ((numberedLines (readBySearcher engine contents)).filter fun line =>
        pattern.1 <:+: line.2).map fun line =>
          ⟨path, line.1, line.2, pattern.2, pattern.1⟩ :=
    flatMap_ite_singleton _ _ _
  rw [hhits, numberedLines, ← hfilter]
  simp only [keptMatches, searchFileStreamingPlain, searchSlice_of_isText hread,
    Option.isSome_none, Bool.false_eq_true, if_false, hrender, List.map_map]
  rfl

/-- The search of named files succeeds where all of them can be read. -/
theorem runNativeSearchFiles_eq_ok
    {pattern : Bytes}
    {files : List Path}
    (h : ∀ path ∈ files, ∃ contents, tree.contents path = some contents) :
    runNativeSearchFiles engine config tree pattern files =
      .ok (files.flatMap (workerMatches engine config tree pattern)) := by
  induction files with
  | nil => rfl
  | cons path rest ih =>
      obtain ⟨⟨contents, hcontents⟩, hrest⟩ := List.forall_mem_cons.mp h
      have hworker : workerMatches engine config tree pattern path =
          keptMatches engine config pattern path contents := by
        rw [workerMatches, hcontents]
      rw [runNativeSearchFiles, hcontents, List.flatMap_cons, hworker]
      simp only [ih hrest]
      rfl

variable [LinearOrder Path]

/-- The search for one pattern gathers over the files that are met. -/
theorem runNativeSearch_perm
    {pattern : Bytes × ℕ}
    (hoptions : (config.json && config.ndjson) = false)
    (hpattern : pattern.1.isEmpty = false)
    (hinputs : splitSearchInputs tree config =
      .ok ⟨sortDedup id (config.paths.filter tree.isFile), rootsOf tree config⟩)
    (hprepared : (rootsOf tree config).isEmpty = false →
      prepareWalk tree config (rootsOf tree config) = .ok ())
    (hread : ∀ path ∈ metFiles tree config, ∃ contents, tree.contents path = some contents) :
    ∃ found, runNativeSearch engine config tree pattern.2 pattern.1 = .ok found ∧
      found.Perm ((metFiles tree config).flatMap (workerMatches engine config tree pattern.1)) := by
  have hnamed : unlessEmpty (sortDedup id (config.paths.filter tree.isFile))
        (runNativeSearchFiles engine config tree pattern.1) =
      .ok ((sortDedup id (config.paths.filter tree.isFile)).flatMap
        (workerMatches engine config tree pattern.1)) := by
    rw [unlessEmpty]
    split
    case isTrue hempty =>
        rw [List.isEmpty_iff.mp hempty]
        rfl
    case isFalse =>
        refine runNativeSearchFiles_eq_ok fun path hpath => hread path ?_
        exact List.mem_append_left _ hpath
  obtain ⟨walked, hwalked, hperm⟩ : ∃ walked,
      unlessEmpty (rootsOf tree config)
          (searchWalkRootsParallel engine config tree pattern.2 pattern.1) = .ok walked ∧
        walked.Perm ((if (rootsOf tree config).isEmpty then [] else
          tree.walk (rootsOf tree config)).flatMap
            (workerMatches engine config tree pattern.1)) := by
    rw [unlessEmpty]
    split
    case isTrue => exact ⟨[], rfl, List.Perm.refl _⟩
    case isFalse hne =>
        rw [searchWalkRootsParallel, hprepared (Bool.eq_false_iff.mpr hne)]
        exact ⟨_, rfl, (perm_sortByKey _ _).trans
          ((tree.perm_walkAgain pattern.2 _).flatMap_right _)⟩
  refine ⟨sortSearchMatches ((sortDedup id (config.paths.filter tree.isFile)).flatMap
    (workerMatches engine config tree pattern.1) ++ walked), ?_, ?_⟩
  · rw [runNativeSearch, hoptions, hpattern, hinputs]
    simp only [Bool.false_eq_true, if_false]
    refine bind_eq_ok_iff.mpr ⟨_, rfl, ?_⟩
    exact bind_eq_ok_iff.mpr ⟨_, hnamed, bind_eq_ok_iff.mpr ⟨_, hwalked, rfl⟩⟩
  · rw [metFiles, List.flatMap_append]
    exact (perm_sortByKey _ _).trans (List.Perm.append_left _ hperm)

/-- The searches for patterns gather over patterns, files and lines. -/
theorem collectPatterns_perm
    (hliteral : config.literal = true)
    (hreplace : config.replace = none)
    (hoptions : (config.json && config.ndjson) = false)
    (hinputs : splitSearchInputs tree config =
      .ok ⟨sortDedup id (config.paths.filter tree.isFile), rootsOf tree config⟩)
    (hprepared : (rootsOf tree config).isEmpty = false →
      prepareWalk tree config (rootsOf tree config) = .ok ())
    (htexts : ∀ path ∈ metFiles tree config,
      ∃ contents, tree.contents path = some contents ∧ IsText config contents)
    (l : List (Bytes × ℕ))
    (hl : ∀ pattern ∈ l, pattern.1.isEmpty = false) :
    ∃ slow, collectPatterns engine config tree l = .ok slow ∧
      slow.Perm (l.flatMap fun pattern => (metFiles tree config).flatMap fun path =>
        (numberedLines (readBySearcher engine (tree.bytes path))).flatMap fun line =>
          lineHits path line pattern) := by
  induction l with
  | nil => exact ⟨[], rfl, List.Perm.refl _⟩
  | cons pattern rest ih =>
      obtain ⟨hpattern, hrest⟩ := List.forall_mem_cons.mp hl
      obtain ⟨more, hmore, hmorePerm⟩ := ih hrest
      have hread : ∀ path ∈ metFiles tree config,
          ∃ contents, tree.contents path = some contents := by
        intro path hpath
        obtain ⟨contents, hcontents, -⟩ := htexts path hpath
        exact ⟨contents, hcontents⟩
      obtain ⟨found, hfound, hfoundPerm⟩ := runNativeSearch_perm
        hoptions hpattern hinputs hprepared hread
      have hfiles : ((metFiles tree config).flatMap
            (workerMatches engine config tree pattern.1)).map (withPattern pattern) =
          (metFiles tree config).flatMap fun path =>
            (numberedLines (readBySearcher engine (tree.bytes path))).flatMap fun line =>
              lineHits path line pattern := by
        rw [List.map_flatMap]
        refine List.flatMap_congr fun path hpath => ?_
        obtain ⟨contents, hcontents, htext⟩ := htexts path hpath
        rw [workerMatches, SearchTree.bytes, hcontents, Option.getD_some]
        exact map_keptMatches hliteral hreplace htext
      refine ⟨found.map (withPattern pattern) ++ more, ?_, ?_⟩
      · rw [collectPatterns]
        exact bind_eq_ok_iff.mpr ⟨_, hfound, bind_eq_ok_iff.mpr ⟨_, hmore, rfl⟩⟩
      · rw [List.flatMap_cons, ← hfiles]
        exact (hfoundPerm.map _).append hmorePerm

omit [LinearOrder Path] in
/-- What the fast path takes on is searched for literally, in plain text. -/
theorem literal_of_supported
    (h : supportsNativeFixedMultiPatternSearch config patterns = true) :
    config.forOnePattern.literal = true ∧ config.forOnePattern.replace = none ∧
      ∀ pattern ∈ patterns, pattern.isEmpty = false := by
  simp only [supportsNativeFixedMultiPatternSearch, Bool.and_eq_true, Bool.not_eq_true',
    List.any_eq_false, Option.isNone_iff_eq_none, Bool.not_eq_true] at h
  simp only [TreeSearchConfig.forOnePattern, TreeSearchConfig.literal, Bool.and_eq_true,
    Bool.not_eq_true']
  tauto

/-- Where the fast path gives an answer, the searches for one pattern succeed, and together they
gather what is due in what is read of every met file. -/
theorem FastAnswer.collectByPattern_perm
    {found : List (NativeMultiPatternMatch Path)}
    (h : FastAnswer config patterns tree found) :
    ∃ slow, collectByPattern engine config tree patterns = .ok slow ∧
      slow.Perm ((metFiles tree config).flatMap fun path =>
        fileHits patterns path (readBySearcher engine (tree.bytes path))) := by
  obtain ⟨hliteral, hreplace, hpatterns⟩ := literal_of_supported h.supported
  obtain ⟨slow, hslow, hperm⟩ := @collectPatterns_perm _ engine config.forOnePattern tree _
    hliteral hreplace rfl h.inputs h.prepared h.texts patterns.zipIdx
    fun pattern hmem => hpatterns _ (List.fst_mem_of_mem_zipIdx hmem)
  refine ⟨slow, hslow, hperm.trans ((flatMap_swap_perm _ _ _).trans ?_)⟩
  exact List.Perm.flatMap_left _ fun path _ => flatMap_swap_perm _ _ _

end SlowPath

/-! ## Agreement -/

section Agreement

variable {Path : Type} (engine : LineEngine Path)

/-- Some line of a text has one of the patterns. -/
def HasHit
    (patterns : List Bytes)
    (contents : Bytes) : Prop :=
  ∃ line ∈ numberedLines contents, ∃ pattern ∈ patterns, pattern <:+: line.2

/-- The byte order mark at the start of a text, if it has one, makes no difference to the lines
with a pattern: after a UTF-8 one the first line has none, and with a UTF-16 one the lines with a
pattern are the same in the bytes and in the transcoded text. -/
def MarkMakesNoDifference
    (patterns : List Bytes)
    (contents : Bytes) : Prop :=
  match byteOrderMark contents with
  | none => True
  | some .utf8 => ∀ line ∈ (numberedLines contents).head?, ∀ pattern ∈ patterns,
      ¬ pattern <:+: line.2
  | some .utf16 => ∀ pattern ∈ patterns, ∀ line, pattern <:+: line.2 →
      (line ∈ numberedLines contents ↔ line ∈ numberedLines (engine.transcode contents))

variable [LinearOrder Path]

/-- Every met file with a line that has a pattern is met once, and a byte order mark at its start
makes no difference. -/
def MetOnceReadAlike
    (config : TreeSearchConfig Path)
    (patterns : List Bytes)
    (tree : SearchTree Path) : Prop :=
  ∀ path ∈ metFiles tree config, ∀ contents, tree.contents path = some contents →
    (HasHit patterns contents ∨ HasHit patterns (readBySearcher engine contents)) →
      (metFiles tree config).count path = 1 ∧ MarkMakesNoDifference engine patterns contents

/-- The answer of the fast path has one match for each pattern index, file and line with the
pattern and nothing else, and it is the sorted concatenation of the searches for one pattern. -/
structure OneSearchPerPattern
    (config : TreeSearchConfig Path)
    (patterns : List Bytes)
    (tree : SearchTree Path)
    (found : List (NativeMultiPatternMatch Path)) : Prop where
  once : found.Nodup
  due : ∀ m, m ∈ found ↔ m.path ∈ metFiles tree config ∧
    ∃ contents, tree.contents m.path = some contents ∧
      (m.lineNumber, m.raw) ∈ numberedLines contents ∧
        patterns[m.patternId]? = some m.patternText ∧ m.patternText <:+: m.raw
  concatenation : ∃ slow, collectByPattern engine config tree patterns = .ok slow ∧
    found = sortByKey matchKey slow

omit [LinearOrder Path] in
theorem exists_mem_fileHits_iff
    {patterns : List Bytes}
    {path : Path}
    {contents : Bytes} :
    (∃ m, m ∈ fileHits patterns path contents) ↔ HasHit patterns contents := by
  constructor
  · rintro ⟨m, hm⟩
    obtain ⟨-, hline, hpattern, hin⟩ := mem_fileHits.mp hm
    exact ⟨_, hline, _, List.mem_of_getElem? hpattern, hin⟩
  · rintro ⟨line, hline, pattern, hpattern, hin⟩
    obtain ⟨i, hi⟩ := List.mem_iff_getElem?.mp hpattern
    exact ⟨⟨path, line.1, line.2, i, pattern⟩, mem_fileHits.mpr ⟨rfl, hline, hi, hin⟩⟩

/-- A UTF-8 byte order mark belongs to the first line and leaves the other lines alone. -/
theorem numberedLines_mark_append
    (text : Bytes) :
    ∃ first tail, numberedLines (utf8Mark ++ text) = (1, utf8Mark ++ first) :: tail ∧
      (∀ line ∈ tail, 1 < line.1) ∧
        ∀ line, line ∈ numberedLines text ↔ (text ≠ [] ∧ line = (1, first)) ∨ line ∈ tail := by
  by_cases hnil : text = []
  · subst hnil
    exact ⟨[], [], by rfl, by simp, by simp [numberedLines]⟩
  · cases hlines : linesOf 10 text with
    | nil => exact absurd (linesOf_eq_nil_iff.mp hlines) hnil
    | cons line rest =>
        have hne : line ≠ [] := ne_nil_of_mem_linesOf (by rw [hlines]; exact List.mem_cons_self)
        have hmark : linesOf 10 (utf8Mark ++ text) = (utf8Mark ++ line) :: rest :=
          linesOf_cons_of_ne_sep (by decide) (linesOf_cons_of_ne_sep (by decide)
            (linesOf_cons_of_ne_sep (by decide) hlines))
        have hstrip : stripNativeLineTerminator (utf8Mark ++ line) =
            utf8Mark ++ stripNativeLineTerminator line := by
          simp only [utf8Mark, List.cons_append, List.nil_append]
          rw [CpuBackend.stripNativeLineTerminator_cons (List.cons_ne_nil _ _),
            CpuBackend.stripNativeLineTerminator_cons (List.cons_ne_nil _ _),
            CpuBackend.stripNativeLineTerminator_cons hne]
        refine ⟨stripNativeLineTerminator line,
          ((rest.map stripNativeLineTerminator).zipIdx 2).map Prod.swap, ?_, ?_, ?_⟩
        · rw [numberedLines, hmark, List.map_cons, hstrip, List.zipIdx_cons, List.map_cons]
          rfl
        · intro numbered hmem
          obtain ⟨entry, hentry, rfl⟩ := List.mem_map.mp hmem
          exact List.le_snd_of_mem_zipIdx hentry
        · intro numbered
          rw [numberedLines, hlines, List.map_cons, List.zipIdx_cons, List.map_cons,
            List.mem_cons, Prod.swap_prod_mk]
          simp [hnil]

omit [LinearOrder Path] in
/-- After a UTF-8 byte order mark, the matches are those of the text without it exactly when the
first line has no pattern. -/
theorem fileHits_mark_append_iff
    {patterns : List Bytes}
    (path : Path)
    (text : Bytes) :
    (∀ m, m ∈ fileHits patterns path (utf8Mark ++ text) ↔ m ∈ fileHits patterns path text) ↔
      ∀ line ∈ (numberedLines (utf8Mark ++ text)).head?, ∀ pattern ∈ patterns,
        ¬ pattern <:+: line.2 := by
  obtain ⟨first, tail, hmark, htail, htext⟩ := numberedLines_mark_append text
  have hother : (1, utf8Mark ++ first) ∉ numberedLines text := by
    rw [htext]
    rintro (⟨-, heq⟩ | hmem)
    · have hlength := congrArg (fun line => line.2.length) heq
      simp [utf8Mark] at hlength
      omega
    · exact absurd (htail _ hmem) (lt_irrefl 1)
  simp only [mem_fileHits, hmark, List.head?_cons, Option.mem_some_iff, forall_eq', List.mem_cons]
  constructor
  · intro h pattern hpattern hin
    obtain ⟨i, hi⟩ := List.mem_iff_getElem?.mp hpattern
    have hdue := (h ⟨path, 1, utf8Mark ++ first, i, pattern⟩).mp ⟨rfl, Or.inl rfl, hi, hin⟩
    exact hother hdue.2.1
  · intro h m
    refine and_congr_right fun _ => ⟨?_, ?_⟩
    · rintro ⟨heq | hmem, hpattern, hin⟩
      · rw [show m.raw = utf8Mark ++ first from congrArg Prod.snd heq] at hin
        exact absurd hin (h _ (List.mem_of_getElem? hpattern))
      · exact ⟨(htext _).mpr (Or.inr hmem), hpattern, hin⟩
    · rintro ⟨hline, hpattern, hin⟩
      rcases (htext _).mp hline with ⟨-, heq⟩ | hmem
      · rw [show m.raw = first from congrArg Prod.snd heq] at hin
        exact absurd (hin.trans (List.suffix_append utf8Mark first).isInfix)
          (h _ (List.mem_of_getElem? hpattern))
      · exact ⟨Or.inr hmem, hpattern, hin⟩

omit [LinearOrder Path] in
/-- The byte order mark makes no difference exactly when the same matches are due. -/
theorem markMakesNoDifference_iff
    {patterns : List Bytes}
    {path : Path}
    {contents : Bytes} :
    MarkMakesNoDifference engine patterns contents ↔
      ∀ m, m ∈ fileHits patterns path contents ↔
        m ∈ fileHits patterns path (readBySearcher engine contents) := by
  rw [MarkMakesNoDifference, readBySearcher]
  cases hmark : byteOrderMark contents with
  | none => simp
  | some mark =>
      cases mark with
      | utf8 =>
          have hstart : utf8Mark <+: contents := by
            rw [byteOrderMark] at hmark
            split at hmark
            case isTrue h => exact List.isPrefixOf_iff_prefix.mp h
            case isFalse => split at hmark <;> cases hmark
          obtain ⟨text, rfl⟩ := hstart
          have hdrop : (utf8Mark ++ text).drop utf8Mark.length = text := List.drop_left
          rw [hdrop]
          exact (fileHits_mark_append_iff path text).symm
      | utf16 =>
          simp only [mem_fileHits]
          constructor
          · intro h m
            refine and_congr_right fun _ => ?_
            constructor
            · rintro ⟨hline, hpattern, hin⟩
              exact ⟨(h _ (List.mem_of_getElem? hpattern) _ hin).mp hline, hpattern, hin⟩
            · rintro ⟨hline, hpattern, hin⟩
              exact ⟨(h _ (List.mem_of_getElem? hpattern) _ hin).mpr hline, hpattern, hin⟩
          · intro h pattern hpattern line hin
            obtain ⟨i, hi⟩ := List.mem_iff_getElem?.mp hpattern
            have hsame := h ⟨path, line.1, line.2, i, pattern⟩
            constructor
            · intro hline
              exact (hsame.mp ⟨rfl, hline, hi, hin⟩).2.1
            · intro hline
              exact (hsame.mpr ⟨rfl, hline, hi, hin⟩).2.1

/-! ## The answer of the fast path -/

section Answer

variable {patterns : List Bytes} {config : TreeSearchConfig Path} {tree : SearchTree Path}
  {found : List (NativeMultiPatternMatch Path)}

omit [LinearOrder Path] in
/-- Among due matches, the key of the order tells them apart. -/
theorem eq_of_matchKey_eq
    {m m' : NativeMultiPatternMatch Path}
    (hm : patterns[m.patternId]? = some m.patternText)
    (hm' : patterns[m'.patternId]? = some m'.patternText)
    (h : matchKey m = matchKey m') :
    m = m' := by
  obtain ⟨path, lineNumber, raw, patternId, patternText⟩ := m
  obtain ⟨path', lineNumber', raw', patternId', patternText'⟩ := m'
  simp only [matchKey, EmbeddingLike.apply_eq_iff_eq, Prod.mk.injEq] at h
  obtain ⟨rfl, rfl, rfl, hraw⟩ := h
  obtain rfl := List.map_injective_iff.mpr (fun _ _ => UInt8.toNat_inj.mp) hraw
  obtain rfl := Option.some.inj (hm.symm.trans hm')
  rfl

/-- The sorted due matches are another list sorted exactly when they are its elements. -/
theorem sortByKey_matchKey_eq_iff
    {due slow : List (NativeMultiPatternMatch Path)}
    (hdue : ∀ m ∈ due, patterns[m.patternId]? = some m.patternText) :
    sortByKey matchKey due = sortByKey matchKey slow ↔ due.Perm slow := by
  constructor
  · intro h
    exact (perm_sortByKey matchKey due).symm.trans (h ▸ perm_sortByKey matchKey slow)
  · exact sortByKey_eq_of_perm_of_injOn fun m hm m' hm' =>
      eq_of_matchKey_eq (hdue m hm) (hdue m' hm')

/-- The due matches of a met file and those of what is read of it, as often as it is met, are the
same exactly where the file is met once and reads alike. -/
theorem gathered_perm_iff :
    ((sortDedup id (metFiles tree config)).flatMap fun path =>
        fileHits patterns path (tree.bytes path)).Perm
      ((metFiles tree config).flatMap fun path =>
        fileHits patterns path (readBySearcher engine (tree.bytes path))) ↔
      ∀ path ∈ metFiles tree config,
        (HasHit patterns (tree.bytes path) ∨
            HasHit patterns (readBySearcher engine (tree.bytes path))) →
          (metFiles tree config).count path = 1 ∧
            MarkMakesNoDifference engine patterns (tree.bytes path) := by
  have hnodup : (sortDedup id (metFiles tree config)).Nodup :=
    nodup_of_pairwise_key_lt (pairwise_sortDedup id _)
  have hraw : ∀ path, ∀ m ∈ fileHits patterns path (tree.bytes path), m.path = path :=
    fun _ _ hm => path_of_mem_fileHits hm
  have hread : ∀ path, ∀ m ∈ fileHits patterns path (readBySearcher engine (tree.bytes path)),
      m.path = path := fun _ _ hm => path_of_mem_fileHits hm
  simp only [List.perm_iff_count, count_flatMap_of_owner hraw, count_flatMap_of_owner hread]
  have hfile : ∀ path ∈ metFiles tree config,
      ((∀ m, (fileHits patterns path (tree.bytes path)).count m =
          (metFiles tree config).count path *
            (fileHits patterns path (readBySearcher engine (tree.bytes path))).count m) ↔
        ((HasHit patterns (tree.bytes path) ∨
            HasHit patterns (readBySearcher engine (tree.bytes path))) →
          (metFiles tree config).count path = 1 ∧
            MarkMakesNoDifference engine patterns (tree.bytes path))) := by
    intro path hpath
    rw [count_eq_mul_count_iff nodup_fileHits nodup_fileHits _ (List.count_pos_iff.mpr hpath),
      exists_or, exists_mem_fileHits_iff, exists_mem_fileHits_iff,
      markMakesNoDifference_iff engine]
  constructor
  · intro h path hpath
    refine (hfile path hpath).mp fun m => ?_
    by_cases hm : m.path = path
    · have hcount := h m
      rw [hm, hnodup.count, if_pos ((mem_sortDedup Function.injective_id).mpr hpath),
        Nat.one_mul] at hcount
      exact hcount
    · rw [List.count_eq_zero_of_not_mem fun hmem => hm (hraw path m hmem),
        List.count_eq_zero_of_not_mem fun hmem => hm (hread path m hmem), Nat.mul_zero]
  · intro h m
    by_cases hpath : m.path ∈ metFiles tree config
    · rw [hnodup.count, if_pos ((mem_sortDedup Function.injective_id).mpr hpath), Nat.one_mul]
      exact (hfile _ hpath).mpr (h _ hpath) m
    · rw [hnodup.count, if_neg (mt (mem_sortDedup Function.injective_id).mp hpath),
        List.count_eq_zero_of_not_mem hpath, Nat.zero_mul, Nat.zero_mul]

theorem FastAnswer.mem_found_iff
    (h : FastAnswer config patterns tree found)
    (m : NativeMultiPatternMatch Path) :
    m ∈ found ↔ m.path ∈ metFiles tree config ∧
      ∃ contents, tree.contents m.path = some contents ∧
        (m.lineNumber, m.raw) ∈ numberedLines contents ∧
          patterns[m.patternId]? = some m.patternText ∧ m.patternText <:+: m.raw := by
  rw [h.found_eq, mem_sortByKey, List.mem_flatMap]
  constructor
  · rintro ⟨path, hpath, hm⟩
    have hmet := (mem_sortDedup Function.injective_id).mp hpath
    obtain ⟨contents, hcontents, -⟩ := h.texts path hmet
    rw [SearchTree.bytes, hcontents, Option.getD_some] at hm
    obtain ⟨rfl, hdue⟩ := mem_fileHits.mp hm
    exact ⟨hmet, contents, hcontents, hdue⟩
  · rintro ⟨hmet, contents, hcontents, hm⟩
    refine ⟨m.path, (mem_sortDedup Function.injective_id).mpr hmet, mem_fileHits.mpr ⟨rfl, ?_⟩⟩
    rw [SearchTree.bytes, hcontents, Option.getD_some]
    exact hm

theorem FastAnswer.nodup_found
    (h : FastAnswer config patterns tree found) :
    found.Nodup := by
  rw [h.found_eq, (perm_sortByKey matchKey _).nodup_iff]
  refine List.nodup_flatMap.mpr ⟨fun _ _ => nodup_fileHits, ?_⟩
  refine (nodup_of_pairwise_key_lt (pairwise_sortDedup id (metFiles tree config))).imp ?_
  intro path path' hne m hm hm'
  exact hne ((path_of_mem_fileHits hm).symm.trans (path_of_mem_fileHits hm'))

/-- The answer of the fast path always has one match for each pattern index, file and line with
the pattern.  It is the sorted concatenation of the searches for one pattern exactly when every
met file with a line that has a pattern is met once, and no byte order mark makes a difference
there. -/
theorem fast_path_agrees_iff
    {automaton : Option (AhoCorasick patterns)}
    (h : runNativeFixedMultiPatternSearch config patterns tree automaton = .ok (some found)) :
    OneSearchPerPattern engine config patterns tree found ↔
      MetOnceReadAlike engine config patterns tree := by
  have hanswer := FastAnswer.of_run h
  obtain ⟨slow, hslow, hperm⟩ := @FastAnswer.collectByPattern_perm _ engine _ _ _ _ _ hanswer
  have hdue : ∀ m ∈ (sortDedup id (metFiles tree config)).flatMap fun path =>
      fileHits patterns path (tree.bytes path), patterns[m.patternId]? = some m.patternText := by
    intro m hm
    rw [← @mem_sortByKey _ _ _ matchKey, ← hanswer.found_eq, hanswer.mem_found_iff] at hm
    obtain ⟨-, -, -, -, hpattern, -⟩ := hm
    exact hpattern
  have hcondition : MetOnceReadAlike engine config patterns tree ↔
      found = sortByKey matchKey slow := by
    rw [hanswer.found_eq, sortByKey_matchKey_eq_iff hdue, hperm.congr_right, gathered_perm_iff]
    refine forall₂_congr fun path hpath => ?_
    obtain ⟨contents, hcontents, -⟩ := hanswer.texts path hpath
    simp [SearchTree.bytes, hcontents]
  rw [hcondition]
  constructor
  · rintro ⟨-, -, slow', hslow', heq⟩
    obtain rfl := Except.ok.inj (hslow.symm.trans hslow')
    exact heq
  · intro heq
    exact ⟨hanswer.nodup_found, hanswer.mem_found_iff, slow, hslow, heq⟩

end Answer

end Agreement

/-! ## A file that is met twice, and a byte order mark -/

/-- A line searcher for literal patterns that looks at every line. -/
def literalSearcher (pattern : Bytes) : LineSearcher where
  selects line := decide (pattern <:+: stripNativeLineTerminator line)
  visits _ := true
  visits_of_selects _ _ := rfl

/-- An engine of literal searches. -/
def literalEngine (Path : Type) : LineEngine Path where
  searcher _ := literalSearcher
  isMatch _ pattern text := decide (pattern <:+: text)
  renderReplaced _ raw := raw
  transcode contents := contents
  selects_iff _ _ _ _ := decide_eq_true_iff
  transcode_nul _ h := h

/-- An automaton that tries one pattern after another. -/
def tryingAutomaton (patterns : List Bytes) : AhoCorasick patterns where
  isMatch text := patterns.any fun pattern => decide (pattern <:+: text)
  findOverlappingIter text :=
    (patterns.zipIdx.filter fun pattern => pattern.1 <:+: text).map Prod.snd
  isMatch_iff text := by simp
  mem_findOverlappingIter text i := by simp [List.mk_mem_zipIdx_iff_getElem?]

/-- A search for fixed strings in paths, with all options off. -/
def fixedStringsIn (paths : List ℕ) : TreeSearchConfig ℕ :=
  ⟨⟨false, false, false, false, false, false, false, false, 0, 0, none, false, 0, none⟩,
    true, false, false, false, false, false, none, paths, false⟩

/-- A directory `0` with the one file `1`. -/
def oneFile (contents : Bytes) : SearchTree ℕ where
  pathExists _ := true
  isFile path := path == 1
  contents path := if path = 1 then some contents else none
  exceedsCeiling _ := false
  globsBuild := true
  walk roots := roots.map fun _ => 1
  walkAgain _ roots := roots.map fun _ => 1
  perm_walkAgain _ _ := List.Perm.refl _

theorem fast_path_agrees_iff_one_file :
    OneSearchPerPattern (literalEngine ℕ) (fixedStringsIn [0]) [[97], [98]] (oneFile [97, 10])
        [⟨1, 1, [97], 0, [97]⟩] ↔
      MetOnceReadAlike (literalEngine ℕ) (fixedStringsIn [0]) [[97], [98]] (oneFile [97, 10]) :=
  @fast_path_agrees_iff ℕ (literalEngine ℕ) _ [[97], [98]] (fixedStringsIn [0])
    (oneFile [97, 10]) _ (some (tryingAutomaton [[97], [98]])) rfl

/-- A line `a`: where the file is named beside its directory, the searches for one pattern report
it twice; after a byte order mark, they report it without the mark. -/
theorem named_file_in_root_and_marked_file :
    (runNativeFixedMultiPatternSearch (fixedStringsIn [1, 0]) [[97], [98]] (oneFile [97, 10])
          (some (tryingAutomaton _)) = .ok (some [⟨1, 1, [97], 0, [97]⟩]) ∧
        collectByPattern (literalEngine ℕ) (fixedStringsIn [1, 0]) (oneFile [97, 10])
          [[97], [98]] = .ok [⟨1, 1, [97], 0, [97]⟩, ⟨1, 1, [97], 0, [97]⟩] ∧
        ¬ OneSearchPerPattern (literalEngine ℕ) (fixedStringsIn [1, 0]) [[97], [98]]
          (oneFile [97, 10]) [⟨1, 1, [97], 0, [97]⟩]) ∧
      (runNativeFixedMultiPatternSearch (fixedStringsIn [0]) [[97], [98]]
            (oneFile (utf8Mark ++ [97, 10])) (some (tryingAutomaton _)) =
          .ok (some [⟨1, 1, utf8Mark ++ [97], 0, [97]⟩]) ∧
        collectByPattern (literalEngine ℕ) (fixedStringsIn [0])
          (oneFile (utf8Mark ++ [97, 10])) [[97], [98]] = .ok [⟨1, 1, [97], 0, [97]⟩] ∧
        ¬ OneSearchPerPattern (literalEngine ℕ) (fixedStringsIn [0]) [[97], [98]]
          (oneFile (utf8Mark ++ [97, 10])) [⟨1, 1, utf8Mark ++ [97], 0, [97]⟩]) := by
  have htwice : collectByPattern (literalEngine ℕ) (fixedStringsIn [1, 0]) (oneFile [97, 10])
      [[97], [98]] = .ok [⟨1, 1, [97], 0, [97]⟩, ⟨1, 1, [97], 0, [97]⟩] := by
    rfl
  have hmarked : collectByPattern (literalEngine ℕ) (fixedStringsIn [0])
      (oneFile (utf8Mark ++ [97, 10])) [[97], [98]] = .ok [⟨1, 1, [97], 0, [97]⟩] := by
    rfl
  refine ⟨⟨rfl, htwice, ?_⟩, rfl, hmarked, ?_⟩
  · rintro ⟨-, -, slow, hslow, heq⟩
    obtain rfl := Except.ok.inj (htwice.symm.trans hslow)
    have hlength := congrArg List.length heq
    rw [(perm_sortByKey _ _).length_eq] at hlength
    cases hlength
  · rintro ⟨-, -, slow, hslow, heq⟩
    obtain rfl := Except.ok.inj (hmarked.symm.trans hslow)
    have hraw := congrArg (List.map NativeMultiPatternMatch.raw) heq
    cases hraw

end NativeSearch
end TensorGrep
