import TensorGrep.Kernel.ConsecutiveSpans
import TensorGrep.RepoMap.Gitignore

/-!
# Context packing

A context payload is rendered as text that is made of parts: the query, the tests, and for
each file a summary and its sources.  The parts are ranked and taken up to a number of
tokens, and the text is cut at a number of characters.  Each part that is rendered has a
section with its place in the text; the others are listed as omitted.

`contextPacking_exact_iff` says when all of that is in agreement: always, unless the first
part is cut right behind white space, which is stripped from the text and not from the
section.
-/

namespace TensorGrep
namespace RepoMap

open Kernel

/-! ## Payloads -/

/-- An entry of `file_matches` or `test_matches`. -/
structure FileMatch where
  path : Text
  score : ℤ
  graphScore : Option ℚ
  reasons : List Text

/-- An entry of `symbols`. -/
structure ScoredSymbol where
  file : Text
  name : Text
  score : ℤ

/-- A symbol of a summary. -/
structure SummarySymbol where
  kind : Text
  name : Text
  line : ℕ

/-- An entry of `file_summaries`. -/
structure FileSummary where
  path : Text
  symbols : List SummarySymbol

/-- An entry of `sources`. -/
structure SourceEntry where
  file : Text
  name : Text
  source : Text
  renderedSource : Option Text

/-- A context payload, as far as it is rendered. -/
structure ContextPayload where
  query : Text
  fileMatches : List FileMatch
  testMatches : List FileMatch
  symbols : List ScoredSymbol
  tests : List Text
  sources : List SourceEntry
  fileSummaries : List FileSummary
  files : List Text
  maxFiles : ℤ
  maxSymbolsPerFile : ℤ
  maxTokens : Option ℤ
  editPlanPrimaryFile : Option Text

/-! ## Parts -/

/-- `items[:stop]`. -/
def sliceUpTo
    {α : Type}
    (stop : ℤ)
    (items : List α) : List α :=
  if 0 ≤ stop then items.take stop.toNat else items.take (items.length - (-stop).toNat)

/-- The kinds of parts. -/
inductive PartKind where
  | query
  | tests
  | summary
  | source
deriving DecidableEq

/-- Where a part comes from. -/
inductive Provenance where
  | ofTests (found : List FileMatch)
  | ofFile (found : FileMatch)
  | ofSource (found : FileMatch) (symbol : Text) (symbolScore : ℤ)

/-- A part of the text. -/
structure ContextPart where
  kind : PartKind
  text : Text
  path : Option Text
  paths : List Text
  symbol : Option Text
  provenance : Option Provenance

/-- The match of a path; a later one replaces an earlier one. -/
@[grind] def matchOf
    (found : List FileMatch)
    (path : Text) : FileMatch :=
  match found.reverse.find? fun m => m.path = path with
  | some m => ⟨path, m.score, m.graphScore, m.reasons⟩
  | none => ⟨path, 0, none, []⟩

/-- `symbol_scores_by_key.get(key, 0)`. -/
@[grind] def symbolScore
    (payload : ContextPayload)
    (file name : Text) : ℤ :=
  match payload.symbols.reverse.find? fun s => s.file = file ∧ s.name = name with
  | some s => s.score
  | none => 0

/-- The part of the query. -/
def queryPart (payload : ContextPayload) : ContextPart where
  kind := .query
  text := "Query: ".toList ++ payload.query
  path := none
  paths := []
  symbol := none
  provenance := none

/-- The part of the tests. -/
def testsPart (payload : ContextPayload) : ContextPart where
  kind := .tests
  text := ['\n'].intercalate
    ("Tests:".toList :: (payload.tests.take 3).map fun current => "- ".toList ++ current)
  path := none
  paths := payload.tests.take 3
  symbol := none
  provenance := some (.ofTests ((payload.tests.take 3).map (matchOf payload.testMatches)))

/-- The summaries, and one without symbols for every other file with sources. -/
def contextSummaries (payload : ContextPayload) : List FileSummary :=
  (sliceUpTo payload.maxFiles payload.files).foldl (fun summaries current =>
    if (summaries.any fun summary => summary.path = current) ||
        !(payload.sources.any fun source => source.file = current) then
      summaries
    else summaries ++ [⟨current, []⟩])
    (sliceUpTo payload.maxFiles payload.fileSummaries)

/-- The part of a summary. -/
def summaryPart
    (payload : ContextPayload)
    (summary : FileSummary) : ContextPart where
  kind := .summary
  text := ['\n'].intercalate
    (["File: ".toList ++ summary.path, "Summary:".toList] ++
      (sliceUpTo payload.maxSymbolsPerFile summary.symbols).map fun symbol =>
        "- ".toList ++ symbol.kind ++ " ".toList ++ symbol.name ++ " @ line ".toList ++
          (toString symbol.line).toList)
  path := some summary.path
  paths := []
  symbol := none
  provenance := some (.ofFile (matchOf payload.fileMatches summary.path))

/-- The part of a source. -/
def sourcePart
    (payload : ContextPayload)
    (source : SourceEntry) : ContextPart where
  kind := .source
  text := "Source:\n```text\n".toList ++ rstripSpace (source.renderedSource.getD source.source) ++
    "\n```".toList
  path := some source.file
  paths := []
  symbol := some source.name
  provenance := some (.ofSource (matchOf payload.fileMatches source.file) source.name
    (symbolScore payload source.file source.name))

/-- `_render_context_parts` without the first part. -/
def renderFileParts (payload : ContextPayload) : List ContextPart :=
  (if payload.tests = [] then [] else [testsPart payload]) ++
    (contextSummaries payload).flatMap fun summary =>
      summaryPart payload summary ::
        ((payload.sources.filter fun source => source.file = summary.path).take 2).map
          (sourcePart payload)

/-- `_render_context_parts`. -/
def renderContextParts (payload : ContextPayload) : List ContextPart :=
  queryPart payload :: renderFileParts payload

/-! ## Ranks -/

/-- `_render_part_score`. -/
@[grind] def renderPartScore (part : ContextPart) : ℤ :=
  match part.provenance with
  | none => 0
  | some (.ofFile found) => found.score
  | some (.ofSource found _ _) => found.score
  | some (.ofTests []) => 0
  | some (.ofTests (first :: rest)) => (rest.map FileMatch.score).foldl max first.score

/-- `_render_part_path`. -/
def renderPartPath (part : ContextPart) : Option Text :=
  (part.path.filter fun path => path ≠ []).or part.paths.head?

/-- The keys of parts. -/
abbrev PartKey := ℤ ×ₗ (ℤ ×ₗ (ℤ ×ₗ (Text ×ₗ (Text ×ₗ ℕ))))

/-- The rank of a kind, which is another one in the primary file. -/
@[grind] def kindPriority (isPrimary : Bool) : PartKind → ℤ
  | .source => if isPrimary then 0 else 1
  | .summary => if isPrimary then 1 else 0
  | .tests => 2
  | .query => 3

/-- `_render_part_sort_key`. -/
def renderPartSortKey
    (primaryFile : Option Text)
    (part : ContextPart)
    (originalIndex : ℕ) : PartKey :=
  let path := (renderPartPath part).getD []
  let isPrimary : Bool := primaryFile = some path
  toLex (if isPrimary then 0 else 1, toLex (-renderPartScore part,
    toLex (kindPriority isPrimary part.kind, toLex (path,
      toLex (part.symbol.getD [], originalIndex)))))

/-- The primary file: that of the plan, or the first one. -/
def primaryFile (payload : ContextPayload) : Option Text :=
  (payload.editPlanPrimaryFile.filter fun file => file ≠ []).or payload.files.head?

/-- The parts other than the query, by rank. -/
def rankedParts (payload : ContextPayload) : List ContextPart :=
  (sortByKey (fun item : ContextPart × ℕ => renderPartSortKey (primaryFile payload) item.1 item.2)
    ((renderContextParts payload).zipIdx.filter fun item => item.1.kind ≠ .query)).map Prod.fst

/-- The parts in the order in which they are taken. -/
def orderedParts (payload : ContextPayload) : List ContextPart :=
  (renderContextParts payload).filter (fun part => part.kind = .query) ++ rankedParts payload

/-! ## Taking parts -/

/-- `_estimate_tokens`: two tokens for seven characters, and a begun one is whole. -/
def estimateTokens (text : Text) : ℕ :=
  (2 * text.length + 6) / 7

/-- A part with the text that is added for it. -/
structure PreparedPart where
  part : ContextPart
  chunk : Text
  score : ℤ
  tokenEstimate : ℕ

/-- `str.strip`. -/
def stripSpace (t : Text) : Text :=
  rstripSpace (t.dropWhile isSpaceChar)

/-- The text that is added for a part. -/
def partChunk
    (hasPriorContent : Bool)
    (part : ContextPart) : Text :=
  (if hasPriorContent then ['\n', '\n'] else []) ++ stripSpace part.text

/-- `_prepare_render_part`. -/
def prepareRenderPart
    (hasPriorContent : Bool)
    (part : ContextPart) : Option PreparedPart :=
  if stripSpace part.text = [] then none
  else some {
    part := part
    chunk := partChunk hasPriorContent part
    score := renderPartScore part
    tokenEstimate := estimateTokens (partChunk hasPriorContent part) }

/-- The parts that are taken and those that are not. -/
structure Selection where
  selected : List PreparedPart
  omitted : List PreparedPart
  nonQuerySelected : ℕ
  totalTokens : ℕ
  budgetExhausted : Bool

/-- Take a prepared part. -/
def Selection.take
    (s : Selection)
    (prepared : PreparedPart) : Selection :=
  { s with
    selected := s.selected ++ [prepared]
    totalTokens := s.totalTokens + prepared.tokenEstimate }

/-- Leave a prepared part out. -/
def Selection.leave
    (s : Selection)
    (prepared : PreparedPart) : Selection :=
  { s with omitted := s.omitted ++ [prepared] }

/-- One step of the loop over the parts. -/
@[grind] def selectPart
    (maxTokens : Option ℕ)
    (s : Selection)
    (part : ContextPart) : Selection :=
  match prepareRenderPart (!s.selected.isEmpty) part with
  | none => s
  | some prepared =>
      if part.kind = .query then s.take prepared
      else if s.budgetExhausted then s.leave prepared
      else
        match maxTokens with
        | none => { s.take prepared with nonQuerySelected := s.nonQuerySelected + 1 }
        | some limit =>
            if s.totalTokens + prepared.tokenEstimate ≤ limit then
              { s.take prepared with nonQuerySelected := s.nonQuerySelected + 1 }
            else if s.nonQuerySelected = 0 ∧ s.totalTokens ≤ limit then
              { s.take prepared with
                nonQuerySelected := s.nonQuerySelected + 1
                budgetExhausted := true }
            else s.leave prepared

/-- The loop over the parts. -/
def selectParts
    (maxTokens : Option ℕ)
    (parts : List ContextPart) : Selection :=
  parts.foldl (selectPart maxTokens) ⟨[], [], 0, 0, false⟩

/-! ## Rendering -/

/-- A section: the place of a part in the text. -/
structure Section where
  part : ContextPart
  start : ℕ
  stop : ℕ
  tokenEstimate : ℕ

/-- The place of a section. -/
def Section.span (s : Section) : ℕ × ℕ :=
  (s.start, s.stop)

/-- What the loop over the selected parts makes. -/
structure Rendered where
  sections : List Section
  chunks : List Text
  totalTokenEstimate : ℕ
  charOmitted : List PreparedPart
  cut : Bool

/-- The parts that are not rendered at all. -/
def Rendered.stopped (rest : List PreparedPart) : Rendered where
  sections := []
  chunks := []
  totalTokenEstimate := 0
  charOmitted := rest
  cut := true

/-- Put the section of a chunk in front. -/
def Rendered.add
    (later : Rendered)
    (part : ContextPart)
    (offset : ℕ)
    (chunk : Text)
    (tokenEstimate : ℕ) : Rendered :=
  { later with
    sections := ⟨part, offset, offset + chunk.length, tokenEstimate⟩ :: later.sections
    chunks := chunk :: later.chunks
    totalTokenEstimate := tokenEstimate + later.totalTokenEstimate }

/-- The number of characters that are left. -/
def remainingChars
    (maxRenderChars : Option ℕ)
    (offset : ℕ) : ℕ :=
  maxRenderChars.getD 0 - offset

/-- The loop over the selected parts. -/
@[grind] def renderSections (maxRenderChars : Option ℕ) : ℕ → List PreparedPart → Rendered
  | _, [] => ⟨[], [], 0, [], false⟩
  | offset, prepared :: rest =>
      if maxRenderChars.any fun limit => limit < offset + prepared.chunk.length then
        if offset = 0 ∧ 0 < remainingChars maxRenderChars offset then
          -- Only the first chunk is rendered in part.
          (Rendered.stopped rest).add prepared.part offset
            (prepared.chunk.take (remainingChars maxRenderChars offset))
            (estimateTokens (prepared.chunk.take (remainingChars maxRenderChars offset)))
        else Rendered.stopped (prepared :: rest)
      else
        (renderSections maxRenderChars (offset + prepared.chunk.length) rest).add prepared.part
          offset prepared.chunk prepared.tokenEstimate

/-- A record of a part that is not rendered. -/
structure OmittedSection where
  kind : PartKind
  file : Option Text
  symbol : Option Text
  score : ℤ
  tokenEstimate : ℕ

/-- `_omitted_section_record`. -/
def omittedSectionRecord (prepared : PreparedPart) : OmittedSection where
  kind := prepared.part.kind
  file := renderPartPath prepared.part
  symbol := prepared.part.symbol
  score := prepared.score
  tokenEstimate := prepared.tokenEstimate

/-- What is rendered. -/
structure RenderedContext where
  text : Text
  sections : List Section
  truncated : Bool
  totalTokenEstimate : ℕ
  omittedSections : List OmittedSection

/-- A limit counts if it is positive. -/
def positiveLimit (limit : Option ℤ) : Option ℕ :=
  (limit.filter fun n => 0 < n).map Int.toNat

/-- `_render_context_string_and_sections`. -/
def renderContextStringAndSections
    (maxRenderChars maxTokens : Option ℤ)
    (payload : ContextPayload) : RenderedContext :=
  let selection := selectParts (positiveLimit (maxTokens.or payload.maxTokens))
    (orderedParts payload)
  let rendered := renderSections (positiveLimit maxRenderChars) 0 selection.selected
  { text := rstripSpace rendered.chunks.flatten
    sections := rendered.sections
    truncated := !selection.omitted.isEmpty || rendered.cut
    totalTokenEstimate := rendered.totalTokenEstimate
    omittedSections := (rendered.charOmitted ++ selection.omitted).map omittedSectionRecord }

/-! ## Chunks -/

/-- A stripped text does not end with white space. -/
theorem isSpaceChar_of_getLast?_stripSpace
    {t : Text}
    {c : Char}
    (h : (stripSpace t).getLast? = some c) :
    isSpaceChar c = false := by
  have hne : (t.dropWhile isSpaceChar).rdropWhile isSpaceChar ≠ [] := by
    intro hnil
    rw [stripSpace, rstripSpace, hnil] at h
    cases h
  have hlast := List.rdropWhile_last_not isSpaceChar (t.dropWhile isSpaceChar) hne
  rw [stripSpace, rstripSpace, List.getLast?_eq_some_getLast hne, Option.some.injEq] at h
  rwa [h, Bool.not_eq_true] at hlast

/-- A part is prepared exactly if it has text. -/
theorem prepareRenderPart_eq_some_iff
    {hasPriorContent : Bool}
    {part : ContextPart}
    {prepared : PreparedPart} :
    prepareRenderPart hasPriorContent part = some prepared ↔
      stripSpace part.text ≠ [] ∧
        ⟨part, partChunk hasPriorContent part, renderPartScore part,
          estimateTokens (partChunk hasPriorContent part)⟩ = prepared := by
  rw [prepareRenderPart]
  split
  case isTrue h => simp [h]
  case isFalse h => simp [h]

/-- The chunk of a part with text does not end with white space. -/
theorem isSpaceChar_of_getLast?_partChunk
    {hasPriorContent : Bool}
    {part : ContextPart}
    {c : Char}
    (htext : stripSpace part.text ≠ [])
    (h : (partChunk hasPriorContent part).getLast? = some c) :
    isSpaceChar c = false := by
  rw [partChunk, List.getLast?_append_of_ne_nil _ htext] at h
  exact isSpaceChar_of_getLast?_stripSpace h

/-- The chunk of a prepared part does not end with white space. -/
theorem isSpaceChar_of_getLast?_chunk
    {hasPriorContent : Bool}
    {prepared : PreparedPart}
    {c : Char}
    (hprepared : prepareRenderPart hasPriorContent prepared.part = some prepared)
    (h : prepared.chunk.getLast? = some c) :
    isSpaceChar c = false := by
  obtain ⟨htext, hdata⟩ := prepareRenderPart_eq_some_iff.mp hprepared
  rw [← hdata] at h
  exact isSpaceChar_of_getLast?_partChunk htext h

/-- The text of the query is never blank. -/
theorem stripSpace_queryPart_ne_nil (payload : ContextPayload) :
    stripSpace (queryPart payload).text ≠ [] := by
  intro hnil
  have htext : (queryPart payload).text.dropWhile isSpaceChar =
      'Q' :: ("uery: ".toList ++ payload.query) :=
    List.dropWhile_cons_of_neg (by decide)
  rw [stripSpace, rstripSpace, htext, List.rdropWhile_eq_nil_iff] at hnil
  have hspace := hnil 'Q' (List.mem_cons_self ..)
  revert hspace
  decide

/-- The query with its chunk. -/
def preparedQuery (payload : ContextPayload) : PreparedPart where
  part := queryPart payload
  chunk := partChunk false (queryPart payload)
  score := renderPartScore (queryPart payload)
  tokenEstimate := estimateTokens (partChunk false (queryPart payload))

theorem prepareRenderPart_queryPart (payload : ContextPayload) :
    prepareRenderPart false (queryPart payload) = some (preparedQuery payload) :=
  prepareRenderPart_eq_some_iff.mpr ⟨stripSpace_queryPart_ne_nil payload, rfl⟩

/-! ## The parts -/

/-- Only the first part is a query. -/
theorem kind_ne_query_of_mem_renderFileParts
    {payload : ContextPayload}
    {part : ContextPart}
    (h : part ∈ renderFileParts payload) :
    part.kind ≠ .query := by
  rcases List.mem_append.mp h with htests | hfile
  · split at htests
    · cases htests
    · rw [List.mem_singleton.mp htests]
      exact PartKind.noConfusion
  · obtain ⟨summary, -, hpart⟩ := List.mem_flatMap.mp hfile
    rcases List.mem_cons.mp hpart with rfl | hsource
    · exact PartKind.noConfusion
    · obtain ⟨source, -, rfl⟩ := List.mem_map.mp hsource
      exact PartKind.noConfusion

/-- The parts that are no query are those after the first one. -/
theorem filter_kind_ne_query (payload : ContextPayload) :
    (renderContextParts payload).filter (fun part => part.kind ≠ .query) =
      renderFileParts payload := by
  rw [renderContextParts, List.filter_cons_of_neg (by simp [queryPart])]
  refine List.filter_eq_self.mpr fun part hpart => ?_
  exact decide_eq_true (kind_ne_query_of_mem_renderFileParts hpart)

/-- Ranking changes the order only. -/
theorem perm_rankedParts (payload : ContextPayload) :
    (rankedParts payload).Perm (renderFileParts payload) := by
  have hsorted := (perm_sortByKey
    (fun item : ContextPart × ℕ => renderPartSortKey (primaryFile payload) item.1 item.2)
    ((renderContextParts payload).zipIdx.filter fun item => item.1.kind ≠ .query)).map Prod.fst
  have hfilter := List.filter_map (p := fun part : ContextPart => decide (part.kind ≠ .query))
    (f := Prod.fst) (l := (renderContextParts payload).zipIdx)
  rw [List.zipIdx_map_fst, filter_kind_ne_query] at hfilter
  rw [hfilter]
  exact hsorted

/-- The query comes first. -/
theorem orderedParts_eq (payload : ContextPayload) :
    orderedParts payload = queryPart payload :: rankedParts payload := by
  have hnone : (renderFileParts payload).filter (fun part => part.kind = .query) = [] := by
    refine List.filter_eq_nil_iff.mpr fun part hpart => ?_
    simpa using kind_ne_query_of_mem_renderFileParts hpart
  rw [orderedParts, renderContextParts, List.filter_cons_of_pos (by simp [queryPart]), hnone]
  rfl

/-! ## The selection -/

/-- The parts with text. -/
def nonBlankParts (parts : List ContextPart) : List ContextPart :=
  parts.filter fun part => stripSpace part.text ≠ []

/-- What has become of the parts seen so far, the first one being the query. -/
structure SelectsExactly
    (maxTokens : Option ℕ)
    (first : PreparedPart)
    (seen : List ContextPart)
    (later : List PreparedPart)
    (s : Selection) : Prop where
  selected : s.selected = first :: later
  prepared : ∀ p ∈ later ++ s.omitted, prepareRenderPart true p.part = some p
  parts : (later.map PreparedPart.part ++ s.omitted.map PreparedPart.part).Perm
    (nonBlankParts seen)
  inOrder : (later.map PreparedPart.part).Sublist seen
  counted : s.nonQuerySelected = later.length
  total : s.totalTokens = ((first :: later).map PreparedPart.tokenEstimate).sum
  budget : ∀ limit, maxTokens = some limit → limit < s.totalTokens → later.length ≤ 1

variable {maxTokens : Option ℕ} {first prepared : PreparedPart} {part : ContextPart}
  {seen : List ContextPart} {later : List PreparedPart} {s : Selection}

/-- A blank part changes nothing. -/
theorem SelectsExactly.blank
    (h : SelectsExactly maxTokens first seen later s)
    (hblank : prepareRenderPart true part = none) :
    SelectsExactly maxTokens first (seen ++ [part]) later s := by
  have hnil : stripSpace part.text = [] := by
    by_contra hne
    rw [prepareRenderPart, if_neg hne] at hblank
    cases hblank
  have hparts : nonBlankParts (seen ++ [part]) = nonBlankParts seen := by
    simp [nonBlankParts, hnil]
  exact { h with
    parts := hparts ▸ h.parts
    inOrder := h.inOrder.trans (List.sublist_append_left seen [part]) }

/-- A part with text is counted among those with text. -/
theorem nonBlankParts_concat
    (hprepared : prepareRenderPart true part = some prepared) :
    nonBlankParts (seen ++ [part]) = nonBlankParts seen ++ [prepared.part] := by
  obtain ⟨htext, rfl⟩ := prepareRenderPart_eq_some_iff.mp hprepared
  simp [nonBlankParts, htext]

/-- Preparing a part does not replace it. -/
theorem prepareRenderPart_part
    {hasPriorContent : Bool}
    (hprepared : prepareRenderPart hasPriorContent part = some prepared) :
    prepareRenderPart hasPriorContent prepared.part = some prepared := by
  obtain ⟨htext, rfl⟩ := prepareRenderPart_eq_some_iff.mp hprepared
  exact hprepared

/-- A part that is left out is among the omitted ones. -/
theorem SelectsExactly.leave
    (h : SelectsExactly maxTokens first seen later s)
    (hprepared : prepareRenderPart true part = some prepared) :
    SelectsExactly maxTokens first (seen ++ [part]) later (s.leave prepared) where
  selected := h.selected
  prepared := by
    intro p hp
    rw [Selection.leave, ← List.append_assoc] at hp
    rcases List.mem_append.mp hp with hold | hnew
    · exact h.prepared p hold
    · rw [List.mem_singleton.mp hnew]
      exact prepareRenderPart_part hprepared
  parts := by
    rw [nonBlankParts_concat hprepared, Selection.leave, List.map_append, ← List.append_assoc]
    exact h.parts.append_right _
  inOrder := h.inOrder.trans (List.sublist_append_left seen [part])
  counted := h.counted
  total := h.total
  budget := h.budget

/-- A part is taken if it fits, or as the only one. -/
theorem SelectsExactly.take
    (exhausted : Bool)
    (h : SelectsExactly maxTokens first seen later s)
    (hprepared : prepareRenderPart true part = some prepared)
    (hfits : ∀ limit, maxTokens = some limit → limit < s.totalTokens + prepared.tokenEstimate →
      later = []) :
    SelectsExactly maxTokens first (seen ++ [part]) (later ++ [prepared])
      { s.take prepared with
        nonQuerySelected := s.nonQuerySelected + 1
        budgetExhausted := exhausted } where
  selected := by
    rw [Selection.take, h.selected]
    rfl
  prepared := by
    intro p hp
    rw [List.append_assoc, List.mem_append, List.mem_append] at hp
    rcases hp with hold | hnew | homitted
    · exact h.prepared p (List.mem_append_left _ hold)
    · rw [List.mem_singleton.mp hnew]
      exact prepareRenderPart_part hprepared
    · exact h.prepared p (List.mem_append_right _ homitted)
  parts := by
    rw [nonBlankParts_concat hprepared, List.map_append, List.append_assoc]
    refine (List.perm_append_comm.append_left _).trans ?_
    rw [← List.append_assoc]
    exact h.parts.append_right _
  inOrder := by
    obtain ⟨-, rfl⟩ := prepareRenderPart_eq_some_iff.mp hprepared
    rw [List.map_append]
    exact h.inOrder.append (List.Sublist.refl _)
  counted := by
    simp [h.counted]
  total := by
    simp only [Selection.take, h.total, List.map_cons, List.map_append, List.map_nil,
      List.sum_cons, List.sum_append, List.sum_nil]
    omega
  budget := by
    intro limit hlimit hover
    rw [hfits limit hlimit hover]
    exact Nat.le_refl 1

/-- One step of the loop. -/
theorem selectPart_exact
    (h : SelectsExactly maxTokens first seen later s)
    (hkind : part.kind ≠ .query) :
    ∃ later', SelectsExactly maxTokens first (seen ++ [part]) later'
      (selectPart maxTokens s part) := by
  have hprior : (!s.selected.isEmpty) = true := by rw [h.selected]; rfl
  rw [selectPart, hprior]
  cases hprepared : prepareRenderPart true part with
  | none => exact ⟨later, h.blank hprepared⟩
  | some prepared =>
      simp only [if_neg hkind]
      by_cases hexhausted : s.budgetExhausted
      · exact ⟨later, by simpa [hexhausted] using h.leave hprepared⟩
      rw [if_neg hexhausted]
      cases maxTokens with
      | none =>
          exact ⟨_, h.take s.budgetExhausted hprepared fun limit hlimit => by cases hlimit⟩
      | some limit =>
          simp only
          split
          case isTrue hfits =>
            refine ⟨_, h.take s.budgetExhausted hprepared fun other hother hover => ?_⟩
            rw [Option.some.injEq] at hother
            omega
          case isFalse hover =>
            split
            case isTrue honly =>
              refine ⟨_, h.take true hprepared fun _ _ _ => ?_⟩
              exact List.eq_nil_of_length_eq_zero (h.counted ▸ honly.1)
            case isFalse => exact ⟨later, h.leave hprepared⟩

/-- The loop. -/
theorem foldl_selectPart_exact
    {parts : List ContextPart}
    (h : SelectsExactly maxTokens first seen later s)
    (hkinds : ∀ part ∈ parts, part.kind ≠ .query) :
    ∃ later', SelectsExactly maxTokens first (seen ++ parts) later'
      (parts.foldl (selectPart maxTokens) s) := by
  induction parts generalizing seen later s with
  | nil => exact ⟨later, by simpa using h⟩
  | cons part rest ih =>
      obtain ⟨later', hstep⟩ := selectPart_exact h (hkinds part (List.mem_cons_self ..))
      have hrest := ih hstep fun other hother => hkinds other (List.mem_cons_of_mem _ hother)
      rwa [List.append_assoc] at hrest

/-- The selection takes the query first, and accounts for every other part with text. -/
theorem selectParts_exact
    (maxTokens : Option ℕ)
    (payload : ContextPayload) :
    ∃ later, SelectsExactly maxTokens (preparedQuery payload) (rankedParts payload) later
      (selectParts maxTokens (orderedParts payload)) := by
  have hquery : selectPart maxTokens ⟨[], [], 0, 0, false⟩ (queryPart payload) =
      ⟨[preparedQuery payload], [], 0, (preparedQuery payload).tokenEstimate, false⟩ := by
    simp [selectPart, prepareRenderPart_queryPart, Selection.take,
      show (queryPart payload).kind = .query from rfl]
  have hstart : SelectsExactly maxTokens (preparedQuery payload) [] []
      ⟨[preparedQuery payload], [], 0, (preparedQuery payload).tokenEstimate, false⟩ :=
    { selected := rfl
      prepared := fun p hp => by cases hp
      parts := List.Perm.refl _
      inOrder := List.Sublist.refl _
      counted := rfl
      total := (Nat.add_zero _).symm
      budget := fun _ _ _ => Nat.zero_le 1 }
  rw [orderedParts_eq, selectParts, List.foldl_cons, hquery]
  refine foldl_selectPart_exact hstart fun part hpart => ?_
  exact kind_ne_query_of_mem_renderFileParts ((perm_rankedParts payload).mem_iff.mp hpart)

/-! ## The sections -/

/-- The chunks of parts that are rendered one after another. -/
@[grind] def partChunks : List ContextPart → List Text
  | [] => []
  | first :: later => partChunk false first :: later.map (partChunk true)

/-- A chunk up to the limit of characters. -/
def cutAt
    (limit : Option ℕ)
    (chunk : Text) : Text :=
  limit.elim chunk fun n => chunk.take n

/-- The last element of joined pieces is the last one of a piece. -/
theorem exists_getLast?_of_flatten
    {α : Type}
    {pieces : List (List α)}
    {a : α}
    (h : pieces.flatten.getLast? = some a) :
    ∃ piece ∈ pieces, piece.getLast? = some a := by
  rw [List.getLast?_flatten] at h
  obtain ⟨piece, hpiece, hlast⟩ := List.exists_of_findSome?_eq_some h
  exact ⟨piece, List.mem_reverse.mp hpiece, hlast⟩

/-- A chunk within the limit is not cut. -/
theorem cutAt_eq_self
    {limit : Option ℕ}
    {chunk : Text}
    (h : ∀ n, limit = some n → chunk.length ≤ n) :
    cutAt limit chunk = chunk := by
  cases limit with
  | none => rfl
  | some n => exact List.take_of_length_le (h n rfl)

section Rendering

variable {limit : Option ℕ} {offset : ℕ} {parts : List PreparedPart}

/-- Every section has the span of its chunk. -/
theorem span_renderSections
    (limit : Option ℕ)
    (offset : ℕ)
    (parts : List PreparedPart) :
    (renderSections limit offset parts).sections.map Section.span =
      spansFrom offset (renderSections limit offset parts).chunks := by
  induction parts generalizing offset with
  | nil => rfl
  | cons prepared rest ih =>
      rw [renderSections]
      split_ifs
      · rfl
      · rfl
      · simp only [Rendered.add, List.map_cons, spansFrom, Section.span] at ih ⊢
        rw [ih]

/-- The total is that of the sections. -/
theorem totalTokenEstimate_renderSections
    (limit : Option ℕ)
    (offset : ℕ)
    (parts : List PreparedPart) :
    (renderSections limit offset parts).totalTokenEstimate =
      ((renderSections limit offset parts).sections.map Section.tokenEstimate).sum := by
  induction parts generalizing offset with
  | nil => rfl
  | cons prepared rest ih =>
      rw [renderSections]
      split_ifs
      · rfl
      · rfl
      · simp [Rendered.add, ih]

/-- The chunks stay within the limit. -/
theorem length_renderSections
    {n : ℕ}
    (parts : List PreparedPart)
    (hlimit : limit = some n)
    (hoffset : offset ≤ n) :
    offset + (renderSections limit offset parts).chunks.flatten.length ≤ n := by
  subst hlimit
  induction parts generalizing offset with
  | nil => exact hoffset
  | cons prepared rest ih =>
      rw [renderSections]
      split_ifs with hover hfirst
      · simp [Rendered.add, Rendered.stopped, remainingChars]
        omega
      · exact hoffset
      · have hfits : offset + prepared.chunk.length ≤ n := by simpa using hover
        have hrest := ih hfits
        simp only [Rendered.add, List.flatten_cons, List.length_append]
        omega

/-- The parts of a list that are rendered whole, and then none. -/
structure RendersWhole
    (parts kept : List PreparedPart)
    (r : Rendered) : Prop where
  parts : kept ++ r.charOmitted = parts
  rendered : r.sections.map Section.part = kept.map PreparedPart.part
  chunks : r.chunks = kept.map PreparedPart.chunk
  cut : r.cut = true ↔ r.charOmitted ≠ []
  total : r.totalTokenEstimate = (kept.map PreparedPart.tokenEstimate).sum

/-- One more part is rendered in front. -/
theorem RendersWhole.add
    {kept : List PreparedPart}
    {r : Rendered}
    (h : RendersWhole parts kept r)
    (prepared : PreparedPart)
    (offset : ℕ) :
    RendersWhole (prepared :: parts) (prepared :: kept)
      (r.add prepared.part offset prepared.chunk prepared.tokenEstimate) where
  parts := congrArg (prepared :: ·) h.parts
  rendered := congrArg (prepared.part :: ·) h.rendered
  chunks := congrArg (prepared.chunk :: ·) h.chunks
  cut := h.cut
  total := congrArg (prepared.tokenEstimate + ·) h.total

/-- Behind the first part, parts are rendered whole. -/
theorem rendersWhole_of_pos
    (limit : Option ℕ)
    (parts : List PreparedPart)
    (hoffset : 0 < offset) :
    ∃ kept, RendersWhole parts kept (renderSections limit offset parts) := by
  induction parts generalizing offset with
  | nil => exact ⟨[], rfl, rfl, rfl, by simp [renderSections], rfl⟩
  | cons prepared rest ih =>
      rw [renderSections]
      split_ifs with hover hfirst
      · exact absurd hfirst.1 (Nat.ne_of_gt hoffset)
      · exact ⟨[], rfl, rfl, rfl, by simp [Rendered.stopped], rfl⟩
      · obtain ⟨kept, hkept⟩ := ih (Nat.add_pos_left hoffset prepared.chunk.length)
        exact ⟨prepared :: kept, hkept.add prepared offset⟩

/-- What is made of the selected parts. -/
structure RendersExactly
    (limit : Option ℕ)
    (first : PreparedPart)
    (later : List PreparedPart)
    (r : Rendered) : Prop where
  parts : (r.sections.map Section.part ++ r.charOmitted.map PreparedPart.part) =
    (first :: later).map PreparedPart.part
  omitted : r.charOmitted.Sublist later
  chunks : r.chunks = (partChunks (r.sections.map Section.part)).map (cutAt limit)
  cut : r.cut = true ↔
    r.charOmitted ≠ [] ∨ r.chunks ≠ partChunks (r.sections.map Section.part)
  total : r.totalTokenEstimate ≤ ((first :: later).map PreparedPart.tokenEstimate).sum
  last : ∀ c, r.chunks.flatten.getLast? = some c → isSpaceChar c = true →
    ∃ n, limit = some n ∧ n < first.chunk.length ∧ (first.chunk.take n).getLast? = some c

/-- The chunks of prepared parts. -/
theorem partChunks_of_prepared
    {first : PreparedPart}
    {kept : List PreparedPart}
    (hfirst : prepareRenderPart false first.part = some first)
    (hkept : ∀ p ∈ kept, prepareRenderPart true p.part = some p) :
    partChunks ((first :: kept).map PreparedPart.part) =
      (first :: kept).map PreparedPart.chunk := by
  have hchunk {hasPriorContent : Bool} {p : PreparedPart}
      (h : prepareRenderPart hasPriorContent p.part = some p) :
      partChunk hasPriorContent p.part = p.chunk :=
    congrArg PreparedPart.chunk (prepareRenderPart_eq_some_iff.mp h).2
  rw [List.map_cons, partChunks, List.map_cons, hchunk hfirst, List.map_map]
  congr 1
  exact List.map_congr_left fun p hp => hchunk (hkept p hp)

/-- More text has no smaller estimate. -/
theorem estimateTokens_take_le
    (n : ℕ)
    (t : Text) :
    estimateTokens (t.take n) ≤ estimateTokens t := by
  have hlength : (t.take n).length ≤ t.length := List.length_take_le' n t
  simp only [estimateTokens]
  omega

/-- A first chunk that is too long is rendered in part, and nothing else is. -/
theorem renderSections_of_cut
    {n : ℕ}
    {first : PreparedPart}
    (later : List PreparedPart)
    (hn : 0 < n)
    (hover : n < first.chunk.length) :
    renderSections (some n) 0 (first :: later) =
      (Rendered.stopped later).add first.part 0 (first.chunk.take n)
        (estimateTokens (first.chunk.take n)) := by
  rw [renderSections, if_pos (by simpa using hover), if_pos ⟨rfl, hn⟩]
  rfl

/-- What is made of a first chunk that is too long. -/
theorem rendersExactly_of_cut
    {n : ℕ}
    {first : PreparedPart}
    {later : List PreparedPart}
    (hn : 0 < n)
    (hover : n < first.chunk.length)
    (hfirst : prepareRenderPart false first.part = some first) :
    RendersExactly (some n) first later (renderSections (some n) 0 (first :: later)) := by
  obtain ⟨-, hdata⟩ := prepareRenderPart_eq_some_iff.mp hfirst
  have hchunk : partChunk false first.part = first.chunk := congrArg PreparedPart.chunk hdata
  have hestimate : first.tokenEstimate = estimateTokens first.chunk := by rw [← hdata]
  rw [renderSections_of_cut later hn hover]
  refine ⟨rfl, List.Sublist.refl _, ?_, ?_, ?_, ?_⟩
  · simp [Rendered.add, Rendered.stopped, partChunks, cutAt, hchunk]
  · refine iff_of_true rfl (Or.inr ?_)
    simp only [Rendered.add, Rendered.stopped, List.map_cons, List.map_nil, partChunks, hchunk,
      ne_eq, List.cons.injEq, and_true, List.take_eq_self_iff]
    omega
  · have hle := estimateTokens_take_le n first.chunk
    simp only [Rendered.add, Rendered.stopped, List.map_cons, List.sum_cons]
    omega
  · intro c hc _
    exact ⟨n, rfl, hover, by simpa [Rendered.add, Rendered.stopped] using hc⟩

/-- The first chunk is rendered whole. -/
theorem rendersExactly_of_whole
    {first : PreparedPart}
    {later : List PreparedPart}
    (hfits : ∀ n, limit = some n → first.chunk.length ≤ n)
    (hfirst : prepareRenderPart false first.part = some first)
    (hlater : ∀ p ∈ later, prepareRenderPart true p.part = some p) :
    RendersExactly limit first later (renderSections limit 0 (first :: later)) := by
  obtain ⟨htext, hdata⟩ := prepareRenderPart_eq_some_iff.mp hfirst
  have hchunk : partChunk false first.part = first.chunk := congrArg PreparedPart.chunk hdata
  have hpos : 0 < 0 + first.chunk.length := by
    rw [Nat.zero_add, ← hchunk]
    exact List.length_pos_of_ne_nil htext
  obtain ⟨kept, hkept⟩ := rendersWhole_of_pos limit later hpos
  have hrendered : renderSections limit 0 (first :: later) =
      (renderSections limit (0 + first.chunk.length) later).add first.part 0 first.chunk
        first.tokenEstimate := by
    rw [renderSections, if_neg]
    cases limit with
    | none => simp
    | some n => simpa using hfits n rfl
  rw [hrendered]
  have hall := hkept.add first 0
  set r := (renderSections limit (0 + first.chunk.length) later).add first.part 0 first.chunk
    first.tokenEstimate
  have hprepared : ∀ p ∈ kept, prepareRenderPart true p.part = some p := fun p hp =>
    hlater p (hkept.parts ▸ List.mem_append_left _ hp)
  have hchunks : r.chunks = partChunks (r.sections.map Section.part) := by
    rw [hall.chunks, hall.rendered, partChunks_of_prepared hfirst hprepared]
  have hbounded : ∀ n, limit = some n → ∀ chunk ∈ r.chunks, chunk.length ≤ n := by
    intro n hlimit chunk hmem
    have hlength := length_renderSections (first :: later) hlimit (Nat.zero_le n)
    rw [hrendered, Nat.zero_add] at hlength
    rw [List.length_flatten] at hlength
    exact (List.le_sum_of_mem (List.mem_map_of_mem hmem)).trans hlength
  refine ⟨?_, ?_, ?_, ?_, ?_, ?_⟩
  · rw [hall.rendered, ← List.map_append, hall.parts]
  · exact hkept.parts ▸ List.sublist_append_right kept _
  · have hwhole : r.chunks.map (cutAt limit) = r.chunks.map id :=
      List.map_congr_left fun chunk hmem =>
        cutAt_eq_self fun n hlimit => hbounded n hlimit chunk hmem
    rw [← hchunks, hwhole, List.map_id]
  · rw [hall.cut, or_iff_left (fun h => h hchunks)]
  · rw [hall.total, ← hkept.parts, List.map_cons, List.map_cons, List.map_append, List.sum_cons,
      List.sum_cons, List.sum_append]
    omega
  · intro c hc hspace
    obtain ⟨chunk, hmem, hlast⟩ := exists_getLast?_of_flatten hc
    rw [hall.chunks] at hmem
    obtain ⟨p, hp, rfl⟩ := List.mem_map.mp hmem
    have hgood : ∃ hasPriorContent, prepareRenderPart hasPriorContent p.part = some p := by
      rcases List.mem_cons.mp hp with rfl | hkeptMem
      · exact ⟨false, hfirst⟩
      · exact ⟨true, hprepared p hkeptMem⟩
    obtain ⟨hasPriorContent, hp⟩ := hgood
    rw [isSpaceChar_of_getLast?_chunk hp hlast] at hspace
    cases hspace

end Rendering

/-! ## The text -/

/-- The text that a section shows. -/
def shownText
    (text : Text)
    (s : Section) : Text :=
  slice s.start s.stop text

/-- Every part is accounted for: it has a section with its chunk, or a record. -/
structure PacksExactly
    (maxRenderChars maxTokens : Option ℤ)
    (payload : ContextPayload)
    (r : RenderedContext) : Prop where
  parts : ∃ omitted : List PreparedPart,
    (∀ p ∈ omitted, prepareRenderPart true p.part = some p) ∧
      r.omittedSections = omitted.map omittedSectionRecord ∧
      (r.sections.map Section.part ++ omitted.map PreparedPart.part).Perm
        (nonBlankParts (renderContextParts payload))
  inOrder : (r.sections.map Section.part).Sublist (orderedParts payload)
  contiguous : ContiguousFrom 0 (r.sections.map Section.span)
  within : ∀ s ∈ r.sections, s.stop ≤ r.text.length
  slices : r.sections.map (shownText r.text) =
    (partChunks (r.sections.map Section.part)).map (cutAt (positiveLimit maxRenderChars))
  bounded : ∀ limit, positiveLimit maxRenderChars = some limit → r.text.length ≤ limit
  total : r.totalTokenEstimate = (r.sections.map Section.tokenEstimate).sum
  budget : ∀ limit, positiveLimit (maxTokens.or payload.maxTokens) = some limit →
    limit < r.totalTokenEstimate →
    ((selectParts (some limit) (orderedParts payload)).selected.filter
      fun p => p.part.kind ≠ .query).length ≤ 1
  truncated : r.truncated = true ↔ r.omittedSections ≠ [] ∨
    r.sections.map (shownText r.text) ≠ partChunks (r.sections.map Section.part)

/-- The query is longer than the limit of characters, and white space is the last of it that
is within the limit. -/
def CutBehindSpace
    (maxRenderChars : Option ℤ)
    (payload : ContextPayload) : Prop :=
  ∃ limit, positiveLimit maxRenderChars = some limit ∧
    limit < (stripSpace (queryPart payload).text).length ∧
    ∃ c, ((stripSpace (queryPart payload).text).take limit).getLast? = some c ∧
      isSpaceChar c = true

/-- Only positive limits count. -/
theorem positiveLimit_pos
    {limit : Option ℤ}
    {n : ℕ}
    (h : positiveLimit limit = some n) :
    0 < n := by
  obtain ⟨m, hm, rfl⟩ := Option.map_eq_some_iff.mp h
  have hpos := (Option.filter_eq_some_iff.mp hm).2
  rw [decide_eq_true_eq] at hpos
  omega

/-- A text with white space at its end gets shorter. -/
theorem length_rstripSpace_lt
    {t : Text}
    {c : Char}
    (hlast : t.getLast? = some c)
    (hspace : isSpaceChar c = true) :
    (rstripSpace t).length < t.length := by
  obtain ⟨front, rfl⟩ := List.getLast?_eq_some_iff.mp hlast
  have hle := (List.rdropWhile_prefix isSpaceChar front).length_le
  rw [rstripSpace, List.rdropWhile_concat_pos _ _ _ hspace, List.length_append]
  exact Nat.lt_succ_of_le hle

/-- A text without white space at its end stays. -/
theorem rstripSpace_eq_self
    {t : Text}
    (h : ∀ c, t.getLast? = some c → isSpaceChar c = false) :
    rstripSpace t = t := by
  cases hlast : t.getLast? with
  | none =>
      rw [List.getLast?_eq_none_iff.mp hlast]
      rfl
  | some c =>
      obtain ⟨front, rfl⟩ := List.getLast?_eq_some_iff.mp hlast
      exact List.rdropWhile_concat_neg _ _ _ (by simp [h c hlast])

/-- Everything is made of the parts that are selected. -/
theorem rendersExactly
    (maxRenderChars : Option ℤ)
    {payload : ContextPayload}
    {maxTokens : Option ℕ}
    {seen : List ContextPart}
    {later : List PreparedPart}
    {s : Selection}
    (h : SelectsExactly maxTokens (preparedQuery payload) seen later s) :
    RendersExactly (positiveLimit maxRenderChars) (preparedQuery payload) later
      (renderSections (positiveLimit maxRenderChars) 0 s.selected) := by
  have hfirst := prepareRenderPart_queryPart payload
  have hlater : ∀ p ∈ later, prepareRenderPart true p.part = some p := fun p hp =>
    h.prepared p (List.mem_append_left _ hp)
  rw [h.selected]
  by_cases hover : ∃ n, positiveLimit maxRenderChars = some n ∧
      n < (preparedQuery payload).chunk.length
  · obtain ⟨n, hn, hlt⟩ := hover
    have hpos := positiveLimit_pos hn
    rw [hn]
    exact rendersExactly_of_cut hpos hlt hfirst
  · refine rendersExactly_of_whole (fun n hn => ?_) hfirst hlater
    exact not_lt.mp fun hlt => hover ⟨n, hn, hlt⟩

/-- Only a query that is cut behind white space leaves white space at the end. -/
theorem cutBehindSpace_of_last
    {maxRenderChars : Option ℤ}
    {payload : ContextPayload}
    {later : List PreparedPart}
    {r : Rendered}
    {c : Char}
    (h : RendersExactly (positiveLimit maxRenderChars) (preparedQuery payload) later r)
    (hlast : r.chunks.flatten.getLast? = some c)
    (hspace : isSpaceChar c = true) :
    CutBehindSpace maxRenderChars payload := by
  obtain ⟨n, hn, hlt, hcut⟩ := h.last c hlast hspace
  exact ⟨n, hn, hlt, c, hcut, hspace⟩

/-- Text that keeps its end is shown by the sections. -/
theorem map_shownText
    (limit : Option ℕ)
    (parts : List PreparedPart) :
    (renderSections limit 0 parts).sections.map
      (shownText (renderSections limit 0 parts).chunks.flatten) =
      (renderSections limit 0 parts).chunks := by
  have hslices := map_slice_spansFrom [] (renderSections limit 0 parts).chunks
  rw [List.length_nil, ← span_renderSections, List.map_map] at hslices
  exact hslices

/-- Where the text keeps its end, every part is accounted for. -/
theorem packsExactly_of_not_cutBehindSpace
    {maxRenderChars maxTokens : Option ℤ}
    {payload : ContextPayload}
    (hcut : ¬ CutBehindSpace maxRenderChars payload) :
    PacksExactly maxRenderChars maxTokens payload
      (renderContextStringAndSections maxRenderChars maxTokens payload) := by
  obtain ⟨later, hselects⟩ :=
    selectParts_exact (positiveLimit (maxTokens.or payload.maxTokens)) payload
  have hrenders := rendersExactly maxRenderChars hselects
  set selection := selectParts (positiveLimit (maxTokens.or payload.maxTokens))
    (orderedParts payload) with hselection
  set rendered := renderSections (positiveLimit maxRenderChars) 0 selection.selected
    with hrendered
  have htext : (renderContextStringAndSections maxRenderChars maxTokens payload).text =
      rendered.chunks.flatten := by
    refine rstripSpace_eq_self fun c hlast => ?_
    by_contra hspace
    rw [Bool.not_eq_false] at hspace
    exact hcut (cutBehindSpace_of_last hrenders hlast hspace)
  have hsections : (renderContextStringAndSections maxRenderChars maxTokens payload).sections =
      rendered.sections := rfl
  have hshown : rendered.sections.map (shownText rendered.chunks.flatten) = rendered.chunks :=
    map_shownText _ _
  constructor
  case parts =>
    refine ⟨rendered.charOmitted ++ selection.omitted, fun p hp => ?_, rfl, ?_⟩
    · rcases List.mem_append.mp hp with hchar | htokens
      · exact hselects.prepared p (List.mem_append_left _ (hrenders.omitted.subset hchar))
      · exact hselects.prepared p (List.mem_append_right _ htokens)
    · have hquery : nonBlankParts (renderContextParts payload) =
          queryPart payload :: nonBlankParts (renderFileParts payload) :=
        List.filter_cons_of_pos (decide_eq_true (stripSpace_queryPart_ne_nil payload))
      rw [hsections, List.map_append, ← List.append_assoc, hrenders.parts, hquery]
      exact (hselects.parts.trans ((perm_rankedParts payload).filter _)).cons _
  case inOrder =>
    have hparts : (rendered.sections.map Section.part).Sublist
        ((preparedQuery payload :: later).map PreparedPart.part) :=
      hrenders.parts ▸ List.sublist_append_left _ _
    rw [hsections, orderedParts_eq]
    exact hparts.trans (hselects.inOrder.cons_cons _)
  case contiguous =>
    rw [hsections, hrendered, span_renderSections]
    exact contiguousFrom_spansFrom 0 _
  case within =>
    intro s hs
    have hspan : s.span ∈ spansFrom 0 rendered.chunks := by
      rw [hrendered, ← span_renderSections]
      exact List.mem_map_of_mem hs
    have hle := le_length_of_mem_spansFrom hspan
    rwa [Nat.zero_add, ← htext] at hle
  case slices =>
    rw [htext, hsections, hshown]
    exact hrenders.chunks
  case bounded =>
    intro limit hlimit
    have hle := length_renderSections selection.selected hlimit (Nat.zero_le limit)
    rwa [Nat.zero_add, ← hrendered, ← htext] at hle
  case total => exact totalTokenEstimate_renderSections _ _ _
  case budget =>
    intro limit hlimit hover
    rw [← hlimit, ← hselection, hselects.selected]
    have hle := hselects.budget limit hlimit
      (lt_of_lt_of_le hover (hselects.total ▸ hrenders.total))
    rw [List.filter_cons_of_neg (by simp [preparedQuery, queryPart])]
    exact (List.length_filter_le _ _).trans hle
  case truncated =>
    have htruncated :
        (renderContextStringAndSections maxRenderChars maxTokens payload).truncated =
          (!selection.omitted.isEmpty || rendered.cut) := rfl
    have homitted :
        (renderContextStringAndSections maxRenderChars maxTokens payload).omittedSections =
          (rendered.charOmitted ++ selection.omitted).map omittedSectionRecord := rfl
    rw [htext, hsections, hshown, htruncated, homitted, Bool.or_eq_true, hrenders.cut]
    simp only [Bool.not_eq_true', List.isEmpty_eq_false_iff, ne_eq, List.map_eq_nil_iff,
      List.append_eq_nil_iff]
    tauto

/-- Every part is accounted for exactly if the query is not cut right behind white space. -/
theorem contextPacking_exact_iff
    (maxRenderChars maxTokens : Option ℤ)
    (payload : ContextPayload) :
    PacksExactly maxRenderChars maxTokens payload
        (renderContextStringAndSections maxRenderChars maxTokens payload) ↔
      ¬ CutBehindSpace maxRenderChars payload := by
  refine ⟨fun h hcut => ?_, packsExactly_of_not_cutBehindSpace⟩
  obtain ⟨n, hn, hlt, c, hlast, hspace⟩ := hcut
  obtain ⟨later, hselects⟩ :=
    selectParts_exact (positiveLimit (maxTokens.or payload.maxTokens)) payload
  have hrendered : renderSections (positiveLimit maxRenderChars) 0
      (selectParts (positiveLimit (maxTokens.or payload.maxTokens))
        (orderedParts payload)).selected =
      (Rendered.stopped later).add (queryPart payload) 0
        ((stripSpace (queryPart payload).text).take n)
        (estimateTokens ((stripSpace (queryPart payload).text).take n)) := by
    rw [hselects.selected, hn]
    exact renderSections_of_cut later (positiveLimit_pos hn) hlt
  have hwithin := h.within
  simp only [renderContextStringAndSections, hrendered, Rendered.add, Rendered.stopped,
    List.flatten_cons, List.flatten_nil, List.append_nil, List.mem_singleton,
    forall_eq] at hwithin
  have hshorter := length_rstripSpace_lt hlast hspace
  omega

/-- A payload with a query and nothing else. -/
def queryPayload (query : Text) : ContextPayload where
  query := query
  fileMatches := []
  testMatches := []
  symbols := []
  tests := []
  sources := []
  fileSummaries := []
  files := []
  maxFiles := 3
  maxSymbolsPerFile := 6
  maxTokens := none
  editPlanPrimaryFile := none

/-- The query `x` with at most seven characters: the text is `Query:`, and the section of the
query ends behind the space that is not there. -/
theorem context_cut_behind_space :
    ¬ PacksExactly (some 7) none (queryPayload ['x'])
      (renderContextStringAndSections (some 7) none (queryPayload ['x'])) := by
  intro h
  have hresult : (renderContextStringAndSections (some 7) none (queryPayload ['x'])).text =
      "Query:".toList := by decide
  have hstop : (renderContextStringAndSections (some 7) none
      (queryPayload ['x'])).sections.map Section.stop = [7] := by decide
  obtain ⟨s, hs, hseven⟩ := List.mem_map.mp (hstop.symm ▸ List.mem_singleton_self 7)
  have hwithin := h.within s hs
  rw [hresult, hseven] at hwithin
  revert hwithin
  decide

end RepoMap
end TensorGrep
