import TensorGrep.CpuSearch.Complement

/-!
# Searching a file in parts

The native engine and the line loop both decide about each line by itself.  But
which of the two searches a file depends on the whole file: the loop does if the
native engine reports nothing and the file is not UTF-8.  So a search of a file
for a fixed string is the search of its parts only if each part on which the
engines differ is searched by the same engine alone and in the whole.
-/

namespace TensorGrep
namespace CpuSearch

open Kernel
open NativeSearch (LineSearcher selectedLines selectedLines_append selectedLines_shift
  selectedLines_eq_nil_iff)
open Result

/-! ## UTF-8 in parts -/

/-- Text that ends a line inside its encoding can be cut there. -/
theorem exists_utf8_append
    {t : Text}
    {b₁ b₂ : Bytes}
    (hend : AtLineEnd 10 b₁)
    (h : utf8 t = b₁ ++ b₂) :
    ∃ t₁ t₂, utf8 t₁ = b₁ ∧ utf8 t₂ = b₂ := by
  induction t generalizing b₁ with
  | nil =>
      obtain ⟨rfl, rfl⟩ := List.append_eq_nil_iff.mp h.symm
      exact ⟨[], [], rfl, rfl⟩
  | cons c t ih =>
      rw [utf8_cons] at h
      rcases List.append_eq_append_iff.mp h with ⟨rest, hb, ht⟩ | ⟨rest, hc, hb⟩
      · -- the first character is in the first part
        subst hb
        have hrest : AtLineEnd 10 rest := by
          by_cases hnil : rest = []
          · exact Or.inl hnil
          · refine Or.inr ?_
            rcases hend with hempty | hlast
            · exact absurd (List.append_eq_nil_iff.mp hempty).2 hnil
            · rwa [List.getLast?_append_of_ne_nil _ hnil] at hlast
        obtain ⟨t₁, t₂, h₁, h₂⟩ := ih hrest ht
        exact ⟨c :: t₁, t₂, by rw [utf8_cons, h₁], h₂⟩
      · rcases hend with rfl | hlast
        · exact ⟨[], c :: t, rfl, by rw [utf8_cons, h, List.nil_append]⟩
        · -- a line feed in the encoding of a character is all of it
          have hmem : (10 : UInt8) ∈ String.utf8EncodeChar c := by
            rw [hc]
            exact List.mem_append_left _ (List.mem_of_getLast? hlast)
          have hnewline : c = '\n' := by
            by_contra hne
            exact asciiByte_not_mem_utf8EncodeChar (show IsAscii '\n' by decide) hne hmem
          subst hnewline
          rw [show String.utf8EncodeChar '\n' = [10] by decide] at hc
          cases b₁ with
          | nil => cases hlast
          | cons b b₁ =>
              rw [List.cons_append, List.cons.injEq] at hc
              obtain ⟨rfl, rfl⟩ := List.append_eq_nil_iff.mp hc.2.symm
              exact ⟨['\n'], t, by rw [← hc.1]; decide, hb.symm⟩

/-- A file that is cut at a line end is UTF-8 exactly when its parts are. -/
theorem fromUtf8_append_eq_none_iff
    {b₁ b₂ : Bytes}
    (hend : AtLineEnd 10 b₁) :
    fromUtf8 (b₁ ++ b₂) = none ↔ fromUtf8 b₁ = none ∨ fromUtf8 b₂ = none := by
  rw [← not_iff_not, not_or, ← ne_eq, ← ne_eq, ← ne_eq, Option.ne_none_iff_exists',
    Option.ne_none_iff_exists', Option.ne_none_iff_exists']
  constructor
  · rintro ⟨t, ht⟩
    obtain ⟨t₁, t₂, h₁, h₂⟩ := exists_utf8_append hend (utf8_of_fromUtf8 ht)
    exact ⟨⟨t₁, h₁ ▸ fromUtf8_utf8 t₁⟩, ⟨t₂, h₂ ▸ fromUtf8_utf8 t₂⟩⟩
  · rintro ⟨⟨t₁, h₁⟩, ⟨t₂, h₂⟩⟩
    refine ⟨t₁ ++ t₂, ?_⟩
    rw [← utf8_of_fromUtf8 h₁, ← utf8_of_fromUtf8 h₂, ← utf8_append, fromUtf8_utf8]

/-! ## Engines that decide line by line -/

/-- The matches of an engine that selects lines and renders each selected one. -/
def linesFound
    (selects : Bytes → Bool)
    (render : Bytes → Text)
    (file : String)
    (contents : Bytes) : List MatchLine :=
  (selectedLines (selecting selects) 1 (linesOf 10 contents)).map fun r => ⟨r.1, render r.2, file⟩

/-- A match that many lines later. -/
def shiftMatch
    (k : Nat)
    (found : MatchLine) : MatchLine :=
  { found with lineNumber := found.lineNumber + k }

section Engines

variable {selects : Bytes → Bool} {render : Bytes → Text} {file : String} {c₁ c₂ : Bytes}

/-- Such an engine searches a file in parts. -/
theorem linesFound_append
    (hend : AtLineEnd 10 c₁) :
    linesFound selects render file (c₁ ++ c₂) =
      linesFound selects render file c₁ ++
        (linesFound selects render file c₂).map (shiftMatch (c₁.count 10)) := by
  rw [linesFound, linesOf_append hend, selectedLines_append, List.map_append,
    (length_linesOf c₁).1 hend, selectedLines_shift, linesFound, linesFound, List.map_map,
    List.map_map]
  rfl

/-- It finds nothing when it selects no line. -/
theorem linesFound_eq_nil_iff
    {contents : Bytes} :
    linesFound selects render file contents = [] ↔
      ∀ line ∈ linesOf 10 contents, selects line = false := by
  rw [linesFound, List.map_eq_nil_iff, selectedLines_eq_nil_iff]
  rfl

end Engines

/-! ## The native engine -/

/-- The native engine selects lines by what is in them; `hit` says whether the bytes of a line
without its end contain the pattern. -/
def nativeSelects
    (hit : Bytes → Bool)
    (invertMatch : Bool)
    (line : Bytes) : Bool :=
  hit (NativeSearch.stripNativeLineTerminator line) != invertMatch

/-- The text of a line that the native engine reports. -/
def nativeText (line : Bytes) : Text :=
  decodeReplace (NativeSearch.stripNativeLineTerminator line)

/-- The results of the native engine. -/
def nativeResults
    (hit : Bytes → Bool)
    (invertMatch : Bool)
    (contents : Bytes) : List (Nat × Text) :=
  (selectedLines (selecting (nativeSelects hit invertMatch)) 1 (linesOf 10 contents)).map
    fun r => (r.1, nativeText r.2)

/-! ## The search in parts -/

section Parts

variable (hit : Bytes → Bool) (re : Regexes) (invertMatch : Bool)

/-- The native engine reports a line. -/
def NativeFinds (contents : Bytes) : Prop :=
  ∃ line ∈ linesOf 10 contents, nativeSelects hit invertMatch line = true

/-- The line loop reports a line. -/
def LoopFinds (contents : Bytes) : Prop :=
  ∃ line ∈ linesOf 10 contents, lineMatches re invertMatch line = true

/-- If only the line loop finds something in this part, then the part is searched by the same
engine alone and together with the other part. -/
def KeepsEngine (part other : Bytes) : Prop :=
  ¬ NativeFinds hit invertMatch part → LoopFinds re invertMatch part →
    (fromUtf8 part = none → ¬ NativeFinds hit invertMatch other) ∧
      (fromUtf8 part ≠ none → fromUtf8 other ≠ none ∨ NativeFinds hit invertMatch other)

/-- The matches of the native engine. -/
def nativeFound
    (file : String)
    (contents : Bytes) : List MatchLine :=
  linesFound (nativeSelects hit invertMatch) (fun line => stripLineTerminator (nativeText line))
    file contents

/-- The matches of the line loop. -/
def loopFound
    (file : String)
    (contents : Bytes) : List MatchLine :=
  linesFound (lineMatches re invertMatch) (fun line => stripLineTerminator (decodeLine line))
    file contents

/-- The matches of a search for a fixed string. -/
def fixedFound
    (file : String)
    (contents : Bytes) : List MatchLine :=
  if nativeFound hit invertMatch file contents = [] ∧ fromUtf8 contents = none then
    loopFound re invertMatch file contents
  else nativeFound hit invertMatch file contents

variable {hit re invertMatch} {file : String} {contents c₁ c₂ : Bytes}

theorem nativeFound_eq_nil_iff :
    nativeFound hit invertMatch file contents = [] ↔ ¬ NativeFinds hit invertMatch contents := by
  rw [nativeFound, linesFound_eq_nil_iff, NativeFinds]
  simp

theorem loopFound_eq_nil_iff :
    loopFound re invertMatch file contents = [] ↔ ¬ LoopFinds re invertMatch contents := by
  rw [loopFound, linesFound_eq_nil_iff, LoopFinds]
  simp

/-- Two ways to search two parts, where the second one is taken for the whole if the first one
finds nothing and one of the parts asks for it. -/
theorem ite_append_ite_iff
    {α : Type}
    {N₁ N₂ L₁ L₂ : List α}
    {bad₁ bad₂ : Prop}
    [Decidable bad₁]
    [Decidable bad₂] :
    (if N₁ ++ N₂ = [] ∧ (bad₁ ∨ bad₂) then L₁ ++ L₂ else N₁ ++ N₂) =
        (if N₁ = [] ∧ bad₁ then L₁ else N₁) ++ (if N₂ = [] ∧ bad₂ then L₂ else N₂) ↔
      (N₁ = [] → L₁ ≠ [] → (bad₁ → N₂ = []) ∧ (¬ bad₁ → ¬ bad₂ ∨ N₂ ≠ [])) ∧
        (N₂ = [] → L₂ ≠ [] → (bad₂ → N₁ = []) ∧ (¬ bad₂ → ¬ bad₁ ∨ N₁ ≠ [])) := by
  by_cases h₁ : N₁ = [] <;> by_cases h₂ : N₂ = [] <;> by_cases hb₁ : bad₁ <;>
    by_cases hb₂ : bad₂ <;> simp [h₁, h₂, hb₁, hb₂, eq_comm]

/-- A search for a fixed string finds in the whole what it finds in the parts exactly when each
part keeps its engine. -/
theorem fixedFound_append_iff
    (hend : AtLineEnd 10 c₁) :
    fixedFound hit re invertMatch file (c₁ ++ c₂) =
        fixedFound hit re invertMatch file c₁ ++
          (fixedFound hit re invertMatch file c₂).map (shiftMatch (c₁.count 10)) ↔
      KeepsEngine hit re invertMatch c₁ c₂ ∧ KeepsEngine hit re invertMatch c₂ c₁ := by
  have hnative : nativeFound hit invertMatch file (c₁ ++ c₂) = _ := linesFound_append hend
  have hloop : loopFound re invertMatch file (c₁ ++ c₂) = _ := linesFound_append hend
  rw [← nativeFound, ← nativeFound] at hnative
  rw [← loopFound, ← loopFound] at hloop
  have hmap : (fixedFound hit re invertMatch file c₂).map (shiftMatch (c₁.count 10)) =
      if (nativeFound hit invertMatch file c₂).map (shiftMatch (c₁.count 10)) = [] ∧
          fromUtf8 c₂ = none then
        (loopFound re invertMatch file c₂).map (shiftMatch (c₁.count 10))
      else (nativeFound hit invertMatch file c₂).map (shiftMatch (c₁.count 10)) := by
    rw [fixedFound, apply_ite (List.map (shiftMatch (c₁.count 10)))]
    simp only [List.map_eq_nil_iff]
  rw [hmap, fixedFound, fixedFound, hnative, hloop]
  simp only [fromUtf8_append_eq_none_iff hend]
  rw [ite_append_ite_iff]
  simp only [List.map_eq_nil_iff, ne_eq, nativeFound_eq_nil_iff, loopFound_eq_nil_iff, not_not]
  rfl

end Parts

/-- The lines that a search reports, if it does not fail. -/
def foundIn : Except SearchError SearchResult → Option (List MatchLine)
  | .ok r => some r.found
  | .error _ => none

section Search

variable {host : Host} {config : SearchConfig} {pattern : Text} {hit : Bytes → Bool} {re : Regexes}

/-- What a search for a fixed string finds. -/
theorem foundIn_search
    (hfixed : config.fixedStrings = true)
    (hlimit : config.maxCount = none)
    (hcompile : host.compile pattern (ignoresCase host config pattern) true = .ok re)
    (hnative : ∀ contents, host.native pattern (ignoresCase host config pattern) true
      config.invertMatch contents = .found (nativeResults hit config.invertMatch contents))
    {contents : Bytes}
    (hnul : 0 ∉ contents)
    (file : String)
    (cached : Except String (Option (List Text × TrigramIndex))) :
    foundIn (search host config file pattern (some contents) cached) =
      some (fixedFound hit re config.invertMatch file contents) := by
  have hresults : nativeResult config file (nativeResults hit config.invertMatch contents) =
      resultOf (nativeFound hit config.invertMatch file contents) "cpu_rust_regex" := by
    rw [nativeResult, hlimit, nativeResults, nativeFound, linesFound]
    simp only [Option.map_none, Option.getD_none, List.map_map]
    rfl
  have hnil : nativeResults hit config.invertMatch contents = [] ↔
      nativeFound hit config.invertMatch file contents = [] := by
    rw [nativeResults, nativeFound, linesFound, List.map_eq_nil_iff, List.map_eq_nil_iff]
  have hprefilter : prefilterLiteral config pattern = none := by
    simp [prefilterLiteral, hfixed]
  have hloop : lineLoop file re config.invertMatch config.maxCount none 1 0 (linesOf 10 contents) =
      loopFound re config.invertMatch file contents := by
    rw [hlimit, lineLoop_eq_selectedLines]
    rfl
  rw [search, if_neg (by simp [hlimit])]
  simp only [isBinaryFile_of_not_mem hnul, Bool.and_false, Bool.false_eq_true, if_false, hfixed,
    hnative, if_true]
  rw [fixedFound]
  by_cases hempty : nativeFound hit config.invertMatch file contents = [] ∧
      fromUtf8 contents = none
  · rw [if_pos hempty, if_pos ⟨hnil.mpr hempty.1, hempty.2⟩,
      pythonSearch_of_none (hfixed.symm ▸ hcompile) hprefilter, hloop]
    rfl
  · rw [if_neg hempty, if_neg fun h => hempty ⟨hnil.mp h.1, h.2⟩, hresults]
    rfl

/-- A search for a fixed string in a file reports the lines of its parts, those of the second part
with their numbers shifted, if and only if each part keeps its engine. -/
theorem search_in_parts_iff
    (file : String)
    (cached : Except String (Option (List Text × TrigramIndex)))
    (hfixed : config.fixedStrings = true)
    (hlimit : config.maxCount = none)
    (hcompile : host.compile pattern (ignoresCase host config pattern) true = .ok re)
    (hnative : ∀ contents, host.native pattern (ignoresCase host config pattern) true
      config.invertMatch contents = .found (nativeResults hit config.invertMatch contents))
    {c₁ c₂ : Bytes}
    (hend : AtLineEnd 10 c₁)
    (hnul₁ : 0 ∉ c₁)
    (hnul₂ : 0 ∉ c₂) :
    (∃ found₁ found₂,
        foundIn (search host config file pattern (some c₁) cached) = some found₁ ∧
        foundIn (search host config file pattern (some c₂) cached) = some found₂ ∧
        foundIn (search host config file pattern (some (c₁ ++ c₂)) cached) =
          some (found₁ ++ found₂.map (shiftMatch (c₁.count 10)))) ↔
      KeepsEngine hit re config.invertMatch c₁ c₂ ∧ KeepsEngine hit re config.invertMatch c₂ c₁ := by
  have hnul : 0 ∉ c₁ ++ c₂ := by
    rw [List.mem_append]
    exact not_or.mpr ⟨hnul₁, hnul₂⟩
  rw [← @fixedFound_append_iff _ _ _ file _ _ hend,
    foundIn_search hfixed hlimit hcompile hnative hnul₁,
    foundIn_search hfixed hlimit hcompile hnative hnul₂,
    foundIn_search hfixed hlimit hcompile hnative hnul]
  constructor
  · rintro ⟨found₁, found₂, h₁, h₂, h⟩
    cases h₁
    cases h₂
    exact Option.some.inj h
  · exact fun h => ⟨_, _, rfl, rfl, congrArg some h⟩

end Search

/-- A native engine that reports the lines with the bytes of the pattern. -/
def nativeHost (U : CaseTables) : Host :=
  { pythonHost U with
    native := fun pattern _ _ invertMatch contents =>
      .found (nativeResults (fun line => utf8 pattern <:+: line) invertMatch contents) }

/-- A search for a fixed string. -/
def fixedConfig : SearchConfig :=
  { plainConfig with fixedStrings := true }

/-- The string `a` in a file of two lines that have it. -/
theorem search_in_parts_letter :
    ∃ found₁ found₂,
      foundIn (search (nativeHost plainTables) fixedConfig "t" ['a'] (some [97, 10]) (.ok none)) =
          some found₁ ∧
        foundIn (search (nativeHost plainTables) fixedConfig "t" ['a'] (some [97]) (.ok none)) =
          some found₂ ∧
        foundIn (search (nativeHost plainTables) fixedConfig "t" ['a'] (some ([97, 10] ++ [97]))
          (.ok none)) = some (found₁ ++ found₂.map (shiftMatch 1)) := by
  have hiff := @search_in_parts_iff (nativeHost plainTables) fixedConfig ['a']
    (fun line => utf8 ['a'] <:+: line) (compileFixed plainTables ['a'] false) "t" (.ok none)
    rfl rfl rfl (fun _ => rfl) [97, 10] [97] (Or.inr rfl) (by decide) (by decide)
  refine hiff.mpr ⟨fun hnothing => ?_, fun hnothing => ?_⟩
  · exact absurd ⟨[97, 10], by decide, by decide⟩ hnothing
  · exact absurd ⟨[97], by decide, by decide⟩ hnothing

/-- The string `é` in a Latin-1 line is found in the line alone, but no longer when a UTF-8 line
with the same string follows. -/
theorem latin1_line_lost :
    ¬ ∃ found₁ found₂,
      foundIn (search (nativeHost plainTables) fixedConfig "t" ['é'] (some [0xE9, 10])
          (.ok none)) = some found₁ ∧
        foundIn (search (nativeHost plainTables) fixedConfig "t" ['é'] (some [0xC3, 0xA9, 10])
          (.ok none)) = some found₂ ∧
        foundIn (search (nativeHost plainTables) fixedConfig "t" ['é']
          (some ([0xE9, 10] ++ [0xC3, 0xA9, 10])) (.ok none)) =
            some (found₁ ++ found₂.map (shiftMatch 1)) := by
  rintro ⟨found₁, found₂, h₁, h₂, h⟩
  have hfound : ∀ contents, 0 ∉ contents →
      foundIn (search (nativeHost plainTables) fixedConfig "t" ['é'] (some contents) (.ok none)) =
        some (fixedFound (fun line => utf8 ['é'] <:+: line) (compileFixed plainTables ['é'] false)
          false "t" contents) := by
    intro contents hnul
    exact @foundIn_search _ fixedConfig _ _ _ rfl rfl rfl (fun _ => rfl) _ hnul "t" (.ok none)
  rw [hfound _ (by decide)] at h₁ h₂ h
  cases h₁
  cases h₂
  obtain ⟨hkeeps, -⟩ := (fixedFound_append_iff (Or.inr rfl)).mp (Option.some.inj h)
  refine (hkeeps ?_ ⟨[0xE9, 10], by decide, by decide⟩).1 (by decide) ?_
  · rintro ⟨line, hline, hselects⟩
    rw [List.mem_singleton.mp (show line ∈ [[0xE9, 10]] from hline)] at hselects
    revert hselects
    decide
  · exact ⟨[0xC3, 0xA9, 10], by decide, by decide⟩

end CpuSearch
end TensorGrep
