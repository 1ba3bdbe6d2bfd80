import TensorGrep.Kernel.PythonText

/-!
# Literal block scalars

A literal block scalar of YAML is a run of lines that are indented more than their
parent.  The first line that is not empty says how much of every line is indentation; an
empty line in front of it must not be longer than that.  The scalar ends before a line
that is indented less, and of the line feeds at its end one is kept.

Lines with one indentation in front are read back if the first of them that is not blank
begins with something else than a space, and there are only empty lines before it
(`literalBlock_indented`).
-/

namespace TensorGrep
namespace Kernel

/-! ## Reading -/

/-- The spaces at the beginning of a line. -/
def leadingSpaces (line : Text) : ℕ :=
  (line.takeWhile (· = ' ')).length

/-- There are only spaces on a line. -/
def isBlankLine (line : Text) : Bool :=
  line.all (· = ' ')

/-- The lines of a scalar without their indentation, and the lines behind it. -/
def blockContent (indent : ℕ) : List Text → List Text × List Text
  | [] => ([], [])
  | line :: rest =>
      if isBlankLine line ∨ indent ≤ leadingSpaces line then
        (line.drop indent :: (blockContent indent rest).1, (blockContent indent rest).2)
      else ([], line :: rest)

/-- The text of lines without the empty ones at the end. -/
def clipLines (lines : List Text) : Text :=
  (lines.rdropWhile (· = [])).flatMap fun line => line ++ ['\n']

/-- The value of a literal block scalar, and the lines behind it. -/
def literalBlock
    (parent : ℕ)
    (lines : List Text) : Option (Text × List Text) :=
  match lines.find? fun line => !isBlankLine line with
  | none => some ([], [])
  | some first =>
      if leadingSpaces first ≤ parent then some ([], lines)
      else if (lines.takeWhile isBlankLine).any fun line => leadingSpaces first < line.length then
        none
      else
        some (clipLines (blockContent (leadingSpaces first) lines).1,
          (blockContent (leadingSpaces first) lines).2)

/-! ## Lines with spaces in front -/

/-- A line with spaces in front. -/
def indented
    (width : ℕ)
    (line : Text) : Text :=
  List.replicate width ' ' ++ line

@[simp] theorem isBlankLine_indented
    (width : ℕ)
    (line : Text) :
    isBlankLine (indented width line) = isBlankLine line := by
  rw [isBlankLine, indented, List.all_append, isBlankLine]
  simp

@[simp] theorem leadingSpaces_indented
    (width : ℕ)
    (line : Text) :
    leadingSpaces (indented width line) = width + leadingSpaces line := by
  rw [leadingSpaces, indented, List.takeWhile_append_of_pos, List.length_append,
    List.length_replicate, leadingSpaces]
  intro c hc
  exact decide_eq_true (List.eq_of_mem_replicate hc)

/-- What is indented by the width of a scalar is read back whole. -/
theorem blockContent_indented
    (width : ℕ)
    (lines : List Text) :
    blockContent width (lines.map (indented width)) = (lines, []) := by
  induction lines with
  | nil => rfl
  | cons line lines ih =>
      have hdrop : (indented width line).drop width = line := by
        rw [indented, List.drop_left']
        exact List.length_replicate
      have hdeep : width ≤ leadingSpaces (indented width line) := by
        rw [leadingSpaces_indented]
        exact Nat.le_add_right _ _
      rw [List.map_cons, blockContent, if_pos (Or.inr hdeep), ih, hdrop]

/-- The lines before and behind the first that is not blank. -/
theorem exists_first_of_find
    {lines : List Text}
    {first : Text}
    (h : (lines.find? fun line => !isBlankLine line) = some first) :
    ∃ before behind, lines = before ++ first :: behind ∧
      (∀ line ∈ before, isBlankLine line = true) ∧ isBlankLine first = false ∧ lines.takeWhile isBlankLine = before := by
  obtain ⟨hfirst, before, behind, hlines, hbefore⟩ := List.find?_eq_some_iff_append.mp h
  rw [Bool.not_eq_true'] at hfirst
  have hblank : ∀ line ∈ before, isBlankLine line = true := by
    intro line hline
    have hnot := hbefore line hline
    rwa [Bool.not_not] at hnot
  refine ⟨before, behind, hlines, hblank, hfirst, ?_⟩
  rw [hlines, List.takeWhile_append_of_pos hblank, List.takeWhile_cons_of_neg, List.append_nil]
  rw [hfirst]
  exact Bool.false_ne_true

/-- Lines whose first that is not blank does not begin with a space, and has only empty ones before
it, are read back. -/
theorem literalBlock_indented
    {parent width : ℕ}
    (hwidth : parent < width)
    {before behind : List Text}
    {first : Text}
    (hbefore : ∀ line ∈ before, line = [])
    (hfirst : isBlankLine first = false)
    (hspace : leadingSpaces first = 0) :
    literalBlock parent ((before ++ first :: behind).map (indented width)) =
      some (clipLines (before ++ first :: behind), []) := by
  have hblank : ∀ line ∈ before.map (indented width), isBlankLine line = true := by
    intro line hline
    obtain ⟨line', hline', rfl⟩ := List.mem_map.mp hline
    rw [isBlankLine_indented, hbefore line' hline']
    rfl
  have hfound : ((before ++ first :: behind).map (indented width)).find?
      (fun line => !isBlankLine line) = some (indented width first) := by
    refine List.find?_eq_some_iff_append.mpr ⟨?_, before.map (indented width),
      behind.map (indented width), ?_, ?_⟩
    · rw [isBlankLine_indented, hfirst]
      rfl
    · rw [List.map_append, List.map_cons]
    · intro line hline
      rw [hblank line hline]
      rfl
  rw [literalBlock, hfound]
  dsimp only
  rw [leadingSpaces_indented, hspace, Nat.add_zero, if_neg (not_le.mpr hwidth),
    blockContent_indented, if_neg]
  have hsame : ((before ++ first :: behind).map (indented width)).takeWhile isBlankLine =
      before.map (indented width) := by
    rw [List.map_append, List.takeWhile_append_of_pos hblank, List.map_cons,
      List.takeWhile_cons_of_neg, List.append_nil]
    rw [isBlankLine_indented, hfirst]
    exact Bool.false_ne_true
  rw [hsame, List.any_eq_true]
  rintro ⟨line, hline, hlong⟩
  obtain ⟨line', hline', rfl⟩ := List.mem_map.mp hline
  rw [decide_eq_true_eq, hbefore line' hline', indented, List.append_nil,
    List.length_replicate] at hlong
  exact lt_irrefl _ hlong

/-! ## What every value is like -/

/-- The first character behind the line feeds. -/
def firstChar (t : Text) : Option Char :=
  (t.dropWhile (· = '\n')).head?

theorem firstChar_flatMap_nil_append
    {before : List Text}
    (hbefore : ∀ line ∈ before, line = [])
    {c : Char}
    (hc : c ≠ '\n')
    (t : Text) :
    firstChar ((before.flatMap fun line => line ++ ['\n']) ++ c :: t) = some c := by
  induction before with
  | nil =>
      rw [firstChar, List.flatMap_nil, List.nil_append, List.dropWhile_cons_of_neg]
      · rfl
      · rw [decide_eq_true_eq]
        exact hc
  | cons line before ih =>
      have hrest := ih fun line' hline' => hbefore line' (List.mem_cons_of_mem _ hline')
      rw [firstChar] at hrest ⊢
      rw [List.flatMap_cons, hbefore line List.mem_cons_self, List.nil_append,
        List.singleton_append, List.cons_append, List.dropWhile_cons, if_pos (decide_eq_true rfl)]
      exact hrest

theorem firstChar_flatMap_nil
    {lines : List Text}
    (h : ∀ line ∈ lines, line = []) :
    firstChar (lines.flatMap fun line => line ++ ['\n']) = none := by
  induction lines with
  | nil => rfl
  | cons line lines ih =>
      have hrest := ih fun line' hline' => h line' (List.mem_cons_of_mem _ hline')
      rw [firstChar] at hrest ⊢
      rw [List.flatMap_cons, h line List.mem_cons_self, List.nil_append, List.singleton_append,
        List.dropWhile_cons, if_pos (decide_eq_true rfl)]
      exact hrest

/-- A line feed at the end is not the first character. -/
@[simp] theorem firstChar_concat_newline
    (t : Text) :
    firstChar (t ++ ['\n']) = firstChar t := by
  rw [firstChar, firstChar, List.dropWhile_append]
  split
  · next hempty =>
      rw [List.isEmpty_iff.mp hempty]
      rfl
  · next hsome =>
      cases ht : t.dropWhile (· = '\n') with
      | nil => exact absurd (by rw [ht]; rfl) hsome
      | cons c rest => rfl

/-- Lines are all empty, or one of them is the first that is not. -/
theorem empty_or_exists_first
    (lines : List Text) :
    (∀ line ∈ lines, line = []) ∨ ∃ before c t behind, lines = before ++ (c :: t) :: behind ∧
      ∀ line ∈ before, line = [] := by
  induction lines with
  | nil => exact Or.inl fun line hline => absurd hline List.not_mem_nil
  | cons line lines ih =>
      cases line with
      | cons c t =>
          exact Or.inr ⟨[], c, t, lines, rfl, fun line hline => absurd hline List.not_mem_nil⟩
      | nil =>
          rcases ih with hall | ⟨before, c, t, behind, rfl, hbefore⟩
          · exact Or.inl fun line hline => (List.mem_cons.mp hline).elim id (hall line)
          · exact Or.inr ⟨[] :: before, c, t, behind, rfl, fun line hline =>
              (List.mem_cons.mp hline).elim id (hbefore line)⟩

/-- A line that is not empty is not dropped, and nothing in front of it is. -/
theorem clipLines_append_cons
    (before behind : List Text)
    {line : Text}
    (hline : line ≠ []) :
    clipLines (before ++ line :: behind) =
      (before.flatMap fun line => line ++ ['\n']) ++ (line ++ ['\n']) ++ clipLines behind := by
  have hkept : (before ++ line :: behind).rdropWhile (· = []) =
      before ++ line :: behind.rdropWhile (· = []) := by
    rw [List.rdropWhile, List.reverse_append, List.reverse_cons, List.append_assoc,
      List.dropWhile_append]
    split
    · next hempty =>
        rw [List.isEmpty_iff] at hempty
        rw [List.singleton_append, List.dropWhile_cons_of_neg]
        · rw [List.rdropWhile, hempty]
          simp
        · rw [decide_eq_true_eq]
          exact hline
    · rw [List.rdropWhile]
      simp
  rw [clipLines, hkept, List.flatMap_append, List.flatMap_cons, clipLines, List.append_assoc]
  simp only [List.append_assoc]

/-- The lines of a scalar are those before the first that is not blank, the rest of that one, and
others. -/
theorem blockContent_append
    {indent : ℕ}
    {before behind : List Text}
    {first : Text}
    (hbefore : ∀ line ∈ before, isBlankLine line = true)
    (hfirst : indent ≤ leadingSpaces first) :
    (blockContent indent (before ++ first :: behind)).1 =
      before.map (List.drop indent) ++ first.drop indent :: (blockContent indent behind).1 := by
  induction before with
  | nil => rw [List.nil_append, blockContent, if_pos (Or.inr hfirst), List.map_nil, List.nil_append]
  | cons line before ih =>
      rw [List.cons_append, blockContent, if_pos (Or.inl (hbefore line List.mem_cons_self)),
        ih fun line' hline' => hbefore line' (List.mem_cons_of_mem _ hline'), List.map_cons,
        List.cons_append]

/-- What is behind the spaces of a line that is not blank. -/
theorem exists_drop_leadingSpaces
    {line : Text}
    (h : isBlankLine line = false) :
    ∃ c t, line.drop (leadingSpaces line) = c :: t ∧ c ≠ ' ' := by
  induction line with
  | nil => cases h
  | cons c line ih =>
      by_cases hc : c = ' '
      · subst hc
        have hrest : isBlankLine line = false := by
          rw [isBlankLine, List.all_cons] at h
          exact h
        obtain ⟨d, t, hdrop, hd⟩ := ih hrest
        refine ⟨d, t, ?_, hd⟩
        rw [leadingSpaces, List.takeWhile_cons, if_pos (decide_eq_true rfl), List.length_cons,
          List.drop_succ_cons]
        exact hdrop
      · refine ⟨c, line, ?_, hc⟩
        rw [leadingSpaces, List.takeWhile_cons, if_neg]
        · rfl
        · rw [decide_eq_true_eq]
          exact hc

/-- No value begins with a space behind its line feeds. -/
theorem firstChar_literalBlock
    {parent : ℕ}
    {lines rest : List Text}
    {value : Text}
    (hlines : ∀ line ∈ lines, '\n' ∉ line)
    (h : literalBlock parent lines = some (value, rest)) :
    firstChar value ≠ some ' ' := by
  rw [literalBlock] at h
  cases hfound : lines.find? fun line => !isBlankLine line with
  | none =>
      rw [hfound] at h
      cases h
      simp [firstChar]
  | some first =>
      obtain ⟨before, behind, rfl, hblank, hfirst, htake⟩ := exists_first_of_find hfound
      rw [hfound] at h
      dsimp only at h
      rw [htake] at h
      split at h
      · cases h
        simp [firstChar]
      · split at h
        · cases h
        · next hshort =>
            cases h
            obtain ⟨c, t, hdrop, hspace⟩ := exists_drop_leadingSpaces hfirst
            have hc : c ≠ '\n' := by
              rintro rfl
              have hmem : '\n' ∈ first := List.mem_of_mem_drop (hdrop ▸ List.mem_cons_self)
              exact hlines first (List.mem_append_right _ List.mem_cons_self) hmem
            have hnil : ∀ line ∈ before.map (List.drop (leadingSpaces first)), line = [] := by
              intro line hline
              obtain ⟨line', hline', rfl⟩ := List.mem_map.mp hline
              rw [List.drop_eq_nil_iff]
              by_contra hlong
              exact hshort (List.any_eq_true.mpr ⟨line', hline', decide_eq_true (not_le.mp hlong)⟩)
            rw [blockContent_append hblank (le_refl _), hdrop,
              clipLines_append_cons _ _ (List.cons_ne_nil c t), List.append_assoc, List.cons_append,
              List.cons_append, firstChar_flatMap_nil_append hnil hc]
            exact fun heq => hspace (Option.some.inj heq)

/-- The characters of a value are those of its lines, and line feeds. -/
theorem mem_literalBlock
    {parent : ℕ}
    {lines rest : List Text}
    {value : Text}
    (h : literalBlock parent lines = some (value, rest))
    {c : Char}
    (hc : c ∈ value) :
    c = '\n' ∨ ∃ line ∈ lines, c ∈ line := by
  have hcontent : ∀ (indent : ℕ) (lines : List Text), ∀ line ∈ (blockContent indent lines).1,
      ∃ line' ∈ lines, line <:+ line' := by
    intro indent lines
    induction lines with
    | nil =>
        intro line hline
        cases hline
    | cons first lines ih =>
        intro line hline
        rw [blockContent] at hline
        split at hline
        · rcases List.mem_cons.mp hline with rfl | hrest
          · exact ⟨first, List.mem_cons_self, List.drop_suffix _ _⟩
          · obtain ⟨line', hline', hsuffix⟩ := ih line hrest
            exact ⟨line', List.mem_cons_of_mem _ hline', hsuffix⟩
        · cases hline
  rw [literalBlock] at h
  split at h
  · cases h
    cases hc
  · split at h
    · cases h
      cases hc
    · split at h
      · cases h
      · cases h
        obtain ⟨line, hline, hmem⟩ := List.mem_flatMap.mp hc
        rcases List.mem_append.mp hmem with hmem | hlast
        · obtain ⟨line', hline', hsuffix⟩ := hcontent _ _ line
            ((List.rdropWhile_prefix _ _).subset hline)
          exact Or.inr ⟨line', hline', hsuffix.subset hmem⟩
        · exact Or.inl (List.mem_singleton.mp hlast)

/-- Empty lines are no value. -/
theorem literalBlock_of_blank
    {parent : ℕ}
    {lines : List Text}
    (h : ∀ line ∈ lines, isBlankLine line = true) :
    literalBlock parent lines = some ([], []) := by
  have hnone : (lines.find? fun line => !isBlankLine line) = none := by
    refine List.find?_eq_none.mpr fun line hline => ?_
    rw [h line hline]
    exact Bool.false_ne_true
  rw [literalBlock, hnone]

/-! ## Line feeds at the end -/

/-- The texts differ in nothing but one line feed at the end. -/
def SameUpToNewline (a b : Text) : Prop :=
  a = b ∨ a ++ ['\n'] = b ∨ a = b ++ ['\n']

/-- How many line feeds stand at the end. -/
def trailingNewlines (t : Text) : ℕ :=
  (t.rtakeWhile (· = '\n')).length

@[simp] theorem trailingNewlines_append_cons
    (t : Text)
    {c : Char}
    (hc : c ≠ '\n')
    (n : ℕ) :
    trailingNewlines (t ++ c :: List.replicate n '\n') = n := by
  rw [trailingNewlines, List.rtakeWhile, List.reverse_append, List.reverse_cons,
    List.reverse_replicate, List.append_assoc, List.takeWhile_append_of_pos,
    List.singleton_append, List.takeWhile_cons_of_neg, List.append_nil, List.length_reverse,
    List.length_replicate]
  · rw [decide_eq_true_eq]
    exact hc
  · intro d hd
    exact decide_eq_true (List.eq_of_mem_replicate hd)

theorem SameUpToNewline.firstChar
    {a b : Text}
    (h : SameUpToNewline a b) :
    firstChar a = Kernel.firstChar b := by
  rcases h with rfl | rfl | rfl
  · rfl
  · rw [firstChar_concat_newline]
  · rw [firstChar_concat_newline]

theorem SameUpToNewline.mem_iff
    {a b : Text}
    (h : SameUpToNewline a b)
    {c : Char}
    (hc : c ≠ '\n') :
    c ∈ a ↔ c ∈ b := by
  rcases h with rfl | rfl | rfl
  · exact Iff.rfl
  · simp [hc]
  · simp [hc]

/-- The lines of a text are clipped to the text with one line feed at its end. -/
theorem sameUpToNewline_clipLines_iff
    {lines : List Text}
    {t : Text}
    (hlines : ∀ line ∈ lines, '\n' ∉ line)
    (hsome : ∃ line ∈ lines, line ≠ [])
    (ht : lines.flatMap (fun line => line ++ ['\n']) = t ∨
      lines.flatMap (fun line => line ++ ['\n']) = t ++ ['\n'] ∧ t.getLast? ≠ some '\n') :
    SameUpToNewline (clipLines lines) t ↔ trailingNewlines t ≤ 2 := by
  -- the last line that is not empty, and the empty ones behind it
  obtain ⟨before, last, count, hsplit, hlast⟩ : ∃ (before : List Text) (last : Text) (count : ℕ),
      lines = before ++ last :: List.replicate count [] ∧ last ≠ [] := by
    clear ht
    induction lines using List.reverseRecOn with
    | nil =>
        obtain ⟨line, hline, -⟩ := hsome
        cases hline
    | append_singleton lines line ih =>
        by_cases hline : line = []
        · subst hline
          obtain ⟨before, last, count, rfl, hlast⟩ := ih
            (fun line hline => hlines line (List.mem_append_left _ hline)) (by
              obtain ⟨line, hmem, hne⟩ := hsome
              rcases List.mem_append.mp hmem with hmem | hmem
              · exact ⟨line, hmem, hne⟩
              · exact absurd (List.mem_singleton.mp hmem) hne)
          refine ⟨before, last, count + 1, ?_, hlast⟩
          rw [List.append_assoc, List.cons_append, List.replicate_succ']
        · exact ⟨lines, line, 0, rfl, hline⟩
  subst hsplit
  obtain ⟨core, c, rfl⟩ : ∃ core c, last = core ++ [c] := by
    obtain ⟨core, c, rfl⟩ := (List.eq_nil_or_concat last).resolve_left hlast
    exact ⟨core, c, List.concat_eq_append⟩
  have hc : c ≠ '\n' := by
    rintro rfl
    exact hlines _ (List.mem_append_right _ List.mem_cons_self)
      (List.mem_append_right _ (List.mem_singleton_self _))
  have hempty : ∀ n, (List.replicate n ([] : Text)).rdropWhile (· = []) = [] := by
    intro n
    rw [List.rdropWhile_eq_nil_iff]
    intro line hline
    exact decide_eq_true (List.eq_of_mem_replicate hline)
  have hfeeds : ∀ n, (List.replicate n ([] : Text)).flatMap (fun line => line ++ ['\n']) =
      List.replicate n '\n' := by
    intro n
    induction n with
    | zero => rfl
    | succ n ih => rw [List.replicate_succ, List.flatMap_cons, ih, List.replicate_succ]; rfl
  have hclip : clipLines (before ++ (core ++ [c]) :: List.replicate count []) =
      ((before.flatMap fun line => line ++ ['\n']) ++ core) ++ c :: List.replicate 1 '\n' := by
    rw [clipLines_append_cons _ _ hlast, clipLines, hempty]
    simp
  have hfull : (before ++ (core ++ [c]) :: List.replicate count []).flatMap
      (fun line => line ++ ['\n']) =
        ((before.flatMap fun line => line ++ ['\n']) ++ core) ++
          c :: List.replicate (count + 1) '\n' := by
    rw [List.flatMap_append, List.flatMap_cons, hfeeds, List.replicate_succ]
    simp
  rw [hclip]
  rw [hfull] at ht
  generalize (before.flatMap fun line => line ++ ['\n']) ++ core = base at *
  rcases ht with rfl | ⟨ht, hend⟩
  · rw [trailingNewlines_append_cons _ hc]
    constructor
    · rintro (heq | heq | heq)
      all_goals
        have hlength := congrArg List.length heq
        simp only [List.length_append, List.length_cons, List.length_replicate,
          List.length_nil] at hlength
        omega
    · intro hcount
      obtain rfl | rfl : count = 0 ∨ count = 1 := by omega
      · exact Or.inl rfl
      · exact Or.inr (Or.inl (by simp [List.replicate_succ]))
  · rw [List.replicate_succ', ← List.cons_append, ← List.append_assoc] at ht
    obtain rfl := List.append_cancel_right ht
    have hzero : count = 0 := by
      by_contra hpos
      obtain ⟨n, rfl⟩ := Nat.exists_eq_succ_of_ne_zero hpos
      rw [List.replicate_succ', ← List.cons_append, ← List.append_assoc] at hend
      exact hend List.getLast?_concat
    subst hzero
    rw [trailingNewlines_append_cons _ hc]
    refine iff_of_true (Or.inr (Or.inr ?_)) (Nat.zero_le 2)
    simp

end Kernel
end TensorGrep
