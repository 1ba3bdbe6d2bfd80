import TensorGrep.RepoMap.Gitignore

/-!
# The patterns of git

A pattern has levels, cut by slashes: characters, or `**` for any number of
directories.  What git means by a pattern is said for the names of a path, one at a
time (`GitPattern.matches`).  The matcher of the source reads the line of a pattern
instead; from it it has the rule with the expressions of the levels
(`parseGitignoreLine_line`).
-/

namespace TensorGrep
namespace RepoMap

open Kernel

/-! ## Patterns -/

/-- A character that stands for itself, a `?` or a `*`. -/
inductive GlobChar where
  | literal (c : Char)
  | anyChar
  | star
deriving DecidableEq

/-- What stands between slashes. -/
inductive GlobLevel where
  | stars
  | segment (chars : List GlobChar)
deriving DecidableEq

/-- The character in a line. -/
def GlobChar.char : GlobChar → Char
  | literal c => c
  | anyChar => '?'
  | star => '*'

/-- The level in a line. -/
def GlobLevel.text : GlobLevel → Text
  | stars => ['*', '*']
  | segment chars => chars.map GlobChar.char

/-- The levels in a line. -/
def levelsText : List GlobLevel → Text
  | [] => []
  | [level] => level.text
  | level :: rest => level.text ++ '/' :: levelsText rest

/-- Literal characters have no meaning of their own, and do not end a line. -/
def GlobChar.IsPlain : GlobChar → Prop
  | literal c => c ∉ ['*', '?', '[', '\\', '/'] ∧ c ∉ lineBoundaries
  | _ => True

/-- There are characters between slashes, and no two stars next to each other. -/
def GlobLevel.IsPlain : GlobLevel → Prop
  | stars => True
  | segment chars =>
      chars ≠ [] ∧ (∀ c ∈ chars, c.IsPlain) ∧
        chars.IsChain fun c d => c = GlobChar.star → d ≠ GlobChar.star

/-- The text of a pattern between the mark of its negation and the mark for directories. -/
def bodyText
    (leadingSlash : Bool)
    (levels : List GlobLevel) : Text :=
  if leadingSlash then '/' :: levelsText levels else levelsText levels

/-- A pattern.  Its first character does not make it a comment or another pattern, and its last one
is not cut off. -/
structure GitPattern where
  negated : Bool
  leadingSlash : Bool
  levels : List GlobLevel
  dirOnly : Bool
  ne_nil : levels ≠ []
  plain : ∀ level ∈ levels, level.IsPlain
  ne_stars : leadingSlash = false → levels ≠ [.stars]
  opens : negated = false → (bodyText leadingSlash levels).head? ≠ some '!' ∧
    ((bodyText leadingSlash levels).dropWhile isSpaceChar).head? ≠ some '#'
  closes : ∀ c, (levelsText levels).getLast? = some c → dirOnly = false → isSpaceChar c = false

namespace GitPattern

/-- The text of the pattern between its marks. -/
def body (P : GitPattern) : Text :=
  bodyText P.leadingSlash P.levels

/-- The body with the mark for directories. -/
def tail (P : GitPattern) : Text :=
  if P.dirOnly then P.body ++ ['/'] else P.body

/-- The line of the pattern. -/
def line (P : GitPattern) : Text :=
  if P.negated then '!' :: P.tail else P.tail

/-- There is a slash at the beginning or in the middle. -/
def anchored (P : GitPattern) : Bool :=
  P.leadingSlash || 2 ≤ P.levels.length

end GitPattern

/-! ## What git means -/

/-- The characters of a segment match a name. -/
def matchChars : List GlobChar → Text → Bool
  | [], t => t = []
  | .literal _ :: _, [] => false
  | .literal c :: chars, x :: t => x = c && matchChars chars t
  | .anyChar :: _, [] => false
  | .anyChar :: chars, _ :: t => matchChars chars t
  | .star :: chars, t => repeatThen (fun _ => true) (matchChars chars) t

/-- Levels match the names of a path: stars at the end match anything below, and other stars any
number of directories. -/
def matchLevels : List GlobLevel → RepoPath → Bool
  | [], names => names = []
  | [.stars], names => names ≠ []
  | .stars :: rest, names => names.tails.any (matchLevels rest)
  | .segment _ :: _, [] => false
  | .segment chars :: rest, name :: names => matchChars chars name.text && matchLevels rest names

/-- The pattern matches a path below the directory of its file.  An anchored pattern matches the
path, another one its last name. -/
def GitPattern.matches
    (P : GitPattern)
    (path : RepoPath)
    (isDir : Bool) : Bool :=
  (!P.dirOnly || isDir) &&
    matchLevels P.levels (if P.anchored then path else path.getLast?.toList)

/-! ## Rules -/

/-- The expression of a character. -/
def GlobChar.part : GlobChar → RegexPart
  | literal c => .char c
  | anyChar => .oneChar
  | star => .segmentStar

/-- The expression of levels. -/
def levelsRegex : List GlobLevel → List RegexPart
  | [] => []
  | [.stars] => [.anyChars]
  | .stars :: rest => .directories :: levelsRegex rest
  | [.segment chars] => chars.map GlobChar.part
  | .segment chars :: rest => chars.map GlobChar.part ++ .char '/' :: levelsRegex rest

/-- The rule of a pattern. -/
def GitPattern.rule (P : GitPattern) : GitignoreRule :=
  ⟨levelsRegex P.levels, P.anchored, P.negated, P.dirOnly⟩

/-! ## The text of levels -/

section Levels

theorem levelsText_cons
    {level : GlobLevel}
    {rest : List GlobLevel}
    (h : rest ≠ []) :
    levelsText (level :: rest) = level.text ++ '/' :: levelsText rest := by
  obtain ⟨second, rest, rfl⟩ := List.exists_cons_of_ne_nil h
  rfl

theorem char_ne_slash
    {c : GlobChar}
    (h : c.IsPlain) :
    c.char ≠ '/' := by
  cases c with
  | literal c =>
      rintro rfl
      exact h.1 (by simp)
  | anyChar => decide
  | star => decide

/-- A level has text without slashes. -/
theorem text_of_isPlain
    {level : GlobLevel}
    (h : level.IsPlain) :
    level.text ≠ [] ∧ '/' ∉ level.text := by
  cases level with
  | stars => exact ⟨by simp [GlobLevel.text], by simp [GlobLevel.text]⟩
  | segment chars =>
      obtain ⟨hne, hplain, -⟩ := h
      refine ⟨by simpa [GlobLevel.text] using hne, ?_⟩
      rw [GlobLevel.text, List.mem_map]
      rintro ⟨c, hc, heq⟩
      exact char_ne_slash (hplain c hc) heq

/-- The text of levels begins and ends without a slash, and has one if there are two levels. -/
theorem levelsText_slashes
    {levels : List GlobLevel}
    (hne : levels ≠ [])
    (hplain : ∀ level ∈ levels, level.IsPlain) :
    levelsText levels ≠ [] ∧ (levelsText levels).head? ≠ some '/' ∧
      (levelsText levels).getLast? ≠ some '/' ∧ ('/' ∈ levelsText levels ↔ 2 ≤ levels.length) := by
  induction levels with
  | nil => exact absurd rfl hne
  | cons level rest ih =>
      obtain ⟨htext, hslash⟩ := text_of_isPlain (hplain level List.mem_cons_self)
      obtain ⟨c, cs, hcons⟩ := List.exists_cons_of_ne_nil htext
      have hc : c ≠ '/' := by
        rintro rfl
        exact hslash (hcons ▸ List.mem_cons_self)
      cases rest with
      | nil =>
          refine ⟨htext, ?_, ?_, ?_⟩
          · simpa [levelsText, hcons] using hc
          · exact fun hlast => hslash (List.mem_of_getLast? hlast)
          · simpa [levelsText] using hslash
      | cons second rest =>
          have hrest := ih (List.cons_ne_nil _ _) fun l hl =>
            hplain l (List.mem_cons_of_mem _ hl)
          rw [levelsText_cons (List.cons_ne_nil _ _)]
          refine ⟨by simp, ?_, ?_, ?_⟩
          · simpa [hcons] using hc
          · rw [List.getLast?_append_cons, List.getLast?_cons_of_ne_nil hrest.1]
            exact hrest.2.2.1
          · simp

/-! ## The expressions of levels -/

theorem gitignorePatternToRegex_cons
    {c : Char}
    (hstar : c ≠ '*')
    (hany : c ≠ '?')
    (rest : Text) :
    gitignorePatternToRegex (c :: rest) = .char c :: gitignorePatternToRegex rest := by
  rw [gitignorePatternToRegex]
  · exact fun _ h _ => hstar h
  · exact fun _ h _ => hstar h
  · exact fun h => hstar h
  · exact fun h => hany h

theorem gitignorePatternToRegex_star
    {rest : Text}
    (h : rest.head? ≠ some '*') :
    gitignorePatternToRegex ('*' :: rest) = .segmentStar :: gitignorePatternToRegex rest := by
  rw [gitignorePatternToRegex]
  · rintro rest' rfl
    exact h rfl
  · rintro rest' rfl
    exact h rfl

/-- The characters of a segment are translated one by one. -/
theorem gitignorePatternToRegex_chars
    {chars : List GlobChar}
    (hplain : ∀ c ∈ chars, c.IsPlain)
    (hchain : chars.IsChain fun c d => c = GlobChar.star → d ≠ GlobChar.star)
    {rest : Text}
    (hrest : rest.head? ≠ some '*') :
    gitignorePatternToRegex (chars.map GlobChar.char ++ rest) =
      chars.map GlobChar.part ++ gitignorePatternToRegex rest := by
  induction chars with
  | nil => rfl
  | cons c chars ih =>
      have htail := ih (fun d hd => hplain d (List.mem_cons_of_mem _ hd)) hchain.tail
      rw [List.map_cons, List.map_cons, List.cons_append, List.cons_append]
      cases c with
      | literal c =>
          have hc := (hplain _ List.mem_cons_self).1
          rw [GlobChar.char, gitignorePatternToRegex_cons, htail]
          · rfl
          · rintro rfl
            exact hc (by simp)
          · rintro rfl
            exact hc (by simp)
      | anyChar => rw [GlobChar.char, gitignorePatternToRegex, htail, GlobChar.part]
      | star =>
          rw [GlobChar.char, gitignorePatternToRegex_star, htail, GlobChar.part]
          -- a second star would stand next to the first one
          cases chars with
          | nil => exact hrest
          | cons d chars =>
              have hd := hchain.rel rfl
              cases d with
              | literal d =>
                  rw [List.map_cons, List.cons_append, List.head?_cons, Ne, Option.some.injEq]
                  rintro rfl
                  exact (hplain (.literal '*') (by simp)).1 (by simp)
              | anyChar => simp [GlobChar.char]
              | star => exact absurd rfl hd

/-- The text of levels is translated to their expressions. -/
theorem gitignorePatternToRegex_levelsText
    {levels : List GlobLevel}
    (hplain : ∀ level ∈ levels, level.IsPlain) :
    gitignorePatternToRegex (levelsText levels) = levelsRegex levels := by
  induction levels with
  | nil => rfl
  | cons level rest ih =>
      have htail := ih fun l hl => hplain l (List.mem_cons_of_mem _ hl)
      cases rest with
      | nil =>
          cases level with
          | stars => rfl
          | segment chars =>
              obtain ⟨-, hchars, hchain⟩ := hplain _ List.mem_cons_self
              have hnil : ([] : Text).head? ≠ some '*' := by simp
              rw [levelsText, GlobLevel.text, ← List.append_nil (List.map _ _),
                gitignorePatternToRegex_chars hchars hchain hnil, levelsRegex,
                gitignorePatternToRegex, List.append_nil]
      | cons second rest =>
          rw [levelsText_cons (List.cons_ne_nil _ _)]
          cases level with
          | stars =>
              rw [GlobLevel.text, List.cons_append, List.cons_append, List.nil_append,
                gitignorePatternToRegex, htail, levelsRegex]
              simp
          | segment chars =>
              obtain ⟨-, hchars, hchain⟩ := hplain _ List.mem_cons_self
              rw [GlobLevel.text, gitignorePatternToRegex_chars hchars hchain (by simp),
                gitignorePatternToRegex_cons (by decide) (by decide), htail, levelsRegex]
              simp

end Levels

/-! ## Reading a line -/

/-- Nothing is cut off where the last character stays. -/
theorem rdropWhile_of_getLast?
    {α : Type}
    {p : α → Bool}
    {l : List α}
    {a : α}
    (h : l.getLast? = some a)
    (ha : p a = false) :
    l.rdropWhile p = l := by
  obtain ⟨l', rfl⟩ := List.getLast?_eq_some_iff.mp h
  rw [List.rdropWhile_concat_neg]
  simp [ha]

theorem splitNegation_of_ne
    {t : Text}
    (hmark : t.head? ≠ some '!')
    (hescape : t.head? ≠ some '\\') :
    splitNegation t = (false, t) := by
  rw [splitNegation]
  · rintro rest rfl
    exact hmark rfl
  · rintro rest rfl
    exact hescape rfl
  · rintro rest rfl
    exact hescape rfl

namespace GitPattern

variable (P : GitPattern)

theorem head?_levelsText_ne_escape :
    (levelsText P.levels).head? ≠ some '\\' := by
  obtain ⟨level, rest, hlevels⟩ := List.exists_cons_of_ne_nil P.ne_nil
  have hplain := P.plain level (hlevels ▸ List.mem_cons_self)
  have hhead : (levelsText P.levels).head? = level.text.head? := by
    rw [hlevels]
    cases rest with
    | nil => rfl
    | cons second rest =>
        rw [levelsText_cons (List.cons_ne_nil _ _),
          List.head?_append_of_ne_nil _ (text_of_isPlain hplain).1]
  rw [hhead]
  cases level with
  | stars => simp [GlobLevel.text]
  | segment chars =>
      obtain ⟨hne, hchars, -⟩ := hplain
      obtain ⟨c, chars, rfl⟩ := List.exists_cons_of_ne_nil hne
      have hc := hchars c List.mem_cons_self
      cases c with
      | literal c =>
          rw [GlobLevel.text, List.map_cons, List.head?_cons, Ne, Option.some.injEq]
          rintro rfl
          exact hc.1 (by simp)
      | anyChar => simp [GlobLevel.text, GlobChar.char]
      | star => simp [GlobLevel.text, GlobChar.char]

theorem head?_tail_ne_escape :
    P.tail.head? ≠ some '\\' := by
  have hlevels := P.head?_levelsText_ne_escape
  have hne := (levelsText_slashes P.ne_nil P.plain).1
  have hbody : P.body.head? ≠ some '\\' ∧ P.body ≠ [] := by
    rw [body, bodyText]
    split
    · exact ⟨by simp, by simp⟩
    · exact ⟨hlevels, hne⟩
  rw [tail]
  split
  · rw [List.head?_append_of_ne_nil _ hbody.2]
    exact hbody.1
  · exact hbody.1

/-- The last character of the body is not a slash, and that of the tail is not white space. -/
theorem exists_getLast?_tail :
    P.body.getLast? ≠ some '/' ∧
      ∃ c, P.tail.getLast? = some c ∧ isSpaceChar c = false ∧ (c = '/' ↔ P.dirOnly = true) := by
  obtain ⟨hne, -, hlast, -⟩ := levelsText_slashes P.ne_nil P.plain
  have hbody : P.body.getLast? = (levelsText P.levels).getLast? := by
    rw [body, bodyText]
    split
    · exact List.getLast?_cons_of_ne_nil hne
    · rfl
  refine ⟨hbody ▸ hlast, ?_⟩
  by_cases hdir : P.dirOnly = true
  · refine ⟨'/', ?_, by decide, iff_of_true rfl hdir⟩
    rw [tail, if_pos hdir, List.getLast?_concat]
  · have hend := List.getLast?_eq_some_getLast hne
    refine ⟨_, ?_, P.closes _ hend (Bool.eq_false_iff.mpr hdir), ?_⟩
    · rw [tail, if_neg hdir, hbody, hend]
    · refine iff_of_false (fun heq => hlast ?_) hdir
      rw [hend, heq]

/-- The line is no comment, and not blank. -/
theorem not_blank_line :
    P.line.all isSpaceChar = false ∧ (P.line.dropWhile isSpaceChar).head? ≠ some '#' := by
  obtain ⟨-, c, hlast, hspace, -⟩ := P.exists_getLast?_tail
  have hmem : c ∈ P.line := by
    rw [line]
    split
    · exact List.mem_cons_of_mem _ (List.mem_of_getLast? hlast)
    · exact List.mem_of_getLast? hlast
  refine ⟨?_, ?_⟩
  · rw [List.all_eq_false]
    exact ⟨c, hmem, by simp [hspace]⟩
  · by_cases hneg : P.negated = true
    · rw [line, if_pos hneg, List.dropWhile_cons_of_neg (by decide)]
      simp
    · have hopens := (P.opens (Bool.eq_false_iff.mpr hneg)).2
      rw [line, if_neg hneg, tail]
      split
      · rw [List.dropWhile_append]
        split
        · rw [List.dropWhile_cons_of_neg (by decide)]
          simp
        next hcut =>
          rw [List.isEmpty_iff] at hcut
          rw [List.head?_append_of_ne_nil _ hcut]
          exact hopens
      · exact hopens

theorem splitNegation_line :
    splitNegation P.line = (P.negated, P.tail) := by
  rw [line]
  split
  next hneg => rw [splitNegation, hneg]
  next hneg =>
    rw [Bool.not_eq_true] at hneg
    rw [hneg]
    refine splitNegation_of_ne ?_ P.head?_tail_ne_escape
    have hbody := (P.opens hneg).1
    rw [tail]
    split
    · by_cases hnil : P.body = []
      · simp [hnil]
      · rw [List.head?_append_of_ne_nil _ hnil]
        exact hbody
    · exact hbody

/-- There is a slash in the body if and only if the pattern is anchored. -/
theorem anchored_body :
    (P.body.head? = some '/' || '/' ∈ P.body.rdropWhile (· = '/')) = P.anchored ∧
      P.body.dropWhile (· = '/') = levelsText P.levels := by
  obtain ⟨hne, hhead, hlast, hmem⟩ := levelsText_slashes P.ne_nil P.plain
  have hdrop : (levelsText P.levels).dropWhile (· = '/') = levelsText P.levels := by
    obtain ⟨c, cs, hcons⟩ := List.exists_cons_of_ne_nil hne
    rw [hcons, List.head?_cons, Ne, Option.some.injEq] at hhead
    rw [hcons, List.dropWhile_cons_of_neg (by simpa using hhead)]
  rw [anchored, body, bodyText]
  by_cases hslash : P.leadingSlash = true
  · rw [if_pos hslash, List.dropWhile_cons_of_pos (by decide), hdrop, hslash]
    simp
  · rw [if_neg hslash, hdrop, Bool.eq_false_iff.mpr hslash]
    have hrdrop : (levelsText P.levels).rdropWhile (· = '/') = levelsText P.levels := by
      have hend := List.getLast?_eq_some_getLast hne
      refine rdropWhile_of_getLast? hend ?_
      rw [decide_eq_false_iff_not]
      exact fun heq => hlast (by rw [hend, heq])
    rw [hrdrop]
    simp [hhead, hmem]

/-- The line of a pattern is read as its rule. -/
theorem parseGitignoreLine_line :
    parseGitignoreLine P.line = some P.rule := by
  obtain ⟨-, c, hlast, hspace, hdir⟩ := P.exists_getLast?_tail
  obtain ⟨hblank, hcomment⟩ := P.not_blank_line
  obtain ⟨hanchored, hlevels⟩ := P.anchored_body
  have htail : P.tail ≠ [] := by
    intro hnil
    rw [hnil] at hlast
    cases hlast
  have hline : P.line.rdropWhile (· = '\n') = P.line := by
    have hend : P.line.getLast? = some c := by
      rw [line]
      split
      · rw [List.getLast?_cons_of_ne_nil htail, hlast]
      · exact hlast
    refine rdropWhile_of_getLast? hend ?_
    rw [decide_eq_false_iff_not]
    rintro rfl
    revert hspace
    decide
  have hstrip : rstripSpace P.tail = P.tail := rdropWhile_of_getLast? hlast hspace
  have hmark : P.tail.getLast? = some '/' ↔ P.dirOnly = true := by
    rw [hlast, Option.some.injEq]
    exact hdir
  have hflag : decide (P.tail.getLast? = some '/') = P.dirOnly := by
    rw [Bool.eq_iff_iff, decide_eq_true_iff]
    exact hmark
  have hbody : (if P.tail.getLast? = some '/' then P.tail.dropLast else P.tail) = P.body := by
    simp only [hmark]
    rw [tail]
    split
    · exact List.dropLast_concat
    · rfl
  have hne := (levelsText_slashes P.ne_nil P.plain).1
  rw [parseGitignoreLine]
  simp only [hline, hblank, hcomment, P.splitNegation_line, hstrip, htail, hflag, hbody, hanchored,
    hlevels, hne, gitignorePatternToRegex_levelsText P.plain, decide_false, Bool.or_self,
    Bool.false_eq_true, if_false]
  rfl

end GitPattern

end RepoMap
end TensorGrep
