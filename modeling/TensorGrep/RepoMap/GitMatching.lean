import TensorGrep.RepoMap.GitPatterns

/-!
# The expressions of patterns

The expression of levels matches the text of a path if and only if the levels match
the names of the path or of one of its ancestors, as long as no name has a newline in
it (`matchParts_levelsRegex`).  So a rule has a say about a path if and only if its
pattern matches the path or a directory on the way to it (`applies_rule_iff`).
-/

namespace TensorGrep
namespace RepoMap

open Kernel

/-! ## Texts of paths -/

/-- No name has a newline in it. -/
def NoNewlines (path : RepoPath) : Prop :=
  ∀ name ∈ path, '\n' ∉ name.text

theorem asPosix_cons
    (name : FileName)
    {rest : RepoPath}
    (h : rest ≠ []) :
    asPosix (name :: rest) = name.text ++ '/' :: asPosix rest := by
  obtain ⟨second, rest, rfl⟩ := List.exists_cons_of_ne_nil h
  rfl

theorem not_mem_asPosix
    {path : RepoPath}
    (h : NoNewlines path) :
    '\n' ∉ asPosix path := by
  induction path with
  | nil => simp [asPosix]
  | cons name rest ih =>
      have hname := h name List.mem_cons_self
      have hrest := ih fun n hn => h n (List.mem_cons_of_mem _ hn)
      cases rest with
      | nil => exact hname
      | cons second rest =>
          rw [asPosix_cons_cons, List.mem_append, List.mem_cons, not_or, not_or]
          exact ⟨hname, by decide, hrest⟩

/-- A text without a slash, and what may follow it, is cut in one way. -/
theorem eq_of_append_eq_append
    {u u' v v' : Text}
    (hu : '/' ∉ u)
    (hu' : '/' ∉ u')
    (hv : v = [] ∨ v.head? = some '/')
    (hv' : v' = [] ∨ v'.head? = some '/')
    (heq : u ++ v = u' ++ v') :
    u = u' ∧ v = v' := by
  rcases hv with rfl | hv
  · rcases hv' with rfl | hv'
    · rw [List.append_nil, List.append_nil] at heq
      exact ⟨heq, rfl⟩
    · obtain ⟨w', rfl⟩ := List.head?_eq_some_iff.mp hv'
      rw [List.append_nil] at heq
      exact absurd (heq ▸ by simp) hu
  · obtain ⟨w, rfl⟩ := List.head?_eq_some_iff.mp hv
    rcases hv' with rfl | hv'
    · rw [List.append_nil] at heq
      exact absurd (heq ▸ by simp) hu'
    · obtain ⟨w', rfl⟩ := List.head?_eq_some_iff.mp hv'
      obtain ⟨rfl, rfl⟩ := append_slash_inj hu hu' heq
      exact ⟨rfl, rfl⟩

/-- A slash in the text of a path stands between names. -/
theorem asPosix_eq_append_slash_iff
    {path : RepoPath}
    {v : Text} :
    (∃ u, asPosix path = u ++ '/' :: v) ↔
      ∃ suffix, suffix <:+ path ∧ suffix ≠ path ∧ suffix ≠ [] ∧ v = asPosix suffix := by
  induction path with
  | nil =>
      constructor
      · rintro ⟨u, heq⟩
        exact absurd (congrArg List.length heq) (by simp [asPosix])
      · rintro ⟨suffix, hsuffix, hne, hnil, -⟩
        exact absurd (List.suffix_nil.mp hsuffix) hnil
  | cons name rest ih =>
      have hsuffix_cons : ∀ suffix, (suffix <:+ name :: rest ∧ suffix ≠ name :: rest) ↔
          suffix <:+ rest := by
        intro suffix
        rw [List.suffix_cons_iff]
        constructor
        · rintro ⟨rfl | h, hne⟩
          · exact absurd rfl hne
          · exact h
        · intro h
          refine ⟨Or.inr h, ?_⟩
          rintro rfl
          exact absurd h.length_le (by simp)
      simp only [← and_assoc, hsuffix_cons]
      by_cases hnil : rest = []
      · subst hnil
        constructor
        · rintro ⟨u, heq⟩
          exact absurd ((show name.text = _ from heq) ▸ by simp) name.noSlash
        · rintro ⟨suffix, ⟨hsuffix, hne⟩, -⟩
          exact absurd (List.suffix_nil.mp hsuffix) hne
      · rw [asPosix_cons name hnil]
        constructor
        · rintro ⟨u, heq⟩
          by_cases hu : '/' ∈ u
          · -- the slash stands further behind
            obtain ⟨u₁, u₂, rfl, hu₁⟩ := List.eq_append_cons_of_mem hu
            rw [List.append_assoc, List.cons_append] at heq
            obtain ⟨-, hrest⟩ := append_slash_inj name.noSlash hu₁ heq
            obtain ⟨suffix, hsuffix, -, hne, hv⟩ := ih.mp ⟨u₂, hrest⟩
            exact ⟨suffix, ⟨hsuffix, hne⟩, hv⟩
          · obtain ⟨-, hrest⟩ := append_slash_inj name.noSlash hu heq
            exact ⟨rest, ⟨List.suffix_refl rest, hnil⟩, hrest.symm⟩
        · rintro ⟨suffix, ⟨hsuffix, hne⟩, rfl⟩
          by_cases hwhole : suffix = rest
          · exact ⟨name.text, by rw [hwhole]⟩
          · obtain ⟨u, hu⟩ := ih.mpr ⟨suffix, hsuffix, hwhole, hne, rfl⟩
            refine ⟨name.text ++ '/' :: u, ?_⟩
            rw [hu, List.append_assoc, List.cons_append]

/-! ## Repetitions -/

theorem repeatThen_iff
    {accepts : Char → Bool}
    {next : Text → Bool}
    {t : Text} :
    repeatThen accepts next t = true ↔
      ∃ u v, t = u ++ v ∧ (∀ c ∈ u, accepts c = true) ∧ next v = true := by
  induction t with
  | nil =>
      rw [repeatThen]
      constructor
      · exact fun h => ⟨[], [], rfl, by simp, h⟩
      · rintro ⟨u, v, heq, -, h⟩
        rw [(List.append_eq_nil_iff.mp heq.symm).2] at h
        exact h
  | cons x t ih =>
      rw [repeatThen, Bool.or_eq_true, Bool.and_eq_true, ih]
      constructor
      · rintro (h | ⟨hx, u, v, rfl, hu, h⟩)
        · exact ⟨[], x :: t, rfl, by simp, h⟩
        · exact ⟨x :: u, v, rfl, List.forall_mem_cons.mpr ⟨hx, hu⟩, h⟩
      · rintro ⟨u, v, heq, hu, h⟩
        cases u with
        | nil =>
            rw [List.nil_append] at heq
            exact Or.inl (heq ▸ h)
        | cons y u =>
            obtain ⟨rfl, rfl⟩ := List.cons.inj heq
            obtain ⟨hx, hu⟩ := List.forall_mem_cons.mp hu
            exact Or.inr ⟨hx, u, v, rfl, hu, h⟩

theorem slashThen_iff
    {next : Text → Bool}
    {t : Text} :
    slashThen next t = true ↔ ∃ v, t = '/' :: v ∧ next v = true := by
  cases t with
  | nil => simp [slashThen]
  | cons x t => simp [slashThen]

/-- `(?:.*/)?` in front of a path skips directories. -/
theorem directoriesThen_iff
    {next : Text → Bool}
    {path : RepoPath}
    (hne : path ≠ [])
    (hpath : NoNewlines path) :
    directoriesThen next (asPosix path) = true ↔
      ∃ suffix, suffix <:+ path ∧ suffix ≠ [] ∧ next (asPosix suffix) = true := by
  rw [directoriesThen, Bool.or_eq_true, repeatThen_iff]
  simp only [slashThen_iff]
  constructor
  · rintro (h | ⟨u, _, heq, -, v, rfl, h⟩)
    · exact ⟨path, List.suffix_refl path, hne, h⟩
    · obtain ⟨suffix, hsuffix, -, hsne, rfl⟩ := asPosix_eq_append_slash_iff.mp ⟨u, heq⟩
      exact ⟨suffix, hsuffix, hsne, h⟩
  · rintro ⟨suffix, hsuffix, hsne, h⟩
    by_cases hwhole : suffix = path
    · exact Or.inl (hwhole ▸ h)
    · obtain ⟨u, heq⟩ := asPosix_eq_append_slash_iff.mpr ⟨suffix, hsuffix, hwhole, hsne, rfl⟩
      refine Or.inr ⟨u, _, heq, ?_, _, rfl, h⟩
      intro c hc
      have hnewline := not_mem_asPosix hpath
      rw [heq, List.mem_append, not_or] at hnewline
      rw [notNewline, decide_eq_true_iff]
      rintro rfl
      exact hnewline.1 hc

/-- `(?:/.*)?$` matches at the end of a name. -/
theorem atDescendant_iff
    {t : Text}
    (h : '\n' ∉ t) :
    atDescendant t = true ↔ t = [] ∨ t.head? = some '/' := by
  have hend : ∀ v : Text, '\n' ∉ v → (atEnd v = true ↔ v = []) := by
    intro v hv
    have hne : v ≠ ['\n'] := by
      rintro rfl
      exact hv (List.mem_singleton_self _)
    simp [atEnd, hne]
  rw [atDescendant, Bool.or_eq_true, hend t h, slashThen_iff]
  simp only [repeatThen_iff]
  refine or_congr_right ?_
  constructor
  · rintro ⟨v, rfl, -⟩
    rfl
  · intro hhead
    obtain ⟨v, rfl⟩ := List.head?_eq_some_iff.mp hhead
    refine ⟨v, rfl, v, [], (List.append_nil v).symm, ?_, rfl⟩
    intro c hc
    rw [notNewline, decide_eq_true_iff]
    rintro rfl
    exact h (List.mem_cons_of_mem _ hc)

/-! ## Segments -/

/-- The expressions of characters match a beginning without slashes that the characters match. -/
theorem matchParts_chars_iff
    {final : Text → Bool}
    {parts : List RegexPart}
    {chars : List GlobChar}
    (hplain : ∀ c ∈ chars, c.IsPlain)
    {t : Text} :
    matchParts final (chars.map GlobChar.part ++ parts) t = true ↔
      ∃ u v, t = u ++ v ∧ '/' ∉ u ∧ matchChars chars u = true ∧ matchParts final parts v = true := by
  induction chars generalizing t with
  | nil =>
      constructor
      · exact fun h => ⟨[], t, rfl, by simp, by simp [matchChars], h⟩
      · rintro ⟨u, v, rfl, -, hu, h⟩
        rw [matchChars, decide_eq_true_iff] at hu
        rw [hu]
        exact h
  | cons c chars ih =>
      have hrest := fun {t} => ih (fun d hd => hplain d (List.mem_cons_of_mem _ hd)) (t := t)
      rw [List.map_cons, List.cons_append]
      cases c with
      | literal c =>
          have hc : c ≠ '/' := char_ne_slash (hplain _ List.mem_cons_self)
          cases t with
          | nil =>
              rw [GlobChar.part, matchParts]
              refine iff_of_false Bool.false_ne_true ?_
              rintro ⟨u, v, heq, -, hu, -⟩
              rw [(List.append_eq_nil_iff.mp heq.symm).1] at hu
              exact Bool.false_ne_true hu
          | cons x t =>
              rw [GlobChar.part, matchParts, Bool.and_eq_true, decide_eq_true_iff, hrest]
              constructor
              · rintro ⟨rfl, u, v, rfl, hslash, hu, h⟩
                refine ⟨x :: u, v, rfl, ?_, by simpa [matchChars] using hu, h⟩
                simpa [hslash] using hc.symm
              · rintro ⟨u, v, heq, hslash, hu, h⟩
                cases u with
                | nil => exact absurd hu Bool.false_ne_true
                | cons y u =>
                    obtain ⟨rfl, rfl⟩ := List.cons.inj heq
                    rw [matchChars, Bool.and_eq_true, decide_eq_true_iff] at hu
                    exact ⟨hu.1, u, v, rfl, fun hm => hslash (List.mem_cons_of_mem _ hm), hu.2, h⟩
      | anyChar =>
          cases t with
          | nil =>
              rw [GlobChar.part, matchParts]
              refine iff_of_false Bool.false_ne_true ?_
              rintro ⟨u, v, heq, -, hu, -⟩
              rw [(List.append_eq_nil_iff.mp heq.symm).1] at hu
              exact Bool.false_ne_true hu
          | cons x t =>
              rw [GlobChar.part, matchParts, Bool.and_eq_true, notSlash, decide_eq_true_iff, hrest]
              constructor
              · rintro ⟨hx, u, v, rfl, hslash, hu, h⟩
                refine ⟨x :: u, v, rfl, ?_, by simpa [matchChars] using hu, h⟩
                simpa [hslash] using hx.symm
              · rintro ⟨u, v, heq, hslash, hu, h⟩
                cases u with
                | nil => exact absurd hu Bool.false_ne_true
                | cons y u =>
                    obtain ⟨rfl, rfl⟩ := List.cons.inj heq
                    rw [List.mem_cons, not_or] at hslash
                    exact ⟨hslash.1 ∘ Eq.symm, u, v, rfl, hslash.2, hu, h⟩
      | star =>
          rw [GlobChar.part, matchParts, repeatThen_iff]
          simp only [hrest, matchChars, repeatThen_iff]
          constructor
          · rintro ⟨w, _, rfl, hw, u, v, rfl, hslash, hu, h⟩
            refine ⟨w ++ u, v, (List.append_assoc w u v).symm, ?_, ⟨w, u, rfl, by simp, hu⟩, h⟩
            rw [List.mem_append, not_or]
            refine ⟨fun hm => ?_, hslash⟩
            have := hw _ hm
            revert this
            decide
          · rintro ⟨_, v, rfl, hslash, ⟨w, u, rfl, -, hu⟩, h⟩
            rw [List.mem_append, not_or] at hslash
            refine ⟨w, u ++ v, List.append_assoc w u v, ?_, u, v, rfl, hslash.2, hu, h⟩
            intro c hc
            rw [notSlash, decide_eq_true_iff]
            rintro rfl
            exact hslash.1 hc

/-! ## Levels -/

/-- What stands after a name in the text of a path. -/
@[grind] def belowText : RepoPath → Text
  | [] => []
  | name :: rest => '/' :: asPosix (name :: rest)

theorem asPosix_eq_append_belowText
    (name : FileName)
    (rest : RepoPath) :
    asPosix (name :: rest) = name.text ++ belowText rest := by
  cases rest with
  | nil => exact (List.append_nil _).symm
  | cons second rest => rfl

theorem belowText_eq_nil_or
    (rest : RepoPath) :
    belowText rest = [] ∨ (belowText rest).head? = some '/' := by
  cases rest with
  | nil => exact Or.inl rfl
  | cons second rest => exact Or.inr rfl

/-- A segment matches the whole first name, if what comes next begins at its end. -/
theorem matchParts_segment_iff
    {final : Text → Bool}
    {parts : List RegexPart}
    {chars : List GlobChar}
    (hplain : ∀ c ∈ chars, c.IsPlain)
    {name : FileName}
    {rest : RepoPath}
    (hnext : ∀ v, v <:+ asPosix (name :: rest) → matchParts final parts v = true →
      v = [] ∨ v.head? = some '/') :
    matchParts final (chars.map GlobChar.part ++ parts) (asPosix (name :: rest)) = true ↔
      matchChars chars name.text = true ∧ matchParts final parts (belowText rest) = true := by
  rw [matchParts_chars_iff hplain]
  constructor
  · rintro ⟨u, v, heq, hslash, hu, h⟩
    have hv := hnext v (heq ▸ List.suffix_append u v) h
    rw [asPosix_eq_append_belowText] at heq
    obtain ⟨rfl, rfl⟩ := eq_of_append_eq_append name.noSlash hslash (belowText_eq_nil_or rest) hv heq
    exact ⟨hu, h⟩
  · rintro ⟨hu, h⟩
    exact ⟨name.text, belowText rest, asPosix_eq_append_belowText name rest, name.noSlash, hu, h⟩

theorem matchLevels_nil
    {levels : List GlobLevel}
    (h : levels ≠ []) :
    matchLevels levels [] = false := by
  induction levels with
  | nil => exact absurd rfl h
  | cons level rest ih =>
      cases level with
      | segment chars => rw [matchLevels]
      | stars =>
          cases rest with
          | nil => simp [matchLevels]
          | cons second rest => simp [matchLevels, ih (List.cons_ne_nil _ _)]

theorem matchLevels_stars_iff
    {rest : List GlobLevel}
    (h : rest ≠ [])
    {path : RepoPath} :
    matchLevels (.stars :: rest) path = true ↔
      ∃ suffix, suffix <:+ path ∧ matchLevels rest suffix = true := by
  obtain ⟨level, rest, rfl⟩ := List.exists_cons_of_ne_nil h
  rw [matchLevels, List.any_eq_true]
  · simp only [List.mem_tails]
  · simp

theorem levelsRegex_stars
    {rest : List GlobLevel}
    (h : rest ≠ []) :
    levelsRegex (.stars :: rest) = .directories :: levelsRegex rest := by
  obtain ⟨level, rest, rfl⟩ := List.exists_cons_of_ne_nil h
  rw [levelsRegex]
  simp

theorem levelsRegex_segment
    {chars : List GlobChar}
    {rest : List GlobLevel}
    (h : rest ≠ []) :
    levelsRegex (.segment chars :: rest) =
      chars.map GlobChar.part ++ .char '/' :: levelsRegex rest := by
  obtain ⟨level, rest, rfl⟩ := List.exists_cons_of_ne_nil h
  rw [levelsRegex]
  simp

theorem NoNewlines.of_sublist
    {path path' : RepoPath}
    (h : NoNewlines path)
    (hsub : path'.Sublist path) :
    NoNewlines path' :=
  fun name hname => h name (hsub.subset hname)

/-- The expression of levels matches the text of a path if and only if the levels match the path or
an ancestor of it. -/
def RegexAgrees (levels : List GlobLevel) : Prop :=
  ∀ path : RepoPath, path ≠ [] → NoNewlines path →
    (matchParts atDescendant (levelsRegex levels) (asPosix path) = true ↔
      ∃ q, q <+: path ∧ matchLevels levels q = true)

theorem regexAgrees_stars_last :
    RegexAgrees [.stars] := by
  intro path hpath hnewlines
  refine iff_of_true ?_ ⟨path, List.prefix_refl path, by simpa [matchLevels] using hpath⟩
  rw [levelsRegex, matchParts, repeatThen_iff]
  refine ⟨asPosix path, [], (List.append_nil _).symm, ?_, rfl⟩
  intro c hc
  rw [notNewline, decide_eq_true_iff]
  rintro rfl
  exact not_mem_asPosix hnewlines hc

theorem regexAgrees_stars
    {rest : List GlobLevel}
    (hrest : rest ≠ [])
    (ih : RegexAgrees rest) :
    RegexAgrees (.stars :: rest) := by
  intro path hpath hnewlines
  rw [levelsRegex_stars hrest, matchParts, directoriesThen_iff hpath hnewlines]
  simp only [matchLevels_stars_iff hrest]
  constructor
  · rintro ⟨suffix, hsuffix, hsne, h⟩
    obtain ⟨q, ⟨below, rfl⟩, hq⟩ :=
      (ih suffix hsne (hnewlines.of_sublist hsuffix.sublist)).mp h
    obtain ⟨above, rfl⟩ := hsuffix
    exact ⟨above ++ q, ⟨below, List.append_assoc _ _ _⟩, q, List.suffix_append _ _, hq⟩
  · rintro ⟨_, ⟨below, rfl⟩, q, ⟨above, rfl⟩, hq⟩
    have hqne : q ≠ [] := by
      rintro rfl
      rw [matchLevels_nil hrest] at hq
      exact Bool.false_ne_true hq
    have hsuffix : q ++ below <:+ above ++ q ++ below := by
      rw [List.append_assoc]
      exact List.suffix_append _ _
    have hsne : q ++ below ≠ [] := by simp [hqne]
    exact ⟨q ++ below, hsuffix, hsne, (ih _ hsne (hnewlines.of_sublist hsuffix.sublist)).mpr
      ⟨q, List.prefix_append _ _, hq⟩⟩

theorem regexAgrees_segment_last
    {chars : List GlobChar}
    (hchars : ∀ c ∈ chars, c.IsPlain) :
    RegexAgrees [.segment chars] := by
  intro path hpath hnewlines
  obtain ⟨name, names, rfl⟩ := List.exists_cons_of_ne_nil hpath
  have hall := not_mem_asPosix hnewlines
  have hnext : ∀ v, v <:+ asPosix (name :: names) →
      matchParts atDescendant [] v = true → v = [] ∨ v.head? = some '/' := by
    intro v hv h
    rw [matchParts] at h
    exact (atDescendant_iff fun hm => hall (hv.subset hm)).mp h
  have hbelow : matchParts atDescendant [] (belowText names) = true := by
    rw [asPosix_eq_append_belowText, List.mem_append, not_or] at hall
    rw [matchParts]
    exact (atDescendant_iff hall.2).mpr (belowText_eq_nil_or names)
  rw [levelsRegex, ← List.append_nil (chars.map _), matchParts_segment_iff hchars hnext,
    and_iff_left hbelow]
  constructor
  · intro h
    exact ⟨[name], ⟨names, rfl⟩, by simp [matchLevels, h]⟩
  · rintro ⟨q, ⟨below, heq⟩, hq⟩
    cases q with
    | nil => exact absurd hq Bool.false_ne_true
    | cons name' q =>
        obtain ⟨rfl, -⟩ := List.cons.inj heq
        rw [matchLevels, Bool.and_eq_true] at hq
        exact hq.1

theorem regexAgrees_segment
    {chars : List GlobChar}
    (hchars : ∀ c ∈ chars, c.IsPlain)
    {rest : List GlobLevel}
    (hrest : rest ≠ [])
    (ih : RegexAgrees rest) :
    RegexAgrees (.segment chars :: rest) := by
  intro path hpath hnewlines
  obtain ⟨name, names, rfl⟩ := List.exists_cons_of_ne_nil hpath
  have hbelow : NoNewlines names := hnewlines.of_sublist (List.sublist_cons_self _ _)
  have hnext : ∀ v, v <:+ asPosix (name :: names) →
      matchParts atDescendant (.char '/' :: levelsRegex rest) v = true →
      v = [] ∨ v.head? = some '/' := by
    intro v _ h
    cases v with
    | nil => exact Or.inl rfl
    | cons c v =>
        rw [matchParts, Bool.and_eq_true, decide_eq_true_iff] at h
        exact Or.inr (by rw [h.1]; rfl)
  rw [levelsRegex_segment hrest, matchParts_segment_iff hchars hnext]
  constructor
  · rintro ⟨hname, h⟩
    cases names with
    | nil => exact absurd h Bool.false_ne_true
    | cons second names =>
        rw [belowText, matchParts, Bool.and_eq_true] at h
        obtain ⟨q, hq, hmatch⟩ := (ih _ (List.cons_ne_nil _ _) hbelow).mp h.2
        refine ⟨name :: q, (List.prefix_cons_inj name).mpr hq, ?_⟩
        rw [matchLevels, Bool.and_eq_true]
        exact ⟨hname, hmatch⟩
  · rintro ⟨q, hprefix, hq⟩
    cases q with
    | nil => exact absurd hq Bool.false_ne_true
    | cons name' q =>
        obtain ⟨hhead, htail⟩ := List.cons_prefix_cons.mp hprefix
        rw [matchLevels, Bool.and_eq_true, hhead] at hq
        refine ⟨hq.1, ?_⟩
        cases names with
        | nil =>
            rw [List.prefix_nil.mp htail, matchLevels_nil hrest] at hq
            exact absurd hq.2 Bool.false_ne_true
        | cons second names =>
            rw [belowText, matchParts, Bool.and_eq_true]
            exact ⟨by decide, (ih _ (List.cons_ne_nil _ _) hbelow).mpr ⟨q, htail, hq.2⟩⟩

theorem regexAgrees
    {levels : List GlobLevel}
    (hne : levels ≠ [])
    (hplain : ∀ level ∈ levels, level.IsPlain) :
    RegexAgrees levels := by
  induction levels with
  | nil => exact absurd rfl hne
  | cons level rest ih =>
      by_cases hrest : rest = []
      · subst hrest
        cases level with
        | stars => exact regexAgrees_stars_last
        | segment chars => exact regexAgrees_segment_last (hplain _ List.mem_cons_self).2.1
      · have hagrees := ih hrest fun l hl => hplain l (List.mem_cons_of_mem _ hl)
        cases level with
        | stars => exact regexAgrees_stars hrest hagrees
        | segment chars =>
            exact regexAgrees_segment (hplain _ List.mem_cons_self).2.1 hrest hagrees

/-! ## Rules -/

/-- A pattern without a slash is a single segment. -/
theorem GitPattern.exists_segment
    (P : GitPattern)
    (h : P.anchored = false) :
    ∃ chars, P.levels = [.segment chars] := by
  rw [GitPattern.anchored, Bool.or_eq_false_iff, decide_eq_false_iff_not, not_le] at h
  obtain ⟨level, rest, hlevels⟩ := List.exists_cons_of_ne_nil P.ne_nil
  have hrest : rest = [] := by
    rw [hlevels, List.length_cons] at h
    exact List.length_eq_zero_iff.mp (by omega)
  subst hrest
  cases level with
  | stars => exact absurd hlevels (P.ne_stars h.1)
  | segment chars => exact ⟨chars, hlevels⟩

/-- A segment matches the last name of a path if and only if it matches the end of the path. -/
theorem matchLevels_getLast?_iff
    {chars : List GlobChar}
    {path : RepoPath} :
    matchLevels [.segment chars] path.getLast?.toList = true ↔
      ∃ suffix, suffix <:+ path ∧ matchLevels [.segment chars] suffix = true := by
  have hone : ∀ suffix, matchLevels [.segment chars] suffix = true ↔
      ∃ name : FileName, suffix = [name] ∧ matchChars chars name.text = true := by
    intro suffix
    cases suffix with
    | nil => simp [matchLevels]
    | cons name rest => simp [matchLevels, and_comm]
  simp only [hone]
  constructor
  · rintro ⟨name, heq, h⟩
    have hlast : path.getLast? = some name := by
      cases hl : path.getLast? with
      | none => simp [hl] at heq
      | some name' =>
          rw [hl, Option.toList_some] at heq
          rw [(List.cons.inj heq).1]
    obtain ⟨above, rfl⟩ := List.getLast?_eq_some_iff.mp hlast
    exact ⟨[name], List.suffix_append _ _, name, rfl, h⟩
  · rintro ⟨_, ⟨above, rfl⟩, name, rfl, h⟩
    exact ⟨name, by simp, h⟩

/-- The expression of a rule matches the text of a path if and only if the pattern matches the path
or an ancestor of it, as a directory. -/
theorem matchesPath_rule_iff
    (P : GitPattern)
    {path : RepoPath}
    (hpath : path ≠ [])
    (hnewlines : NoNewlines path) :
    P.rule.matchesPath path = true ↔ ∃ q, q <+: path ∧ P.matches q true = true := by
  have hagrees := regexAgrees P.ne_nil P.plain
  simp only [GitPattern.matches, Bool.or_true, Bool.true_and]
  rw [GitignoreRule.matchesPath, GitPattern.rule]
  by_cases hanchored : P.anchored = true
  · simp only [hanchored, if_true]
    exact hagrees path hpath hnewlines
  · have hunanchored := Bool.eq_false_iff.mpr hanchored
    obtain ⟨chars, hlevels⟩ := P.exists_segment hunanchored
    simp only [hunanchored, Bool.false_eq_true, if_false, hlevels, matchLevels_getLast?_iff]
    have hstars := regexAgrees_stars (List.cons_ne_nil _ _) (hlevels ▸ hagrees) path hpath hnewlines
    rw [levelsRegex_stars (List.cons_ne_nil _ _), matchParts] at hstars
    simp only [matchLevels_stars_iff (List.cons_ne_nil _ _)] at hstars
    exact hstars

theorem mem_ancestorPrefixes_iff
    {path q : RepoPath} :
    q ∈ ancestorPrefixes path ↔ q <+: path ∧ q ≠ [] ∧ q ≠ path := by
  rw [ancestorPrefixes, List.mem_map]
  simp only [List.mem_range]
  constructor
  · rintro ⟨index, hlt, rfl⟩
    refine ⟨List.take_prefix _ _, ?_, ?_⟩
    · intro hnil
      have := congrArg List.length hnil
      rw [List.length_take, List.length_nil] at this
      omega
    · intro hwhole
      have := congrArg List.length hwhole
      rw [List.length_take] at this
      omega
  · rintro ⟨⟨below, rfl⟩, hne, hwhole⟩
    have hbelow : below ≠ [] := by
      rintro rfl
      exact hwhole (List.append_nil q).symm
    have hq := List.length_pos_of_ne_nil hne
    have hb := List.length_pos_of_ne_nil hbelow
    refine ⟨q.length - 1, ?_, ?_⟩
    · rw [List.length_append]
      omega
    · rw [Nat.sub_add_cancel hq]
      exact List.take_left

theorem GitPattern.matches_iff
    (P : GitPattern)
    {path : RepoPath}
    {isDir : Bool} :
    P.matches path isDir = true ↔
      (P.dirOnly = true → isDir = true) ∧ P.matches path true = true := by
  rw [GitPattern.matches, GitPattern.matches]
  cases P.dirOnly <;> simp

theorem GitPattern.ne_nil_of_matches
    (P : GitPattern)
    {path : RepoPath}
    {isDir : Bool}
    (h : P.matches path isDir = true) :
    path ≠ [] := by
  rintro rfl
  rw [GitPattern.matches, Bool.and_eq_true] at h
  have hnil := matchLevels_nil P.ne_nil
  rw [List.getLast?_nil, Option.toList_none, ite_self, hnil] at h
  exact Bool.false_ne_true h.2

/-- A rule has a say about a path if and only if its pattern matches the path or a directory on the
way to it. -/
theorem applies_rule_iff
    (P : GitPattern)
    {path : RepoPath}
    (hpath : path ≠ [])
    (hnewlines : NoNewlines path)
    (isDir : Bool) :
    P.rule.applies path isDir = true ↔
      ∃ q, q <+: path ∧ P.matches q (isDir || q ≠ path) = true := by
  have hwhole := matchesPath_rule_iff P hpath hnewlines
  have habove : (ancestorPrefixes path).any P.rule.matchesPath = true ↔
      ∃ q, q <+: path ∧ q ≠ path ∧ P.matches q true = true := by
    rw [List.any_eq_true]
    simp only [mem_ancestorPrefixes_iff]
    constructor
    · rintro ⟨a, ⟨ha, hane, haway⟩, h⟩
      obtain ⟨q, hq, hmatch⟩ :=
        (matchesPath_rule_iff P hane (hnewlines.of_sublist ha.sublist)).mp h
      refine ⟨q, hq.trans ha, ?_, hmatch⟩
      rintro rfl
      exact haway (ha.eq_of_length (le_antisymm ha.length_le hq.length_le))
    · rintro ⟨q, hq, haway, hmatch⟩
      have hqne := P.ne_nil_of_matches hmatch
      exact ⟨q, ⟨hq, hqne, haway⟩,
        (matchesPath_rule_iff P hqne (hnewlines.of_sublist hq.sublist)).mpr
          ⟨q, List.prefix_refl q, hmatch⟩⟩
  rw [GitignoreRule.applies, show P.rule.dirOnly = P.dirOnly from rfl]
  by_cases hdir : P.dirOnly = true
  · rw [if_pos hdir, Bool.or_eq_true, Bool.and_eq_true, hwhole, habove]
    constructor
    · rintro (⟨q, hq, haway, hmatch⟩ | ⟨rfl, q, hq, hmatch⟩)
      · exact ⟨q, hq, by simpa [haway] using hmatch⟩
      · exact ⟨q, hq, by simpa using hmatch⟩
    · rintro ⟨q, hq, h⟩
      obtain ⟨himp, hmatch⟩ := P.matches_iff.mp h
      rcases Bool.or_eq_true_iff.mp (himp hdir) with hisDir | haway
      · exact Or.inr ⟨hisDir, q, hq, hmatch⟩
      · exact Or.inl ⟨q, hq, of_decide_eq_true haway, hmatch⟩
  · rw [if_neg hdir, Bool.or_eq_true, hwhole, habove]
    have hflag : ∀ q, P.matches q (isDir || q ≠ path) = true ↔ P.matches q true = true := by
      intro q
      rw [P.matches_iff, and_iff_right fun h => absurd h hdir]
    simp only [hflag]
    constructor
    · rintro (⟨q, hq, hmatch⟩ | ⟨q, hq, -, hmatch⟩)
      · exact ⟨q, hq, hmatch⟩
      · exact ⟨q, hq, hmatch⟩
    · rintro ⟨q, hq, hmatch⟩
      exact Or.inl ⟨q, hq, hmatch⟩

end RepoMap
end TensorGrep
