import Mathlib.Data.List.DropRight
import TensorGrep.Kernel.Lines
import TensorGrep.Kernel.Utf8Text

/-!
# Python's lines

Python cuts text into lines in more than one way.  Reading a file in text mode
turns `\r\n` and `\r` into `\n` (`universalNewlines`); `str.splitlines` cuts at
every line boundary that Unicode and Python know (`splitlines`); splitting at
`\n` cuts at line feeds only.  For text whose only line boundaries are `\n` and
`\r\n` they number the lines alike (`splitlines_universalNewlines`).
-/

namespace TensorGrep
namespace Kernel

/-- `bytes.decode("utf-8", errors="replace")`. -/
def decodeReplace (bytes : Bytes) : Text :=
  (fromUtf8 (toStringLossy bytes)).getD []

/-- Reading in text mode. -/
@[grind] def universalNewlines : Text → Text
  | [] => []
  | '\r' :: '\n' :: t => '\n' :: universalNewlines t
  | '\r' :: t => '\n' :: universalNewlines t
  | c :: t => c :: universalNewlines t

/-- The characters at which `str.splitlines` ends a line. -/
def lineBoundaries : List Char :=
  ['\n', '\r', '\x0b', '\x0c', '\x1c', '\x1d', '\x1e', '\u0085', '\u2028', '\u2029']

/-- The lines with one more character in front of the first one. -/
@[grind] def pushChar (c : Char) : List Text → List Text
  | [] => [[c]]
  | line :: rest => (c :: line) :: rest

/-- `str.splitlines(keepends=True)`. -/
@[grind] def splitlines : Text → List Text
  | [] => []
  | '\r' :: '\n' :: t => ['\r', '\n'] :: splitlines t
  | c :: t =>
      if c ∈ lineBoundaries then [c] :: splitlines t else pushChar c (splitlines t)

/-- A line of `str.splitlines(keepends=True)` without its end. -/
@[grind] def lineBody : Text → Text
  | [] => []
  | ['\r', '\n'] => []
  | [c] => if c ∈ lineBoundaries then [] else [c]
  | c :: t => c :: lineBody t

/-- `str.removesuffix("\n")`. -/
def removeNewline (line : Text) : Text :=
  if line.getLast? = some '\n' then line.dropLast else line

/-- The text without its carriage returns. -/
def withoutCr (t : Text) : Text :=
  t.filter (· ≠ '\r')

/-! ## Without carriage returns -/

/-- Removing carriage returns keeps infixes. -/
theorem withoutCr_isInfix
    {t₁ t₂ : Text}
    (h : t₁ <:+: t₂) :
    withoutCr t₁ <:+: withoutCr t₂ :=
  h.filter _

theorem removeNewline_concat
    (line : Text) :
    removeNewline (line ++ ['\n']) = line := by
  simp [removeNewline]

/-! ## Plain line ends -/

theorem linesOf_cons_of_ne
    {c : Char}
    (h : c ≠ '\n')
    (t : Text) :
    linesOf '\n' (c :: t) = pushChar c (linesOf '\n' t) := by
  rw [linesOf, if_neg h]
  cases linesOf '\n' t <;> rfl

/-- Text without other boundaries than line feeds. -/
theorem splitlines_of_newlines
    {t : Text}
    (h : ∀ c ∈ t, c ∈ lineBoundaries → c = '\n') :
    splitlines t = linesOf '\n' t := by
  induction t using splitlines.induct with
  | case1 => rfl
  | case2 t ih => exact absurd (h '\r' List.mem_cons_self (by decide)) (by decide)
  | case3 c t hpair hc ih =>
      have hrest := ih fun d hd => h d (List.mem_cons_of_mem _ hd)
      rw [splitlines, if_pos hc, linesOf, if_pos (h c List.mem_cons_self hc), hrest,
        h c List.mem_cons_self hc]
      exact hpair
  | case4 c t hpair hc ih =>
      have hrest := ih fun d hd => h d (List.mem_cons_of_mem _ hd)
      have hne : c ≠ '\n' := by
        rintro rfl
        exact hc (by decide)
      rw [splitlines, if_neg hc, linesOf_cons_of_ne hne, hrest]
      exact hpair

/-! ## Reading and cutting -/

/-- Well-formed bytes are read as their text. -/
theorem decodeReplace_of_fromUtf8
    {bytes : Bytes}
    {t : Text}
    (h : fromUtf8 bytes = some t) :
    decodeReplace bytes = t := by
  rw [← utf8_of_fromUtf8 h, decodeReplace, toStringLossy_utf8, fromUtf8_utf8, Option.getD_some]

/-- Nothing is lost by cutting. -/
theorem flatten_splitlines
    (t : Text) :
    (splitlines t).flatten = t := by
  induction t using splitlines.induct with
  | case1 => rfl
  | case2 t ih => simp [splitlines, ih]
  | case3 c t hpair hc ih =>
      rw [splitlines, if_pos hc, List.flatten_cons, ih]
      · rfl
      · exact hpair
  | case4 c t hpair hc ih =>
      rw [splitlines, if_neg hc]
      · cases hlines : splitlines t with
        | nil =>
            rw [hlines] at ih
            rw [← ih]
            rfl
        | cons line rest =>
            rw [hlines] at ih
            rw [← ih]
            rfl
      · exact hpair

theorem ne_nil_of_mem_splitlines
    {t line : Text}
    (h : line ∈ splitlines t) :
    line ≠ [] := by
  induction t using splitlines.induct generalizing line with
  | case1 => cases h
  | case2 t ih =>
      rw [splitlines] at h
      rcases List.mem_cons.mp h with rfl | h
      · exact List.cons_ne_nil _ _
      · exact ih h
  | case3 c t hpair hc ih =>
      rw [splitlines, if_pos hc] at h
      · rcases List.mem_cons.mp h with rfl | h
        · exact List.cons_ne_nil _ _
        · exact ih h
      · exact hpair
  | case4 c t hpair hc ih =>
      rw [splitlines, if_neg hc] at h
      · cases hlines : splitlines t with
        | nil =>
            rw [hlines, pushChar, List.mem_singleton] at h
            rw [h]
            exact List.cons_ne_nil _ _
        | cons first rest =>
            rw [hlines, pushChar] at h
            rcases List.mem_cons.mp h with rfl | h
            · exact List.cons_ne_nil _ _
            · exact ih (hlines ▸ List.mem_cons_of_mem _ h)
      · exact hpair

theorem splitlines_eq_nil_iff
    {t : Text} :
    splitlines t = [] ↔ t = [] := by
  constructor
  · intro h
    rw [← flatten_splitlines t, h]
    rfl
  · rintro rfl
    rfl

theorem lineBody_cons_cons
    {c d : Char}
    {t : Text}
    (h : c = '\r' → d = '\n' → t ≠ []) :
    lineBody (c :: d :: t) = c :: lineBody (d :: t) := by
  rw [lineBody]
  · rintro rfl heq
    cases heq
    exact h rfl rfl rfl
  · exact List.cons_ne_nil d t

theorem splitlines_cons_of_boundary
    {c : Char}
    {t : Text}
    (hc : c ∈ lineBoundaries)
    (hpair : c = '\r' → t.head? ≠ some '\n') :
    splitlines (c :: t) = [c] :: splitlines t := by
  rw [splitlines, if_pos hc]
  rintro t' rfl rfl
  exact hpair rfl rfl

theorem splitlines_cons_of_ne
    {c : Char}
    (hc : c ∉ lineBoundaries)
    (t : Text) :
    splitlines (c :: t) = pushChar c (splitlines t) := by
  rw [splitlines, if_neg hc]
  rintro t' rfl -
  exact hc (by decide)

/-- A character in front of the first line is in front of its body. -/
theorem map_lineBody_pushChar
    {c : Char}
    (hc : c ∉ lineBoundaries)
    {lines : List Text}
    (hlines : ∀ line ∈ lines, line ≠ []) :
    (pushChar c lines).map lineBody = pushChar c (lines.map lineBody) := by
  cases lines with
  | nil => simp [pushChar, lineBody, hc]
  | cons line rest =>
      obtain ⟨d, line, rfl⟩ := List.exists_cons_of_ne_nil (hlines line List.mem_cons_self)
      rw [pushChar, List.map_cons, List.map_cons, pushChar, lineBody_cons_cons]
      rintro rfl
      exact absurd (by decide) hc

/-- The ends of the lines are all that reading in text mode changes. -/
theorem map_lineBody_splitlines_universalNewlines
    (t : Text) :
    (splitlines (universalNewlines t)).map lineBody = (splitlines t).map lineBody := by
  induction t using universalNewlines.induct with
  | case1 => rfl
  | case2 t ih =>
      rw [universalNewlines, splitlines_cons_of_boundary (by decide) (absurd · (by decide)),
        splitlines, List.map_cons, List.map_cons, ih]
      rfl
  | case3 t hnext ih =>
      rw [universalNewlines, splitlines_cons_of_boundary (by decide) (absurd · (by decide)),
        splitlines_cons_of_boundary (by decide), List.map_cons, List.map_cons, ih]
      · rfl
      · intro _ hhead
        obtain ⟨t', rfl⟩ := List.head?_eq_some_iff.mp hhead
        exact hnext t' rfl
      · exact hnext
  | case4 c t hpair hcr ih =>
      have hc : c ≠ '\r' := fun heq => hcr heq
      rw [universalNewlines]
      · by_cases hboundary : c ∈ lineBoundaries
        · rw [splitlines_cons_of_boundary hboundary fun heq => absurd heq hc,
            splitlines_cons_of_boundary hboundary fun heq => absurd heq hc, List.map_cons,
            List.map_cons, ih]
        · rw [splitlines_cons_of_ne hboundary, splitlines_cons_of_ne hboundary,
            map_lineBody_pushChar hboundary fun _ => ne_nil_of_mem_splitlines,
            map_lineBody_pushChar hboundary fun _ => ne_nil_of_mem_splitlines, ih]
      · exact hpair
      · exact hcr

theorem pushChar_append
    (c : Char)
    {lines : List Text}
    (h : lines ≠ [])
    (rest : List Text) :
    pushChar c (lines ++ rest) = pushChar c lines ++ rest := by
  cases lines with
  | nil => exact absurd rfl h
  | cons line lines => rfl

/-- The lines that end at line feeds, each of them cut. -/
theorem splitlines_eq_flatMap
    (t : Text) :
    splitlines t = (linesOf '\n' t).flatMap splitlines := by
  induction t using splitlines.induct with
  | case1 => rfl
  | case2 t ih =>
      rw [linesOf_cons_of_ne (by decide), linesOf, if_pos rfl, pushChar, List.flatMap_cons, ← ih,
        splitlines]
      rfl
  | case3 c t hpair hc ih =>
      have hpair' : c = '\r' → t.head? ≠ some '\n' := by
        rintro rfl hhead
        obtain ⟨t', rfl⟩ := List.head?_eq_some_iff.mp hhead
        exact hpair t' rfl rfl
      rw [splitlines_cons_of_boundary hc hpair']
      by_cases hnl : c = '\n'
      · subst hnl
        rw [linesOf, if_pos rfl, List.flatMap_cons, ← ih]
        rfl
      · rw [linesOf_cons_of_ne hnl]
        cases hlines : linesOf '\n' t with
        | nil =>
            rw [linesOf_eq_nil_iff.mp hlines, pushChar, List.flatMap_singleton,
              splitlines_cons_of_boundary hc fun _ => by simp]
        | cons line rest =>
            have hhead : line.head? = t.head? := by
              obtain ⟨d, line, rfl⟩ := List.exists_cons_of_ne_nil
                (ne_nil_of_mem_linesOf (hlines ▸ List.mem_cons_self))
              rw [← @flatten_linesOf _ _ '\n' t, hlines]
              rfl
            rw [pushChar, List.flatMap_cons,
              splitlines_cons_of_boundary hc fun heq => hhead ▸ hpair' heq, List.cons_append,
              ← List.flatMap_cons, ← hlines, ← ih]
  | case4 c t hpair hc ih =>
      have hnl : c ≠ '\n' := by
        rintro rfl
        exact hc (by decide)
      rw [splitlines_cons_of_ne hc, ih, linesOf_cons_of_ne hnl]
      cases hlines : linesOf '\n' t with
      | nil =>
          rw [List.flatMap_nil, pushChar, List.flatMap_singleton, splitlines_cons_of_ne hc]
          rfl
      | cons line rest =>
          have hline : line ≠ [] := ne_nil_of_mem_linesOf (hlines ▸ List.mem_cons_self)
          rw [List.flatMap_cons, pushChar_append c fun h => hline (splitlines_eq_nil_iff.mp h),
            pushChar, List.flatMap_cons, splitlines_cons_of_ne hc]

/-- A text is one line if and only if there is no line boundary in front of its end. -/
theorem splitlines_eq_singleton_iff
    {t : Text}
    (h : t ≠ []) :
    splitlines t = [t] ↔ ∀ c ∈ lineBody t, c ∉ lineBoundaries := by
  induction t using splitlines.induct with
  | case1 => exact absurd rfl h
  | case2 t ih =>
      rw [splitlines]
      cases t with
      | nil => simp [splitlines, lineBody]
      | cons d t =>
          refine iff_of_false (by simp) fun hall => ?_
          have hbody : lineBody ('\r' :: '\n' :: d :: t) =
              '\r' :: lineBody ('\n' :: d :: t) :=
            lineBody_cons_cons fun _ _ => List.cons_ne_nil d t
          exact hall '\r' (hbody ▸ List.mem_cons_self) (by decide)
  | case3 c t hpair hc ih =>
      rw [splitlines, if_pos hc]
      · cases t with
        | nil => simp [splitlines, lineBody, hc]
        | cons d t =>
            refine iff_of_false ?_ fun hall => ?_
            · simp
            · have hbody : lineBody (c :: d :: t) = c :: lineBody (d :: t) :=
                lineBody_cons_cons fun hcr hnl => absurd hnl fun hnl => hpair t hcr (hnl ▸ rfl)
              exact hall c (hbody ▸ List.mem_cons_self) hc
      · exact hpair
  | case4 c t hpair hc ih =>
      rw [splitlines_cons_of_ne hc]
      cases t with
      | nil => simp [splitlines, pushChar, lineBody, hc]
      | cons d t =>
          have hbody : lineBody (c :: d :: t) = c :: lineBody (d :: t) :=
            lineBody_cons_cons fun hcr => by
              subst hcr
              exact absurd (by decide) hc
          have hpush : pushChar c (splitlines (d :: t)) = [c :: d :: t] ↔
              splitlines (d :: t) = [d :: t] := by
            cases splitlines (d :: t) with
            | nil => simp [pushChar]
            | cons line rest => simp [pushChar]
          rw [hpush, ih (List.cons_ne_nil d t), hbody, List.forall_mem_cons]
          exact ⟨fun hall => ⟨hc, hall⟩, fun hall => hall.2⟩

/-- The characters of the bodies of the lines are those that end no line. -/
theorem exists_mem_lineBody_iff
    {t : Text}
    {c : Char} :
    (∃ line ∈ (splitlines t).map lineBody, c ∈ line) ↔ c ∈ t ∧ c ∉ lineBoundaries := by
  have hpush : ∀ (d : Char) (lines : List Text),
      (∃ line ∈ pushChar d lines, c ∈ line) ↔ c = d ∨ ∃ line ∈ lines, c ∈ line := by
    intro d lines
    cases lines with
    | nil => simp [pushChar]
    | cons line lines => simp [pushChar, or_assoc]
  induction t using splitlines.induct with
  | case1 => simp [splitlines]
  | case2 t ih =>
      have hends : c ∉ lineBoundaries → c ≠ '\r' ∧ c ≠ '\n' := by
        intro hc
        constructor
        · rintro rfl
          exact hc (by decide)
        · rintro rfl
          exact hc (by decide)
      rw [splitlines, List.map_cons, List.exists_mem_cons_iff, Iff.intro ih.mp ih.mpr]
      simp only [List.mem_cons]
      constructor
      · rintro (hnone | ⟨hc, hplain⟩)
        · cases hnone
        · exact ⟨Or.inr (Or.inr hc), hplain⟩
      · rintro ⟨hc | hc | hc, hplain⟩
        · exact absurd hc (hends hplain).1
        · exact absurd hc (hends hplain).2
        · exact Or.inr ⟨hc, hplain⟩
  | case3 d t hpair hd ih =>
      have hbody : lineBody [d] = [] := by
        rw [lineBody, if_pos hd]
      rw [splitlines, if_pos hd, List.map_cons, List.exists_mem_cons_iff, Iff.intro ih.mp ih.mpr,
        hbody]
      · simp only [List.mem_cons, List.not_mem_nil, false_or]
        constructor
        · rintro ⟨hc, hplain⟩
          exact ⟨Or.inr hc, hplain⟩
        · rintro ⟨rfl | hc, hplain⟩
          · exact absurd hd hplain
          · exact ⟨hc, hplain⟩
      · exact hpair
  | case4 d t hpair hd ih =>
      rw [splitlines, if_neg hd, map_lineBody_pushChar hd fun line => ne_nil_of_mem_splitlines,
        hpush, Iff.intro ih.mp ih.mpr, List.mem_cons]
      · constructor
        · rintro (rfl | ⟨hc, hplain⟩)
          · exact ⟨Or.inl rfl, hd⟩
          · exact ⟨Or.inr hc, hplain⟩
        · rintro ⟨rfl | hc, hplain⟩
          · exact Or.inl rfl
          · exact Or.inr ⟨hc, hplain⟩
      · exact hpair

/-! ## Text mode -/

/-- Text mode leaves no carriage return, and changes nothing else than line ends. -/
theorem mem_universalNewlines_iff
    {t : Text}
    {c : Char}
    (hfeed : c ≠ '\n') :
    c ∈ universalNewlines t ↔ c ∈ t ∧ c ≠ '\r' := by
  induction t using universalNewlines.induct with
  | case1 => simp [universalNewlines]
  | case2 t ih =>
      rw [universalNewlines, List.mem_cons, Iff.intro ih.mp ih.mpr, List.mem_cons, List.mem_cons]
      grind
  | case3 t hnext ih =>
      rw [universalNewlines, List.mem_cons, Iff.intro ih.mp ih.mpr, List.mem_cons]
      · grind
      · exact hnext
  | case4 d t hpair hcr ih =>
      have hd : d ≠ '\r' := fun heq => hcr heq
      rw [universalNewlines, List.mem_cons, Iff.intro ih.mp ih.mpr, List.mem_cons]
      · grind
      · exact hpair
      · exact hcr

theorem universalNewlines_eq_nil_iff
    {t : Text} :
    universalNewlines t = [] ↔ t = [] := by
  induction t using universalNewlines.induct with
  | case1 => simp [universalNewlines]
  | case2 t _ => simp [universalNewlines]
  | case3 t hnext _ =>
      rw [universalNewlines]
      · simp
      · exact hnext
  | case4 d t hpair hcr _ =>
      rw [universalNewlines]
      · simp
      · exact hpair
      · exact hcr

theorem universalNewlines_of_not_mem
    {t : Text}
    (h : '\r' ∉ t) :
    universalNewlines t = t := by
  induction t using universalNewlines.induct with
  | case1 => rfl
  | case2 t ih => exact absurd List.mem_cons_self h
  | case3 t hnext ih => exact absurd List.mem_cons_self h
  | case4 d t hpair hcr ih =>
      rw [universalNewlines, ih fun hmem => h (List.mem_cons_of_mem _ hmem)]
      · exact hpair
      · exact hcr

theorem universalNewlines_cons_of_ne
    {c : Char}
    (h : c ≠ '\r')
    (t : Text) :
    universalNewlines (c :: t) = c :: universalNewlines t := by
  rw [universalNewlines]
  · rintro t' rfl
    exact absurd rfl h
  · exact h

theorem universalNewlines_cr_of_head?_ne
    {t : Text}
    (h : t.head? ≠ some '\n') :
    universalNewlines ('\r' :: t) = '\n' :: universalNewlines t := by
  rw [universalNewlines]
  rintro t' rfl
  exact h rfl

/-- A character that belongs to no line end separates what is read in text mode. -/
theorem universalNewlines_append_cons
    {c : Char}
    (hreturn : c ≠ '\r')
    (hfeed : c ≠ '\n')
    (t s : Text) :
    universalNewlines (t ++ c :: s) = universalNewlines t ++ c :: universalNewlines s := by
  induction t using universalNewlines.induct with
  | case1 => exact universalNewlines_cons_of_ne hreturn s
  | case2 t ih =>
      rw [List.cons_append, List.cons_append, universalNewlines, ih, universalNewlines,
        List.cons_append]
  | case3 t hnext ih =>
      have hhead : t.head? ≠ some '\n' := by
        cases t with
        | nil => simp
        | cons d t =>
            rintro ⟨rfl⟩
            exact hnext t rfl
      have hhead' : (t ++ c :: s).head? ≠ some '\n' := by
        cases t with
        | nil => simpa using hfeed
        | cons d t => exact hhead
      rw [List.cons_append, universalNewlines_cr_of_head?_ne hhead', ih,
        universalNewlines_cr_of_head?_ne hhead, List.cons_append]
  | case4 d t hpair hcr ih =>
      have hd : d ≠ '\r' := fun heq => hcr heq
      rw [List.cons_append, universalNewlines_cons_of_ne hd, ih, universalNewlines_cons_of_ne hd,
        List.cons_append]

/-- In text without line feeds every carriage return is one line end. -/
theorem universalNewlines_of_newline_not_mem
    {t : Text}
    (h : '\n' ∉ t) :
    universalNewlines t = t.map fun c => if c = '\r' then '\n' else c := by
  induction t with
  | nil => rfl
  | cons c t ih =>
      have hrest := ih fun hmem => h (List.mem_cons_of_mem c hmem)
      by_cases hc : c = '\r'
      · subst hc
        rw [universalNewlines_cr_of_head?_ne, hrest, List.map_cons, if_pos rfl]
        intro hhead
        exact h (List.mem_cons_of_mem _ (List.mem_of_mem_head? hhead))
      · rw [universalNewlines_cons_of_ne hc, hrest, List.map_cons, if_neg hc]

theorem newline_mem_universalNewlines_iff
    {t : Text} :
    '\n' ∈ universalNewlines t ↔ '\n' ∈ t ∨ '\r' ∈ t := by
  induction t using universalNewlines.induct with
  | case1 => simp [universalNewlines]
  | case2 t _ => simp [universalNewlines]
  | case3 t hnext _ =>
      rw [universalNewlines]
      · simp
      · exact hnext
  | case4 c t hpair hcr ih =>
      have hc : c ≠ '\r' := fun heq => hcr heq
      rw [universalNewlines_cons_of_ne hc, List.mem_cons, Iff.intro ih.mp ih.mpr, List.mem_cons,
        List.mem_cons, or_iff_right hc.symm, or_assoc]

theorem newline_not_mem_map_feed
    (t : Text) :
    '\n' ∉ t.map fun c => if c = '\n' then '\r' else c := by
  intro hc
  obtain ⟨c, -, heq⟩ := List.mem_map.mp hc
  by_cases hfeed : c = '\n'
  · rw [if_pos hfeed] at heq
    exact absurd heq (by decide)
  · rw [if_neg hfeed] at heq
    exact hfeed heq

/-- Carriage returns in place of the line feeds are read as line feeds. -/
theorem universalNewlines_map_feed
    {t : Text}
    (h : '\r' ∉ t) :
    universalNewlines (t.map fun c => if c = '\n' then '\r' else c) = t := by
  rw [universalNewlines_of_newline_not_mem (newline_not_mem_map_feed t), List.map_map]
  refine (List.map_congr_left fun c hc => ?_).trans (List.map_id t)
  have hne : c ≠ '\r' := fun heq => h (heq ▸ hc)
  by_cases hfeed : c = '\n'
  · simp [hfeed]
  · simp [hfeed, hne]

/-- A text with a line end is read like another text. -/
theorem exists_ne_of_newline
    {t : Text}
    (h : '\n' ∈ t ∨ '\r' ∈ t) :
    ∃ s, s ≠ t ∧ universalNewlines s = universalNewlines t ∧
      ∀ c ∈ s, c ∈ t ∨ c = '\n' ∨ c = '\r' := by
  have hread : '\n' ∈ universalNewlines t := newline_mem_universalNewlines_iff.mpr h
  have hclean : '\r' ∉ universalNewlines t := fun hmem =>
    ((mem_universalNewlines_iff (by decide)).mp hmem).2 rfl
  have hmem : ∀ c ∈ universalNewlines t, c ∈ t ∨ c = '\n' ∨ c = '\r' := by
    intro c hc
    by_cases hfeed : c = '\n'
    · exact Or.inr (Or.inl hfeed)
    · exact Or.inl ((mem_universalNewlines_iff hfeed).mp hc).1
  by_cases hsame : t = universalNewlines t
  · -- no carriage return is in the text, so it may have them in place of its line feeds
    refine ⟨_, fun heq => ?_, universalNewlines_map_feed hclean, fun c hc => ?_⟩
    · have hfeed : '\n' ∈ t := hsame ▸ hread
      refine newline_not_mem_map_feed (universalNewlines t) ?_
      rwa [heq]
    · obtain ⟨d, hd, rfl⟩ := List.mem_map.mp hc
      split_ifs with hfeed
      · exact Or.inr (Or.inr rfl)
      · exact hmem d hd
  · exact ⟨_, fun heq => hsame heq.symm, universalNewlines_of_not_mem hclean, hmem⟩

/-! ## Stripping -/

/-- Blanks at the end are stripped. -/
theorem rdropWhile_append_of_all
    {space : Char → Bool}
    {t blanks : Text}
    (h : ∀ c ∈ blanks, space c = true) :
    (t ++ blanks).rdropWhile space = t.rdropWhile space := by
  rw [List.rdropWhile, List.reverse_append, List.dropWhile_append_of_pos, List.rdropWhile]
  intro c hc
  exact h c (List.mem_reverse.mp hc)

end Kernel
end TensorGrep
