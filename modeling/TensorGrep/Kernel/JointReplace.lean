import TensorGrep.Kernel.TextReplace

/-!
# Replacing several patterns at once

`replaceEach` reads a text once, and replaces the patterns of a list of rules in
what it reads: what it writes is not read again.  Replacing one pattern after the
other reads what the first replacement wrote.  For two patterns that do not overlap
the two agree if and only if the first replacement makes no occurrence of the second
pattern, or the new text is this pattern (`PatternPair.fillInTurn_eq_fill_iff`).
-/

namespace TensorGrep
namespace Kernel

universe u

variable {α : Type u} [DecidableEq α]

/-! ## Occurrences -/

/-- The number of positions at which a pattern begins. -/
@[grind] def occurrences (pat : List α) : List α → ℕ
  | [] => 0
  | c :: s => (if pat <+: c :: s then 1 else 0) + occurrences pat s

theorem occurrences_cons_of_not_begins
    {pat s : List α}
    {c : α}
    (h : ¬ pat <+: c :: s) :
    occurrences pat (c :: s) = occurrences pat s := by
  rw [occurrences, if_neg h, Nat.zero_add]

theorem occurrences_le_append
    (pat w s : List α) :
    occurrences pat s ≤ occurrences pat (w ++ s) := by
  induction w with
  | nil => exact le_rfl
  | cons c w ih =>
      rw [List.cons_append, occurrences]
      exact ih.trans (Nat.le_add_left _ _)

/-- A text in front adds occurrences, unless none begins in it. -/
theorem occurrences_append_eq_iff
    {pat w s : List α} :
    occurrences pat (w ++ s) = occurrences pat s ↔
      ∀ i < w.length, ¬ pat <+: w.drop i ++ s := by
  induction w with
  | nil => simp
  | cons c w ih =>
      have hle := occurrences_le_append pat w s
      rw [List.cons_append, occurrences]
      constructor
      · intro h i hi
        by_cases hhead : pat <+: c :: (w ++ s)
        · rw [if_pos hhead] at h
          omega
        · rw [if_neg hhead, Nat.zero_add] at h
          cases i with
          | zero => exact hhead
          | succ i => exact ih.mp h i (by simpa using hi)
      · intro h
        have hhead : ¬ pat <+: c :: (w ++ s) := h 0 (by simp)
        rw [if_neg hhead, Nat.zero_add]
        exact ih.mpr fun i hi => h (i + 1) (by simpa using hi)

/-! ## One pattern -/

section OnePattern

variable {pat new : List α}

theorem replaceAll_cons_of_not_begins
    {c : α}
    {s : List α}
    (h : ¬ pat <+: c :: s) :
    replaceAll pat new (c :: s) = c :: replaceAll pat new s := by
  rw [replaceAll, replaceFrom, if_neg h]
  rfl

/-- A text without the pattern is kept. -/
theorem replaceAll_of_not_infix
    {s : List α}
    (h : ¬ pat <:+: s) :
    replaceAll pat new s = s := by
  induction s with
  | nil => rfl
  | cons c s ih =>
      rw [List.infix_cons_iff, not_or] at h
      rw [replaceAll_cons_of_not_begins h.1, ih h.2]

/-- What stands in front of the first occurrence that begins in a text is kept. -/
theorem replaceAll_append_cases
    (hpat : pat ≠ [])
    (w s : List α) :
    (∀ i < w.length, ¬ pat <+: w.drop i ++ s) ∨
      ∃ before after rest, w = before ++ after ∧ after ≠ [] ∧ pat <+: after ++ s ∧
        replaceAll pat new (w ++ s) = before ++ (new ++ rest) := by
  induction w with
  | nil => exact Or.inl (by simp)
  | cons c w ih =>
      by_cases hhead : pat <+: c :: (w ++ s)
      · obtain ⟨rest, hrest⟩ := hhead
        refine Or.inr ⟨[], c :: w, replaceAll pat new rest, rfl, List.cons_ne_nil c w,
          ⟨rest, hrest⟩, ?_⟩
        rw [List.cons_append, ← hrest, replaceAll_pat hpat, List.nil_append]
      · rcases ih with hnone | ⟨before, after, rest, hw, hafter, hpre, heq⟩
        · refine Or.inl fun i hi => ?_
          cases i with
          | zero => exact hhead
          | succ i => exact hnone i (by simpa using hi)
        · refine Or.inr ⟨c :: before, after, rest, by rw [hw, List.cons_append], hafter, hpre, ?_⟩
          rw [List.cons_append, replaceAll_cons_of_not_begins hhead, heq, List.cons_append]

/-- Replacing a pattern by itself changes nothing. -/
theorem replaceAll_self
    (hpat : pat ≠ [])
    (s : List α) :
    replaceAll pat pat s = s := by
  induction hlen : s.length using Nat.strong_induction_on generalizing s with
  | _ n ih =>
      subst hlen
      cases s with
      | nil => rfl
      | cons c s =>
          by_cases hpre : pat <+: c :: s
          · obtain ⟨rest, hrest⟩ := hpre
            have hlt : rest.length < (c :: s).length := by
              rw [← hrest, List.length_append]
              have := List.length_pos_of_ne_nil hpat
              omega
            rw [← hrest, replaceAll_pat hpat, ih _ hlt rest rfl]
          · rw [replaceAll_cons_of_not_begins hpre, ih s.length (by simp) s rfl]

end OnePattern

/-! ## Several patterns -/

/-- The loop of `replaceEach`; so many symbols still belong to the last occurrence. -/
@[grind] def replaceEachFrom
    (rules : List (List α × List α)) : ℕ → List α → List α
  | _, [] => []
  | n + 1, _ :: s => replaceEachFrom rules n s
  | 0, c :: s =>
      match rules.find? fun rule => rule.1 <+: c :: s with
      | some rule => rule.2 ++ replaceEachFrom rules (rule.1.length - 1) s
      | none => c :: replaceEachFrom rules 0 s

/-- Read the text once, and replace the first pattern of the rules that begins at a position. -/
def replaceEach
    (rules : List (List α × List α))
    (s : List α) : List α :=
  replaceEachFrom rules 0 s

section SeveralPatterns

variable {rules : List (List α × List α)}

theorem replaceEachFrom_append
    (w s : List α) :
    replaceEachFrom rules w.length (w ++ s) = replaceEach rules s := by
  induction w with
  | nil => rfl
  | cons c w ih => rw [List.length_cons, List.cons_append, replaceEachFrom, ih]

/-- An occurrence is replaced by its rule. -/
theorem replaceEach_pat
    {pat new s : List α}
    (hpat : pat ≠ [])
    (hfind : (rules.find? fun rule => rule.1 <+: pat ++ s) = some (pat, new)) :
    replaceEach rules (pat ++ s) = new ++ replaceEach rules s := by
  obtain ⟨c, w, rfl⟩ := List.exists_cons_of_ne_nil hpat
  rw [List.cons_append] at hfind ⊢
  rw [replaceEach, replaceEachFrom, hfind]
  simp only [List.length_cons, Nat.add_sub_cancel, replaceEachFrom_append]

/-- A symbol at which no pattern begins is kept. -/
theorem replaceEach_cons
    {c : α}
    {s : List α}
    (hfind : (rules.find? fun rule => rule.1 <+: c :: s) = none) :
    replaceEach rules (c :: s) = c :: replaceEach rules s := by
  rw [replaceEach, replaceEachFrom, hfind]
  rfl

end SeveralPatterns

/-! ## Two patterns apart -/

/-- Two patterns that begin apart: neither begins in the other one, and the second one does not
begin again in itself. -/
structure PatternPair (α : Type u) where
  firstHead : α
  firstTail : List α
  secondHead : α
  secondTail : List α
  first_apart : firstHead ∉ secondHead :: secondTail
  second_apart : secondHead ∉ firstHead :: firstTail
  second_once : secondHead ∉ secondTail

namespace PatternPair

variable (m : PatternPair α)

/-- The pattern that is replaced first. -/
def first : List α :=
  m.firstHead :: m.firstTail

/-- The pattern that is replaced in the outcome. -/
def second : List α :=
  m.secondHead :: m.secondTail

/-- Both replaced at once. -/
def fill (new s : List α) : List α :=
  replaceEach [(m.first, new), (m.second, new)] s

/-- One replaced after the other. -/
def fillInTurn (new s : List α) : List α :=
  replaceAll m.second new (replaceAll m.first new s)

omit [DecidableEq α] in
theorem first_ne_nil :
    m.first ≠ [] :=
  List.cons_ne_nil _ _

omit [DecidableEq α] in
theorem second_ne_nil :
    m.second ≠ [] :=
  List.cons_ne_nil _ _

/-- A text is empty, begins with one of the patterns, or with a symbol at which none begins. -/
theorem fill.induction
    {motive : List α → Prop}
    (nil : motive [])
    (first : ∀ s, motive s → motive (m.first ++ s))
    (second : ∀ s, motive s → motive (m.second ++ s))
    (symbol : ∀ c s, ¬ m.first <+: c :: s → ¬ m.second <+: c :: s → motive s →
      motive (c :: s))
    (s : List α) :
    motive s := by
  induction hlen : s.length using Nat.strong_induction_on generalizing s with
  | _ n ih =>
      subst hlen
      have hshorter : ∀ {pat rest : List α}, pat ≠ [] → pat ++ rest = s →
          rest.length < s.length := by
        intro pat rest hpat heq
        rw [← heq, List.length_append]
        have := List.length_pos_of_ne_nil hpat
        omega
      cases s with
      | nil => exact nil
      | cons c s =>
          by_cases hfirst : m.first <+: c :: s
          · obtain ⟨rest, hrest⟩ := hfirst
            rw [← hrest]
            exact first rest (ih _ (hshorter m.first_ne_nil hrest) rest rfl)
          · by_cases hsecond : m.second <+: c :: s
            · obtain ⟨rest, hrest⟩ := hsecond
              rw [← hrest]
              exact second rest (ih _ (hshorter m.second_ne_nil hrest) rest rfl)
            · exact symbol c s hfirst hsecond (ih s.length (by simp) s rfl)

variable {m} {new : List α}

/-! ### What each pattern does -/

omit [DecidableEq α] in
theorem not_first_prefix_second_append
    (s : List α) :
    ¬ m.first <+: m.second ++ s :=
  not_prefix_of_not_mem m.first_apart s 0 (by simp)

omit [DecidableEq α] in
theorem not_second_prefix_in_first
    (s : List α) :
    ∀ i < m.first.length, ¬ m.second <+: m.first.drop i ++ s :=
  not_prefix_of_not_mem m.second_apart s

theorem fill_first_append
    (s : List α) :
    m.fill new (m.first ++ s) = new ++ m.fill new s := by
  have hfind : ([(m.first, new), (m.second, new)].find? fun rule => rule.1 <+: m.first ++ s) =
      some (m.first, new) := by
    simp
  exact replaceEach_pat m.first_ne_nil hfind

theorem fill_second_append
    (s : List α) :
    m.fill new (m.second ++ s) = new ++ m.fill new s := by
  have hfind : ([(m.first, new), (m.second, new)].find? fun rule => rule.1 <+: m.second ++ s) =
      some (m.second, new) := by
    simp [not_first_prefix_second_append]
  exact replaceEach_pat m.second_ne_nil hfind

theorem fill_cons
    {c : α}
    {s : List α}
    (hfirst : ¬ m.first <+: c :: s)
    (hsecond : ¬ m.second <+: c :: s) :
    m.fill new (c :: s) = c :: m.fill new s := by
  refine replaceEach_cons ?_
  simp [hfirst, hsecond]

theorem replaceAll_first_second_append
    (s : List α) :
    replaceAll m.first new (m.second ++ s) = m.second ++ replaceAll m.first new s :=
  replaceAll_append (not_prefix_of_not_mem m.first_apart s)

theorem occurrences_first_append
    (s : List α) :
    occurrences m.second (m.first ++ s) = occurrences m.second s :=
  occurrences_append_eq_iff.mpr (not_second_prefix_in_first s)

theorem occurrences_second_append
    (s : List α) :
    occurrences m.second (m.second ++ s) = occurrences m.second s + 1 := by
  have hhead : m.second <+: m.secondHead :: (m.secondTail ++ s) := List.prefix_append m.second s
  have htail : occurrences m.second (m.secondTail ++ s) = occurrences m.second s :=
    occurrences_append_eq_iff.mpr (not_prefix_of_not_mem m.second_once s)
  change occurrences m.second (m.secondHead :: (m.secondTail ++ s)) = _
  rw [occurrences, if_pos hhead, htail, Nat.add_comm]

/-! ### Lengths -/

/-- Each occurrence of the second pattern is exchanged for the new text. -/
theorem length_replaceAll_second
    (s : List α) :
    (replaceAll m.second new s).length + occurrences m.second s * m.second.length =
      s.length + occurrences m.second s * new.length := by
  induction hlen : s.length using Nat.strong_induction_on generalizing s with
  | _ n ih =>
      subst hlen
      cases s with
      | nil => simp [replaceAll, replaceFrom, occurrences]
      | cons c s =>
          by_cases hpre : m.second <+: c :: s
          · obtain ⟨rest, hrest⟩ := hpre
            have hlt : rest.length < (c :: s).length := by
              rw [← hrest, List.length_append]
              have := List.length_pos_of_ne_nil m.second_ne_nil
              omega
            have hstep := ih _ hlt rest rfl
            rw [← hrest, replaceAll_pat m.second_ne_nil, occurrences_second_append,
              List.length_append, List.length_append, Nat.add_mul, Nat.add_mul]
            omega
          · have hstep := ih s.length (by simp) s rfl
            rw [replaceAll_cons_of_not_begins hpre, occurrences_cons_of_not_begins hpre,
              List.length_cons, List.length_cons]
            omega

/-- Filling both patterns exchanges the second ones of the text. -/
theorem length_fill
    (s : List α) :
    (m.fill new s).length + occurrences m.second s * m.second.length =
      (replaceAll m.first new s).length + occurrences m.second s * new.length := by
  induction s using fill.induction m with
  | nil => simp [fill, replaceEach, replaceEachFrom, replaceAll, replaceFrom, occurrences]
  | first s ih =>
      rw [fill_first_append, replaceAll_pat m.first_ne_nil, occurrences_first_append,
        List.length_append, List.length_append]
      omega
  | second s ih =>
      rw [fill_second_append, replaceAll_first_second_append, occurrences_second_append,
        List.length_append, List.length_append, Nat.add_mul, Nat.add_mul]
      omega
  | symbol c s hfirst hsecond ih =>
      rw [fill_cons hfirst hsecond, replaceAll_cons_of_not_begins hfirst,
        occurrences_cons_of_not_begins hsecond, List.length_cons, List.length_cons]
      omega

/-- The first replacement loses no occurrence of the second pattern. -/
theorem occurrences_le_replaceAll_first
    (s : List α) :
    occurrences m.second s ≤ occurrences m.second (replaceAll m.first new s) := by
  induction s using fill.induction m with
  | nil => exact le_rfl
  | first s ih =>
      rw [occurrences_first_append, replaceAll_pat m.first_ne_nil]
      exact ih.trans (occurrences_le_append _ _ _)
  | second s ih =>
      rw [replaceAll_first_second_append, occurrences_second_append, occurrences_second_append]
      exact Nat.succ_le_succ ih
  | symbol c s hfirst hsecond ih =>
      rw [replaceAll_cons_of_not_begins hfirst, occurrences_cons_of_not_begins hsecond]
      exact ih.trans (occurrences_le_append m.second [c] _)

/-! ### When replacing in turn is filling -/

/-- Without new occurrences, replacing in turn fills. -/
theorem fillInTurn_eq_of_occurrences_eq
    {s : List α}
    (h : occurrences m.second (replaceAll m.first new s) = occurrences m.second s) :
    m.fillInTurn new s = m.fill new s := by
  rw [fillInTurn]
  induction s using fill.induction m with
  | nil => rfl
  | first s ih =>
      rw [occurrences_first_append, replaceAll_pat m.first_ne_nil] at h
      have hle := @occurrences_le_replaceAll_first _ _ m new s
      have hle' := occurrences_le_append m.second new (replaceAll m.first new s)
      have hnone := occurrences_append_eq_iff.mp
        (show occurrences m.second (new ++ replaceAll m.first new s) =
          occurrences m.second (replaceAll m.first new s) by omega)
      rw [fill_first_append, replaceAll_pat m.first_ne_nil, replaceAll_append hnone,
        ih (by omega)]
  | second s ih =>
      rw [replaceAll_first_second_append, occurrences_second_append, occurrences_second_append,
        Nat.add_right_cancel_iff] at h
      rw [fill_second_append, replaceAll_first_second_append, replaceAll_pat m.second_ne_nil, ih h]
  | symbol c s hfirst hsecond ih =>
      rw [replaceAll_cons_of_not_begins hfirst, occurrences_cons_of_not_begins hsecond] at h
      have hle := @occurrences_le_replaceAll_first _ _ m new s
      have hnone : ¬ m.second <+: c :: replaceAll m.first new s := by
        intro hpre
        rw [occurrences, if_pos hpre] at h
        omega
      rw [occurrences_cons_of_not_begins hnone] at h
      rw [fill_cons hfirst hsecond, replaceAll_cons_of_not_begins hfirst,
        replaceAll_cons_of_not_begins hnone, ih h]

/-- Filling with the second pattern replaces the first one by it. -/
theorem fill_second
    (s : List α) :
    m.fill m.second s = replaceAll m.first m.second s := by
  induction s using fill.induction m with
  | nil => rfl
  | first s ih => rw [fill_first_append, replaceAll_pat m.first_ne_nil, ih]
  | second s ih => rw [fill_second_append, replaceAll_first_second_append, ih]
  | symbol c s hfirst hsecond ih =>
      rw [fill_cons hfirst hsecond, replaceAll_cons_of_not_begins hfirst, ih]

omit [DecidableEq α] in
/-- An occurrence that begins in a text does not reach the next one. -/
theorem prefix_of_prefix_append_second
    {w s : List α}
    (hw : w ≠ [])
    (h : m.second <+: w ++ (m.second ++ s)) :
    m.second <+: w := by
  obtain ⟨rest, hrest⟩ := h
  rcases List.append_eq_append_iff.mp hrest with ⟨between, hw', -⟩ | ⟨late, hsecond, hlate⟩
  · exact ⟨between, hw'.symm⟩
  · cases late with
    | nil => exact (hsecond.trans (List.append_nil w)) ▸ List.prefix_rfl
    | cons c late =>
        -- the next occurrence would begin within this one
        obtain ⟨d, w, rfl⟩ := List.exists_cons_of_ne_nil hw
        obtain ⟨-, htail⟩ := List.cons_eq_cons.mp hsecond
        obtain ⟨hhead, -⟩ := List.cons_eq_cons.mp hlate
        refine absurd ?_ m.second_once
        rw [htail, hhead]
        simp

/-- An occurrence that begins in a text also begins there when the marks behind are filled. -/
theorem prefix_fill_of_prefix_replaceAll
    {s : List α}
    {w : List α}
    (hw : w ≠ [])
    (h : m.second <+: w ++ replaceAll m.first new s) :
    m.second <+: w ++ m.fill new s := by
  induction s using fill.induction m generalizing w with
  | nil => exact h
  | first s ih =>
      rw [replaceAll_pat m.first_ne_nil, ← List.append_assoc] at h
      rw [fill_first_append, ← List.append_assoc]
      exact ih (by simp [hw]) h
  | second s ih =>
      rw [replaceAll_first_second_append] at h
      exact (prefix_of_prefix_append_second hw h).trans (List.prefix_append w _)
  | symbol c s hfirst hsecond ih =>
      rw [replaceAll_cons_of_not_begins hfirst, List.append_cons] at h
      rw [fill_cons hfirst hsecond, List.append_cons]
      exact ih (by simp) h

/-- A block that is replaced by its filling has no occurrence, unless the new text is the pattern. -/
theorem not_prefix_of_replaceAll_eq
    (hlen : new.length = m.second.length)
    (hnew : new ≠ m.second)
    {w s : List α}
    (h : replaceAll m.second new (w ++ replaceAll m.first new s) = w ++ m.fill new s) :
    ∀ i < w.length, ¬ m.second <+: w.drop i ++ replaceAll m.first new s := by
  rcases @replaceAll_append_cases _ _ m.second new m.second_ne_nil w (replaceAll m.first new s)
    with hnone | ⟨before, after, rest, rfl, hafter, hpre, heq⟩
  · exact hnone
  · rw [heq, List.append_assoc, List.append_cancel_left_eq] at h
    have hnewPre : new <+: after ++ m.fill new s := ⟨rest, h⟩
    have hsecondPre := prefix_fill_of_prefix_replaceAll hafter hpre
    exact absurd (List.IsPrefix.eq_of_length
      (List.prefix_of_prefix_length_le hnewPre hsecondPre hlen.le) hlen) hnew

/-- A new text of the same length that makes occurrences is the second pattern. -/
theorem occurrences_eq_of_fillInTurn_eq
    (hlen : new.length = m.second.length)
    (hnew : new ≠ m.second)
    {s : List α}
    (h : m.fillInTurn new s = m.fill new s) :
    occurrences m.second (replaceAll m.first new s) = occurrences m.second s := by
  rw [fillInTurn] at h
  induction s using fill.induction m with
  | nil => rfl
  | first s ih =>
      rw [replaceAll_pat m.first_ne_nil, fill_first_append] at h
      have hnone := not_prefix_of_replaceAll_eq hlen hnew h
      rw [replaceAll_append hnone, List.append_cancel_left_eq] at h
      rw [replaceAll_pat m.first_ne_nil, occurrences_append_eq_iff.mpr hnone,
        occurrences_first_append, ih h]
  | second s ih =>
      rw [replaceAll_first_second_append, replaceAll_pat m.second_ne_nil, fill_second_append,
        List.append_cancel_left_eq] at h
      rw [replaceAll_first_second_append, occurrences_second_append, occurrences_second_append,
        ih h]
  | symbol c s hfirst hsecond ih =>
      rw [replaceAll_cons_of_not_begins hfirst, fill_cons hfirst hsecond] at h
      have hnone : ¬ m.second <+: c :: replaceAll m.first new s :=
        @not_prefix_of_replaceAll_eq _ _ m new hlen hnew [c] s h 0 (by simp)
      rw [replaceAll_cons_of_not_begins hnone, List.cons_eq_cons] at h
      rw [replaceAll_cons_of_not_begins hfirst, occurrences_cons_of_not_begins hnone,
        occurrences_cons_of_not_begins hsecond, ih h.2]

/-- A new text of another length makes the outcome longer or shorter with every new occurrence. -/
theorem occurrences_eq_of_length_eq
    (hlen : new.length ≠ m.second.length)
    {s : List α}
    (h : (m.fillInTurn new s).length = (m.fill new s).length) :
    occurrences m.second (replaceAll m.first new s) = occurrences m.second s := by
  have hturn := @length_replaceAll_second _ _ m new (replaceAll m.first new s)
  have hfill := @length_fill _ _ m new s
  obtain ⟨more, hmore⟩ := Nat.exists_eq_add_of_le (@occurrences_le_replaceAll_first _ _ m new s)
  rw [fillInTurn] at h
  rw [hmore, Nat.add_mul, Nat.add_mul] at hturn
  have heq : more * m.second.length = more * new.length := by
    omega
  rcases Nat.eq_zero_or_pos more with hzero | hpos
  · rw [hmore, hzero, Nat.add_zero]
  · exact absurd (Nat.eq_of_mul_eq_mul_left hpos heq).symm hlen

/-- Replacing in turn fills both patterns if and only if the first replacement makes no occurrence
of the second pattern, or the new text is this pattern. -/
theorem fillInTurn_eq_fill_iff
    (s : List α) :
    m.fillInTurn new s = m.fill new s ↔
      new = m.second ∨
        occurrences m.second (replaceAll m.first new s) = occurrences m.second s := by
  constructor
  · intro h
    by_cases hnew : new = m.second
    · exact Or.inl hnew
    · by_cases hlen : new.length = m.second.length
      · exact Or.inr (occurrences_eq_of_fillInTurn_eq hlen hnew h)
      · exact Or.inr (occurrences_eq_of_length_eq hlen (congrArg List.length h))
  · rintro (rfl | h)
    · rw [fillInTurn, replaceAll_self m.second_ne_nil, fill_second]
    · exact fillInTurn_eq_of_occurrences_eq h

/-! ### Texts without and with a pattern -/

/-- One of the patterns occurs in the text. -/
def OccursIn
    (m : PatternPair α)
    (s : List α) : Prop :=
  m.first <:+: s ∨ m.second <:+: s

instance (s : List α) : Decidable (m.OccursIn s) :=
  inferInstanceAs (Decidable (_ ∨ _))

/-- A text without the patterns is kept. -/
theorem fillInTurn_of_not_occursIn
    {s : List α}
    (h : ¬ m.OccursIn s) :
    m.fillInTurn new s = s := by
  rw [OccursIn, not_or] at h
  rw [fillInTurn, replaceAll_of_not_infix h.1, replaceAll_of_not_infix h.2]

/-- A text that has a pattern gets the new text. -/
theorem length_le_fill
    {s : List α}
    (h : m.OccursIn s) :
    new.length ≤ (m.fill new s).length := by
  induction s using fill.induction m with
  | nil =>
      rcases h with h | h
      · exact absurd (List.infix_nil.mp h) m.first_ne_nil
      · exact absurd (List.infix_nil.mp h) m.second_ne_nil
  | first s ih =>
      rw [fill_first_append, List.length_append]
      exact Nat.le_add_right _ _
  | second s ih =>
      rw [fill_second_append, List.length_append]
      exact Nat.le_add_right _ _
  | symbol c s hfirst hsecond ih =>
      have hrest : m.OccursIn s := by
        rcases h with h | h
        · exact Or.inl ((List.infix_cons_iff.mp h).resolve_left hfirst)
        · exact Or.inr ((List.infix_cons_iff.mp h).resolve_left hsecond)
      rw [fill_cons hfirst hsecond, List.length_cons]
      exact (ih hrest).trans (Nat.le_succ _)

/-- Replacing by a long text in turn gives at least as much as filling. -/
theorem length_fill_le_fillInTurn
    (hlen : m.second.length ≤ new.length)
    (s : List α) :
    (m.fill new s).length ≤ (m.fillInTurn new s).length := by
  have hturn := @length_replaceAll_second _ _ m new (replaceAll m.first new s)
  have hfill := @length_fill _ _ m new s
  obtain ⟨more, hmore⟩ := Nat.exists_eq_add_of_le (@occurrences_le_replaceAll_first _ _ m new s)
  have hle : more * m.second.length ≤ more * new.length := Nat.mul_le_mul_left more hlen
  rw [fillInTurn]
  rw [hmore, Nat.add_mul, Nat.add_mul] at hturn
  omega

end PatternPair

end Kernel
end TensorGrep
