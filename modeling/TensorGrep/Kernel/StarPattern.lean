import Mathlib.Tactic

/-!
# Patterns of characters, dots, anchors and stars

The regular expressions without groups, classes, alternatives, escapes and
bounded repetitions: a pattern is a list of pieces, each of which is one
character or a dot, such a one repeated, or an anchor.  A dot does not match a
newline, and the end anchor also stands before a newline at the end.

A match contains every run of unrepeated characters
(`exists_infix_of_mem_runs`), and it stays one when each character is replaced
by one that the pattern does not tell from it (`search_map`).
-/

namespace TensorGrep
namespace Kernel
namespace StarPattern

universe u

/-- A character or a dot. -/
inductive Single (α : Type u) where
  | char (c : α)
  | any
deriving DecidableEq

/-- The pieces of a pattern. -/
inductive Piece (α : Type u) where
  | one (a : Single α)
  | star (a : Single α)
  | start
  | stop
deriving DecidableEq

section Parsing

variable {α : Type u} [DecidableEq α]

/-- The characters with a meaning in patterns. -/
structure Metacharacters (α : Type u) where
  star : α
  dot : α
  caret : α
  dollar : α

/-- A character that can be repeated. -/
def Metacharacters.single
    (syms : Metacharacters α)
    (c : α) : Single α :=
  if c = syms.dot then .any else .char c

/-- A character that is not repeated. -/
def Metacharacters.piece
    (syms : Metacharacters α)
    (c : α) : Piece α :=
  if c = syms.caret then .start
  else if c = syms.dollar then .stop
  else .one (syms.single c)

/-- The pieces of a pattern, if there is something to repeat before each star. -/
def parsePattern (syms : Metacharacters α) : List α → Option (List (Piece α))
  | [] => some []
  | [c] => if c = syms.star then none else some [syms.piece c]
  | c :: d :: rest =>
      if c = syms.star then none
      else if d = syms.star then
        if c = syms.caret ∨ c = syms.dollar then none
        else (parsePattern syms rest).map (.star (syms.single c) :: ·)
      else (parsePattern syms (d :: rest)).map (syms.piece c :: ·)

end Parsing

section Matching

variable {α : Type u} [DecidableEq α] (same : α → α → Bool) (newline : α)

/-- The characters that a character of the pattern or a dot matches. -/
def Single.accepts : Single α → α → Bool
  | .char c, x => same c x
  | .any, x => x ≠ newline

/-- A repetition, and then what comes next; `atStart` says that the text begins here. -/
def starFrom
    (accepts : α → Bool)
    (next : Bool → List α → Bool)
    (atStart : Bool) : List α → Bool
  | [] => next atStart []
  | x :: t => next atStart (x :: t) || (accepts x && starFrom accepts next false t)

/-- The pattern matches here. -/
def matchesAt : List (Piece α) → Bool → List α → Bool
  | [], _, _ => true
  | .one _ :: _, _, [] => false
  | .one a :: p, _, x :: t => a.accepts same newline x && matchesAt p false t
  | .star a :: p, atStart, t => starFrom (a.accepts same newline) (matchesAt p) atStart t
  | .start :: p, atStart, t => atStart && matchesAt p atStart t
  | .stop :: p, atStart, t => (t = [] || t = [newline]) && matchesAt p atStart t

/-- The pattern matches here or later. -/
def searchFrom
    (p : List (Piece α))
    (atStart : Bool) : List α → Bool
  | [] => matchesAt same newline p atStart []
  | x :: t => matchesAt same newline p atStart (x :: t) || searchFrom p false t

/-- The pattern matches somewhere in the text. -/
def search
    (p : List (Piece α))
    (t : List α) : Bool :=
  searchFrom same newline p true t

end Matching

/-! ## Runs -/

section Runs

variable {α : Type u}

/-- The run before a piece that ends it. -/
def endRun (current : List α) : List (List α) :=
  if current.isEmpty then [] else [current]

/-- The runs of unrepeated characters, in front of which a run has begun. -/
def runs (current : List α) : List (Piece α) → List (List α)
  | [] => endRun current
  | .one (.char c) :: p => runs (current ++ [c]) p
  | .one .any :: p => endRun current ++ runs [] p
  | .star _ :: p => endRun current ++ runs [] p
  | .start :: p => endRun current ++ runs [] p
  | .stop :: p => endRun current ++ runs [] p

variable [DecidableEq α] {same : α → α → Bool} {newline : α}

omit [DecidableEq α] in
/-- After a repetition the rest of the pattern matches a rest of the text. -/
theorem exists_suffix_of_starFrom
    {accepts : α → Bool}
    {next : Bool → List α → Bool}
    {atStart : Bool}
    {t : List α}
    (h : starFrom accepts next atStart t = true) :
    ∃ s t', t' <:+ t ∧ next s t' = true := by
  induction t generalizing atStart with
  | nil => exact ⟨atStart, [], List.suffix_refl _, h⟩
  | cons x t ih =>
      rw [starFrom, Bool.or_eq_true, Bool.and_eq_true] at h
      rcases h with h | ⟨-, h⟩
      · exact ⟨atStart, x :: t, List.suffix_refl _, h⟩
      · obtain ⟨s, t', hsuffix, hnext⟩ := ih h
        exact ⟨s, t', hsuffix.trans (List.suffix_cons x t), hnext⟩

/-- A piece of the text that the run matches character by character. -/
def Covers
    (same : α → α → Bool)
    (run t : List α) : Prop :=
  ∃ m, m <:+: t ∧ List.Forall₂ (fun c x => same c x = true) run m

omit [DecidableEq α] in
theorem Covers.mono
    {run t t' : List α}
    (h : Covers same run t)
    (hwithin : t <:+: t') :
    Covers same run t' := by
  obtain ⟨m, hm, hsame⟩ := h
  exact ⟨m, hm.trans hwithin, hsame⟩

omit [DecidableEq α] in
/-- A run that has ended. -/
theorem covers_of_mem_endRun
    {current matched run : List α}
    (hcurrent : List.Forall₂ (fun c x => same c x = true) current matched)
    (h : run ∈ endRun current)
    (t : List α) :
    Covers same run (matched ++ t) := by
  rw [endRun] at h
  split at h
  · cases h
  · rw [List.mem_singleton.mp h]
    exact ⟨matched, (List.prefix_append _ _).isInfix, hcurrent⟩

/-- The runs of a pattern that matches behind a text that the run before it matches. -/
theorem covers_of_matchesAt
    {p : List (Piece α)}
    {current matched run t : List α}
    {atStart : Bool}
    (hcurrent : List.Forall₂ (fun c x => same c x = true) current matched)
    (hmatch : matchesAt same newline p atStart t = true)
    (hrun : run ∈ runs current p) :
    Covers same run (matched ++ t) := by
  induction p generalizing current matched atStart t with
  | nil => exact covers_of_mem_endRun hcurrent hrun t
  | cons piece p ih =>
      have hnext : ∀ s t', t' <:+ t → matchesAt same newline p s t' = true →
          run ∈ endRun current ++ runs [] p → Covers same run (matched ++ t) := by
        intro s t' ht' hmatch' hmem
        rcases List.mem_append.mp hmem with hmem | hmem
        · exact covers_of_mem_endRun hcurrent hmem t
        · have hrest := ih List.Forall₂.nil hmatch' hmem
          exact hrest.mono (ht'.trans (List.suffix_append matched t)).isInfix
      cases piece with
      | one a =>
          cases t with
          | nil => cases hmatch
          | cons x t =>
              rw [matchesAt, Bool.and_eq_true] at hmatch
              cases a with
              | char c =>
                  have hnew : List.Forall₂ (fun c x => same c x = true) (current ++ [c])
                      (matched ++ [x]) :=
                    List.rel_append hcurrent (List.Forall₂.cons hmatch.1 List.Forall₂.nil)
                  have happend : matched ++ x :: t = matched ++ [x] ++ t := by simp
                  rw [happend]
                  exact ih hnew hmatch.2 hrun
              | any => exact hnext false t (List.suffix_cons x t) hmatch.2 hrun
      | star a =>
          obtain ⟨s, t', ht', hmatch'⟩ := exists_suffix_of_starFrom hmatch
          exact hnext s t' ht' hmatch' hrun
      | start =>
          rw [matchesAt, Bool.and_eq_true] at hmatch
          exact hnext atStart t (List.suffix_refl t) hmatch.2 hrun
      | stop =>
          rw [matchesAt, Bool.and_eq_true] at hmatch
          exact hnext atStart t (List.suffix_refl t) hmatch.2 hrun

theorem exists_suffix_of_searchFrom
    {p : List (Piece α)}
    {atStart : Bool}
    {t : List α}
    (h : searchFrom same newline p atStart t = true) :
    ∃ s t', t' <:+ t ∧ matchesAt same newline p s t' = true := by
  induction t generalizing atStart with
  | nil => exact ⟨atStart, [], List.suffix_refl _, h⟩
  | cons x t ih =>
      rw [searchFrom, Bool.or_eq_true] at h
      rcases h with h | h
      · exact ⟨atStart, x :: t, List.suffix_refl _, h⟩
      · obtain ⟨s, t', hsuffix, hmatch⟩ := ih h
        exact ⟨s, t', hsuffix.trans (List.suffix_cons x t), hmatch⟩

/-- Every run of a pattern is in every text in which the pattern is found. -/
theorem covers_of_search
    {p : List (Piece α)}
    {t run : List α}
    (hsearch : search same newline p t = true)
    (hrun : run ∈ runs [] p) :
    Covers same run t := by
  obtain ⟨s, t', hsuffix, hmatch⟩ := exists_suffix_of_searchFrom hsearch
  have hcovers := covers_of_matchesAt List.Forall₂.nil hmatch hrun
  exact hcovers.mono hsuffix.isInfix

end Runs

/-! ## Replacing characters -/

section Replacing

variable {α : Type u} [DecidableEq α] {same : α → α → Bool} {newline : α} {f : α → α}

omit [DecidableEq α] in
theorem starFrom_map
    {accepts : α → Bool}
    {next : Bool → List α → Bool}
    (haccepts : ∀ x, accepts x = true → accepts (f x) = true)
    (hnext : ∀ s t, next s t = true → next s (t.map f) = true)
    {atStart : Bool}
    {t : List α}
    (h : starFrom accepts next atStart t = true) :
    starFrom accepts next atStart (t.map f) = true := by
  induction t generalizing atStart with
  | nil => exact hnext atStart [] h
  | cons x t ih =>
      rw [starFrom, Bool.or_eq_true, Bool.and_eq_true] at h
      rw [List.map_cons, starFrom, Bool.or_eq_true, Bool.and_eq_true]
      rcases h with h | ⟨hx, h⟩
      · exact Or.inl (hnext atStart (x :: t) h)
      · exact Or.inr ⟨haccepts x hx, ih h⟩

/-- A match stays one when the pattern does not tell the new characters from the old ones. -/
theorem matchesAt_map
    (hsame : ∀ c x, same c x = true → same c (f x) = true)
    (hnewline : ∀ x, f x = newline ↔ x = newline)
    {p : List (Piece α)}
    {atStart : Bool}
    {t : List α}
    (h : matchesAt same newline p atStart t = true) :
    matchesAt same newline p atStart (t.map f) = true := by
  have haccepts : ∀ (a : Single α) x, a.accepts same newline x = true →
      a.accepts same newline (f x) = true := by
    intro a x hx
    cases a with
    | char c => exact hsame c x hx
    | any =>
        simp only [Single.accepts, decide_eq_true_eq] at hx ⊢
        exact fun heq => hx ((hnewline x).mp heq)
  induction p generalizing atStart t with
  | nil => rfl
  | cons piece p ih =>
      cases piece with
      | one a =>
          cases t with
          | nil => cases h
          | cons x t =>
              rw [matchesAt, Bool.and_eq_true] at h
              rw [List.map_cons, matchesAt, Bool.and_eq_true]
              exact ⟨haccepts a x h.1, ih h.2⟩
      | star a =>
          have hnext : ∀ s t, matchesAt same newline p s t = true →
              matchesAt same newline p s (t.map f) = true := fun s t h => ih h
          exact starFrom_map (haccepts a) hnext h
      | start =>
          rw [matchesAt, Bool.and_eq_true] at h ⊢
          exact ⟨h.1, ih h.2⟩
      | stop =>
          rw [matchesAt, Bool.and_eq_true, Bool.or_eq_true] at h ⊢
          refine ⟨?_, ih h.2⟩
          rcases h.1 with hempty | hlast
          · exact Or.inl (by simpa using hempty)
          · refine Or.inr ?_
            rw [of_decide_eq_true hlast]
            simp [(hnewline newline).mpr rfl]

/-- A text in which the pattern is found, with other characters. -/
theorem search_map
    (hsame : ∀ c x, same c x = true → same c (f x) = true)
    (hnewline : ∀ x, f x = newline ↔ x = newline)
    {p : List (Piece α)}
    {t : List α}
    (h : search same newline p t = true) :
    search same newline p (t.map f) = true := by
  have hfrom : ∀ (t : List α) (atStart : Bool), searchFrom same newline p atStart t = true →
      searchFrom same newline p atStart (t.map f) = true := by
    intro t
    induction t with
    | nil => exact fun atStart h => matchesAt_map hsame hnewline h
    | cons x t ih =>
        intro atStart h
        rw [searchFrom, Bool.or_eq_true] at h
        rw [List.map_cons, searchFrom, Bool.or_eq_true]
        rcases h with h | h
        · exact Or.inl (matchesAt_map hsame hnewline h)
        · exact Or.inr (ih false h)
  exact hfrom t true h

end Replacing

end StarPattern
end Kernel
end TensorGrep
