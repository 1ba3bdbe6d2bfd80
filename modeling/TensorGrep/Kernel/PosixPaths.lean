import Mathlib.Tactic

/-!
# POSIX paths as texts

A path is a text in which slashes part names.  `normpath` drops empty names and
dots, and lets two dots drop the name before them; of the slashes in front it keeps
one, or two where there are exactly two.  What comes out for a path that begins with a
slash is the text of an `AbsolutePath`.

A text that begins with the text of a root and a slash behind it is the text of a path
with the names of the root in front, unless the root has no names
(`AbsolutePath.eq_or_begins_iff`).
-/

namespace TensorGrep
namespace Kernel

universe u

variable {α : Type u} [DecidableEq α] (slash dot : α)

/-! ## Names -/

/-- A name that stands for an entry of a directory. -/
structure PlainName (name : List α) : Prop where
  nonempty : name ≠ []
  noSlash : slash ∉ name
  notDot : name ≠ [dot]
  notDotDot : name ≠ [dot, dot]

/-- One round of the loop of `normpath`. -/
def normStep
    (rooted : Bool)
    (names : List (List α))
    (name : List α) : List (List α) :=
  if name = [] ∨ name = [dot] then names
  else if name ≠ [dot, dot] ∨ (rooted = false ∧ names = []) ∨ names.getLast? = some [dot, dot] then
    names ++ [name]
  else names.dropLast

/-- The names of a normalised path. -/
def normNames
    (rooted : Bool)
    (path : List α) : List (List α) :=
  (path.splitOn slash).foldl (normStep dot rooted) []

/-- The slashes in front of a normalised path. -/
def rootSlashes (path : List α) : ℕ :=
  if [slash] <+: path then
    if [slash, slash] <+: path ∧ ¬ [slash, slash, slash] <+: path then 2 else 1
  else 0

/-- `posixpath.normpath`. -/
def normpath (path : List α) : List α :=
  let slashes := rootSlashes slash path
  let text := List.replicate slashes slash ++
    [slash].intercalate (normNames slash dot (decide (0 < slashes)) path)
  if text = [] then [dot] else text

/-- `posixpath.join` of two texts. -/
def joinPath (dir path : List α) : List α :=
  if [slash] <+: path then path
  else if dir = [] ∨ dir.getLast? = some slash then dir ++ path
  else dir ++ slash :: path

/-! ## Absolute paths -/

/-- The names of a path from the root. -/
structure PlainPath where
  names : List (List α)
  plain : ∀ name ∈ names, PlainName slash dot name

variable {slash dot}

/-- The text with one slash in front. -/
def PlainPath.text (p : PlainPath slash dot) : List α :=
  slash :: [slash].intercalate p.names

/-- The path is the root or below it. -/
def PlainPath.Within (p root : PlainPath slash dot) : Prop :=
  root.names <+: p.names

variable (slash dot)

/-- A normalised path with one or two slashes in front. -/
structure AbsolutePath where
  doubled : Bool
  path : PlainPath slash dot

variable {slash dot}

/-- The text of the path. -/
def AbsolutePath.text (p : AbsolutePath slash dot) : List α :=
  if p.doubled then slash :: p.path.text else p.path.text

/-- `PurePath.parent`. -/
def AbsolutePath.parent (p : AbsolutePath slash dot) : AbsolutePath slash dot where
  doubled := p.doubled
  path := ⟨p.path.names.dropLast, fun name hname =>
    p.path.plain name (List.mem_of_mem_dropLast hname)⟩

/-- `resolved / path.name`. -/
def PlainPath.withNameOf (dir : PlainPath slash dot) (p : AbsolutePath slash dot) :
    PlainPath slash dot where
  names := dir.names ++ p.path.names.getLast?.toList
  plain := by
    intro name hname
    rcases List.mem_append.mp hname with hname | hname
    · exact dir.plain name hname
    · exact p.path.plain name (List.mem_of_mem_getLast? (Option.mem_toList.mp hname))

section Normalising

theorem plainName_normStep
    {names : List (List α)}
    {name : List α}
    (hnames : ∀ n ∈ names, PlainName slash dot n)
    (hname : slash ∉ name) :
    ∀ n ∈ normStep dot true names name, PlainName slash dot n := by
  rw [normStep]
  split_ifs with hskip happend
  · exact hnames
  · rw [not_or] at hskip
    intro n hn
    rcases List.mem_append.mp hn with hn | hn
    · exact hnames n hn
    · rw [List.mem_singleton] at hn
      subst hn
      refine ⟨hskip.1, hname, hskip.2, ?_⟩
      rcases happend with hne | ⟨hfalse, -⟩ | hlast
      · exact hne
      · cases hfalse
      · exact absurd rfl (hnames _ (List.mem_of_getLast? hlast)).notDotDot
  · intro n hn
    exact hnames n (List.mem_of_mem_dropLast hn)

/-- No part of a path at its slashes has a slash. -/
theorem not_mem_of_mem_splitOn
    {path part : List α}
    (h : part ∈ path.splitOn slash) :
    slash ∉ part := by
  induction path generalizing part with
  | nil =>
      rw [List.splitOn_nil, List.mem_singleton] at h
      rw [h]
      exact List.not_mem_nil
  | cons c path ih =>
      rw [List.splitOn_cons_eq_if_modifyHead] at h
      split_ifs at h with hc
      · rcases List.mem_cons.mp h with rfl | h
        · exact List.not_mem_nil
        · exact ih h
      · have hne : c ≠ slash := by simpa using hc
        cases hparts : path.splitOn slash with
        | nil => exact absurd hparts (List.splitOn_ne_nil slash path)
        | cons first rest =>
            rw [hparts, List.modifyHead_cons] at h
            rcases List.mem_cons.mp h with rfl | h
            · have hfirst : slash ∉ first := ih (hparts ▸ List.mem_cons_self)
              simp [hfirst, hne.symm]
            · exact ih (hparts ▸ List.mem_cons_of_mem _ h)

/-- The names of a path that begins with a slash are plain. -/
theorem plainName_normNames
    (path : List α) :
    ∀ n ∈ normNames slash dot true path, PlainName slash dot n := by
  have hloop : ∀ (parts names : List (List α)), (∀ part ∈ parts, slash ∉ part) →
      (∀ n ∈ names, PlainName slash dot n) →
      ∀ n ∈ parts.foldl (normStep dot true) names, PlainName slash dot n := by
    intro parts
    induction parts with
    | nil =>
        intro names _ hnames
        exact hnames
    | cons part parts ih =>
        intro names hparts hnames
        rw [List.forall_mem_cons] at hparts
        exact ih _ hparts.2 (plainName_normStep hnames hparts.1)
  exact hloop _ [] (fun part hpart => not_mem_of_mem_splitOn hpart)
    (fun n hn => absurd hn List.not_mem_nil)

/-- A path that begins with a slash, normalised. -/
def normAbsolute (path : List α) : AbsolutePath slash dot where
  doubled := decide (rootSlashes slash path = 2)
  path := ⟨normNames slash dot true path, plainName_normNames path⟩

/-- The normalised text of a path that begins with a slash. -/
theorem normpath_of_rooted
    {path : List α}
    (h : [slash] <+: path) :
    normpath slash dot path = (normAbsolute path : AbsolutePath slash dot).text := by
  rw [normpath, normAbsolute, AbsolutePath.text, PlainPath.text, rootSlashes, if_pos h]
  split_ifs <;> simp_all

/-- Plain names are kept. -/
theorem foldl_normStep_of_plain
    {parts : List (List α)}
    (h : ∀ part ∈ parts, PlainName slash dot part)
    (names : List (List α)) :
    parts.foldl (normStep dot true) names = names ++ parts := by
  induction parts generalizing names with
  | nil => exact (List.append_nil names).symm
  | cons part parts ih =>
      rw [List.forall_mem_cons] at h
      obtain ⟨hpart, hparts⟩ := h
      have hstep : normStep dot true names part = names ++ [part] := by
        rw [normStep, if_neg (not_or.mpr ⟨hpart.nonempty, hpart.notDot⟩),
          if_pos (Or.inl hpart.notDotDot)]
      rw [List.foldl_cons, hstep, ih hparts, List.append_assoc, List.singleton_append]

variable (p : PlainPath slash dot)

/-- The names of a text with one slash in front. -/
theorem normNames_text :
    normNames slash dot true p.text = p.names := by
  have hsplit : p.text.splitOn slash = [] :: ([slash].intercalate p.names).splitOn slash :=
    @List.splitOn_append_cons_self_of_not_mem _ [] _ _ slash List.not_mem_nil _
  have hempty : normStep dot true [] [] = ([] : List (List α)) := by
    rw [normStep, if_pos (Or.inl rfl)]
  rw [normNames, hsplit, List.foldl_cons, hempty]
  by_cases hnames : p.names = []
  · rw [hnames, List.intercalate_nil, List.splitOn_nil, List.foldl_cons, hempty, List.foldl_nil]
  · rw [List.splitOn_intercalate slash (fun name hname => (p.plain name hname).noSlash) hnames,
      foldl_normStep_of_plain p.plain, List.nil_append]

/-- A further slash in front changes no name. -/
theorem normNames_slash_cons
    (path : List α) :
    normNames slash dot true (slash :: path) = normNames slash dot true path := by
  have hsplit : (slash :: path).splitOn slash = [] :: path.splitOn slash :=
    @List.splitOn_append_cons_self_of_not_mem _ [] _ _ slash List.not_mem_nil path
  have hempty : normStep dot true [] [] = ([] : List (List α)) := by
    rw [normStep, if_pos (Or.inl rfl)]
  rw [normNames, hsplit, List.foldl_cons, hempty, normNames]

omit [DecidableEq α] in
/-- Names do not begin with a slash. -/
theorem not_slash_begins_intercalate :
    ¬ [slash] <+: [slash].intercalate p.names := by
  cases hnames : p.names with
  | nil => simp
  | cons name names =>
      have hname : PlainName slash dot name := p.plain name (hnames ▸ List.mem_cons_self)
      obtain ⟨c, rest, rfl⟩ := List.exists_cons_of_ne_nil hname.nonempty
      have hne : slash ≠ c := fun heq => hname.noSlash (heq ▸ List.mem_cons_self)
      cases names <;> simp [hne]

theorem rootSlashes_text :
    rootSlashes slash p.text = 1 := by
  have hsecond := not_slash_begins_intercalate p
  rw [rootSlashes, PlainPath.text]
  simp [hsecond]

theorem rootSlashes_doubled :
    rootSlashes slash (slash :: p.text) = 2 := by
  have hthird := not_slash_begins_intercalate p
  rw [rootSlashes, PlainPath.text]
  simp [hthird]

/-- A normalised path is normal. -/
theorem normAbsolute_text
    (p : AbsolutePath slash dot) :
    normAbsolute p.text = p := by
  obtain ⟨doubled, p⟩ := p
  cases doubled with
  | false =>
      have htext : (AbsolutePath.mk false p).text = p.text := rfl
      simp only [normAbsolute, htext, rootSlashes_text, normNames_text]
      rfl
  | true =>
      have htext : (AbsolutePath.mk true p).text = slash :: p.text := rfl
      simp only [normAbsolute, htext, rootSlashes_doubled, normNames_slash_cons, normNames_text]
      rfl

omit [DecidableEq α] in
theorem rooted_text
    (p : AbsolutePath slash dot) :
    [slash] <+: p.text := by
  obtain ⟨doubled, p⟩ := p
  cases doubled <;> simp [AbsolutePath.text, PlainPath.text]

theorem normpath_text
    (p : AbsolutePath slash dot) :
    normpath slash dot p.text = p.text := by
  rw [normpath_of_rooted (rooted_text p), normAbsolute_text]

end Normalising

/-! ## Texts that begin with the text of a root -/

section Begins

omit [DecidableEq α] in
/-- What is in front of the first slash is told apart from what is behind it. -/
theorem append_mark_inj
    {a b x y : List α}
    (ha : slash ∉ a)
    (hb : slash ∉ b)
    (h : a ++ slash :: x = b ++ slash :: y) :
    a = b ∧ x = y := by
  induction a generalizing b with
  | nil =>
      cases b with
      | nil => exact ⟨rfl, (List.cons.inj h).2⟩
      | cons c b => exact absurd ((List.cons.inj h).1 ▸ List.mem_cons_self) hb
  | cons c a ih =>
      cases b with
      | nil => exact absurd ((List.cons.inj h).1 ▸ List.mem_cons_self) ha
      | cons d b =>
          obtain ⟨rfl, hrest⟩ := List.cons.inj h
          obtain ⟨rfl, rfl⟩ := ih (fun hc => ha (List.mem_cons_of_mem c hc))
            (fun hc => hb (List.mem_cons_of_mem c hc)) hrest
          exact ⟨rfl, rfl⟩

omit [DecidableEq α] in
/-- Names with slashes behind them begin with others exactly when the names do. -/
theorem flatMap_prefix_iff
    {names root : List (List α)}
    (hnames : ∀ name ∈ names, slash ∉ name)
    (hroot : ∀ name ∈ root, slash ∉ name) :
    (root.flatMap (· ++ [slash]) <+: names.flatMap (· ++ [slash])) ↔ root <+: names := by
  induction root generalizing names with
  | nil => simp
  | cons first root ih =>
      rw [List.forall_mem_cons] at hroot
      cases names with
      | nil => simp
      | cons name names =>
          rw [List.forall_mem_cons] at hnames
          rw [List.flatMap_cons, List.flatMap_cons, List.cons_prefix_cons,
            ← ih hnames.2 hroot.2, List.append_assoc, List.append_assoc, List.singleton_append,
            List.singleton_append]
          constructor
          · rintro ⟨rest, hrest⟩
            rw [List.append_assoc, List.cons_append] at hrest
            obtain ⟨hfirst, hbehind⟩ := append_mark_inj hroot.1 hnames.1 hrest
            exact ⟨hfirst, rest, hbehind⟩
          · rintro ⟨rfl, h⟩
            rw [List.prefix_append_right_inj, List.cons_prefix_cons]
            exact ⟨rfl, h⟩

omit [DecidableEq α] in
/-- Joined names with a slash behind them are names with slashes behind them. -/
theorem intercalate_append_slash
    {names : List (List α)}
    (h : names ≠ []) :
    [slash].intercalate names ++ [slash] = names.flatMap (· ++ [slash]) := by
  induction names with
  | nil => exact absurd rfl h
  | cons name names ih =>
      by_cases hnames : names = []
      · subst hnames
        simp
      · rw [List.intercalate_cons_of_ne_nil hnames, List.append_assoc, List.append_assoc,
          ih hnames, List.flatMap_cons, List.append_assoc]

omit [DecidableEq α] in
/-- A path is a root with names, or begins with it and a slash, exactly if it is within it. -/
theorem PlainPath.eq_or_begins_iff
    {p root : PlainPath slash dot}
    (hroot : root.names ≠ []) :
    (p.text = root.text ∨ root.text ++ [slash] <+: p.text) ↔ p.Within root := by
  have hends : (p.text = root.text ∨ root.text ++ [slash] <+: p.text) ↔
      root.text ++ [slash] <+: p.text ++ [slash] := by
    rw [List.prefix_concat_iff, List.append_cancel_right_eq, eq_comm]
  rw [hends, PlainPath.text, PlainPath.text, List.cons_append, List.cons_append,
    List.cons_prefix_cons, and_iff_right rfl, intercalate_append_slash hroot, PlainPath.Within]
  by_cases hnames : p.names = []
  · obtain ⟨first, rest, hfirst⟩ := List.exists_cons_of_ne_nil hroot
    have hplain : PlainName slash dot first := root.plain first (hfirst ▸ List.mem_cons_self)
    rw [hnames, List.intercalate_nil, List.nil_append, List.prefix_nil]
    refine iff_of_false (fun h => ?_) hroot
    rw [hfirst, List.flatMap_cons, List.append_assoc, List.singleton_append] at h
    obtain ⟨after, hafter⟩ := h
    rw [List.append_assoc, List.cons_append] at hafter
    exact hplain.nonempty (append_mark_inj hplain.noSlash List.not_mem_nil hafter).1
  · rw [intercalate_append_slash hnames]
    exact flatMap_prefix_iff (fun name h => (p.plain name h).noSlash)
      (fun name h => (root.plain name h).noSlash)

omit [DecidableEq α] in
/-- Joined names are empty only if there are none. -/
theorem intercalate_names_eq_nil_iff
    (p : PlainPath slash dot) :
    [slash].intercalate p.names = [] ↔ p.names = [] := by
  cases hnames : p.names with
  | nil => simp
  | cons name names =>
      have hname : PlainName slash dot name := p.plain name (hnames ▸ List.mem_cons_self)
      cases names <;> simp [hname.nonempty]

omit [DecidableEq α] in
/-- The text test for a root: it fails for the paths below a root without names, and for those
with two slashes in front. -/
theorem AbsolutePath.eq_or_begins_iff
    {p : AbsolutePath slash dot}
    {root : PlainPath slash dot} :
    (p.text = root.text ∨ root.text ++ [slash] <+: p.text) ↔
      if root.names = [] then p.doubled = true ∨ p.path.names = []
      else p.doubled = false ∧ p.path.Within root := by
  obtain ⟨doubled, p⟩ := p
  by_cases hroot : root.names = []
  · have htext : root.text = [slash] := by rw [PlainPath.text, hroot, List.intercalate_nil]
    have hsecond := not_slash_begins_intercalate p
    have hnil := intercalate_names_eq_nil_iff p
    rw [if_pos hroot, htext]
    cases doubled with
    | false => simp [AbsolutePath.text, PlainPath.text, hsecond, hnil]
    | true => simp [AbsolutePath.text, PlainPath.text]
  · rw [if_neg hroot]
    cases doubled with
    | false =>
        rw [and_iff_right rfl]
        exact PlainPath.eq_or_begins_iff hroot
    | true =>
        have hfirst := not_slash_begins_intercalate root
        refine iff_of_false ?_ (fun h => Bool.noConfusion h.1)
        rintro (heq | hbegins)
        · have hrest : slash :: [slash].intercalate p.names = [slash].intercalate root.names :=
            (List.cons.inj heq).2
          exact hfirst ⟨_, hrest⟩
        · have hrest : [slash].intercalate root.names ++ [slash] <+:
              slash :: [slash].intercalate p.names := (List.cons_prefix_cons.mp hbegins).2
          cases hnames : [slash].intercalate root.names with
          | nil => exact hroot ((intercalate_names_eq_nil_iff root).mp hnames)
          | cons c rest =>
              rw [hnames, List.cons_append, List.cons_prefix_cons] at hrest
              rw [hnames, hrest.1] at hfirst
              exact hfirst (List.prefix_append [slash] rest)

omit [DecidableEq α] in
/-- The text of a path tells the path. -/
theorem AbsolutePath.text_injective :
    Function.Injective (AbsolutePath.text : AbsolutePath slash dot → List α) := by
  classical
  intro p q h
  rw [← normAbsolute_text p, ← normAbsolute_text q, h]

end Begins

end Kernel
end TensorGrep
