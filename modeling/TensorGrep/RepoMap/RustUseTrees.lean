import TensorGrep.RepoMap.ContextPacking

/-!
# The leaves of Rust use trees

A `use` of Rust names a tree of paths: a group in braces shares the path in front of it.  The
flattener cuts a text at its first opening and its last closing brace, cuts what is between
them at the commas that are in no inner group, and joins the parts of a path by `::`.

The texts of a tree are its leaves (`flattenRustUseItems_text_iff`), but for `self as name` in a
group, which is not resolved, and for the `::` in front of a whole tree, which is lost at every
join.
-/

namespace TensorGrep
namespace RepoMap

open Kernel

/-! ## Flattening -/

/-- `str.rstrip(":")`. -/
def rstripColons (t : Text) : Text :=
  t.rdropWhile fun c => c = ':'

/-- `str.strip(":")`. -/
def stripColons (t : Text) : Text :=
  rstripColons (t.dropWhile fun c => c = ':')

/-- What joins two parts of a path. -/
def pathSep : Text :=
  [':', ':']

/-- The state of the loop of `_split_top_level_list`. -/
structure SplitState where
  items : List Text
  current : Text
  braceDepth : ℕ

/-- The items with the current one, unless it is blank. -/
def SplitState.push (s : SplitState) : List Text :=
  let item := stripSpace s.current
  if item = [] then s.items else s.items ++ [item]

/-- The depth behind a character. -/
def depthAfter
    (c : Char)
    (braceDepth : ℕ) : ℕ :=
  if c = '\x7b' then braceDepth + 1
  else if c = '\x7d' then braceDepth - 1
  else braceDepth

/-- One step of the loop. -/
def SplitState.read
    (s : SplitState)
    (c : Char) : SplitState :=
  if c = ',' ∧ depthAfter c s.braceDepth = 0 then ⟨s.push, [], depthAfter c s.braceDepth⟩
  else ⟨s.items, s.current ++ [c], depthAfter c s.braceDepth⟩

/-- `_split_top_level_list`. -/
def splitTopLevelList (text : Text) : List Text :=
  (text.foldl SplitState.read ⟨[], [], 0⟩).push

/-- The text between the first opening and the last closing brace. -/
def betweenBraces (normalized : Text) : Text :=
  ((normalized.rdropWhile fun c => c ≠ '\x7d').dropLast).drop
    ((normalized.takeWhile fun c => c ≠ '\x7b').length + 1)

/-- The prefix of the items of a group, from the prefix of the group. -/
def combinedWith
    (pre normalized : Text) : Text :=
  let prefixPart := stripSpace (rstripColons (normalized.takeWhile fun c => c ≠ '\x7b'))
  if prefixPart = [] then pre
  else if pre = [] then prefixPart
  else stripColons (pre ++ pathSep ++ prefixPart)

/-- A text behind a prefix. -/
def joinedTo
    (pre text : Text) : Text :=
  if pre = [] then text else stripColons (pre ++ pathSep ++ text)

/-! ### Termination -/

theorem length_stripSpace_le (t : Text) :
    (stripSpace t).length ≤ t.length := by
  rw [stripSpace, rstripSpace]
  exact (List.rdropWhile_prefix _ _).length_le.trans (List.dropWhile_suffix _).length_le

theorem SplitState.length_push_le
    {s : SplitState}
    {n : ℕ}
    (hitems : ∀ item ∈ s.items, item.length ≤ n)
    (hcurrent : s.current.length ≤ n) :
    ∀ item ∈ s.push, item.length ≤ n := by
  intro item hitem
  rw [SplitState.push] at hitem
  by_cases hblank : stripSpace s.current = []
  · exact hitems item (by simpa [hblank] using hitem)
  · rcases (by simpa [hblank] using hitem : item ∈ s.items ∨ item = stripSpace s.current)
      with hitem | rfl
    · exact hitems item hitem
    · exact (length_stripSpace_le _).trans hcurrent

/-- No item is longer than the text that was read. -/
theorem length_le_of_mem_foldl_read
    (text : Text)
    {s : SplitState}
    {n : ℕ}
    (hitems : ∀ item ∈ s.items, item.length ≤ n)
    (hcurrent : s.current.length ≤ n) :
    ∀ item ∈ (text.foldl SplitState.read s).push, item.length ≤ n + text.length := by
  induction text generalizing s n with
  | nil => exact SplitState.length_push_le hitems hcurrent
  | cons c text ih =>
      rw [List.foldl_cons, List.length_cons, Nat.add_comm text.length, ← Nat.add_assoc]
      refine ih ?_ ?_
      · rw [SplitState.read]
        split_ifs
        · exact fun item hitem =>
            (SplitState.length_push_le hitems hcurrent item hitem).trans (Nat.le_succ n)
        · exact fun item hitem => (hitems item hitem).trans (Nat.le_succ n)
      · rw [SplitState.read]
        split_ifs
        · exact Nat.zero_le _
        · simpa using hcurrent

theorem length_le_of_mem_splitTopLevelList
    {text item : Text}
    (h : item ∈ splitTopLevelList text) :
    item.length ≤ text.length := by
  simpa using length_le_of_mem_foldl_read text (s := ⟨[], [], 0⟩) (n := 0) (by simp) (by simp)
    item h

/-- What is between braces is shorter. -/
theorem length_betweenBraces_lt
    {normalized : Text}
    (h : normalized ≠ []) :
    (betweenBraces normalized).length < normalized.length := by
  have hpos := List.length_pos_of_ne_nil h
  have hle := (List.rdropWhile_prefix (fun c => decide (c ≠ '\x7d')) normalized).length_le
  rw [betweenBraces, List.length_drop, List.length_dropLast]
  omega

/-- `_flatten_rust_use_items`. -/
def flattenRustUseItems
    (expression pre : Text) : List Text :=
  let normalized := stripSpace expression
  if hnil : normalized = [] then []
  else if '\x7b' ∉ normalized then [joinedTo pre normalized]
  else if '\x7d' ∉ normalized then
    if combinedWith pre normalized = [] then [] else [combinedWith pre normalized]
  else
    (splitTopLevelList (betweenBraces normalized)).attach.flatMap fun item =>
      if item.val = "self".toList then
        if combinedWith pre normalized = [] then [] else [combinedWith pre normalized]
      else if '\x7b' ∈ item.val then flattenRustUseItems item.val (combinedWith pre normalized)
      else [joinedTo (combinedWith pre normalized) item.val]
termination_by expression.length
decreasing_by
  have hitem := length_le_of_mem_splitTopLevelList item.property
  have hinner := length_betweenBraces_lt hnil
  have hstrip : normalized.length ≤ expression.length := length_stripSpace_le expression
  omega

/-! ## Use trees -/

/-- The characters of a name, a keyword or a glob. -/
def IsNameChar (c : Char) : Prop :=
  c ≠ ':' ∧ c ≠ ',' ∧ c ≠ '\x7b' ∧ c ≠ '\x7d' ∧ isSpaceChar c = false

instance : DecidablePred IsNameChar := fun c =>
  inferInstanceAs (Decidable (c ≠ ':' ∧ c ≠ ',' ∧ c ≠ '\x7b' ∧ c ≠ '\x7d' ∧
    isSpaceChar c = false))

theorem isNameChar_of_all
    {t : Text}
    (h : (t.all fun c => decide (IsNameChar c)) = true) :
    ∀ c ∈ t, IsNameChar c := fun c hc =>
  of_decide_eq_true (List.all_eq_true.mp h c hc)

/-- A part of a path. -/
structure UseSegment where
  text : Text
  ne_nil : text ≠ []
  plain : ∀ c ∈ text, IsNameChar c

/-- White space around an item. -/
structure Blanks where
  text : Text
  space : ∀ c ∈ text, isSpaceChar c = true

mutual

/-- A path, which may be renamed, or a group behind a path. -/
inductive UseTree where
  | path (first : UseSegment) (rest : List UseSegment) (rename : Option UseSegment)
  | group (front : List UseSegment) (items : UseItems)

/-- The items of a group; a comma may stand behind the last one. -/
inductive UseItems where
  | nil (blank : Blanks)
  | one (before : Blanks) (tree : UseTree) (after : Blanks)
  | more (before : Blanks) (tree : UseTree) (after : Blanks) (rest : UseItems)

end

/-- The parts of a path, joined. -/
def pathText (path : List UseSegment) : Text :=
  pathSep.intercalate (path.map UseSegment.text)

/-- What is behind a path that is renamed. -/
def renameText : Option UseSegment → Text
  | none => []
  | some name => " as ".toList ++ name.text

/-- What is in front of the brace of a group. -/
def frontText (front : List UseSegment) : Text :=
  if front.isEmpty then [] else pathText front ++ pathSep

mutual

/-- The text of a tree. -/
def UseTree.text : UseTree → Text
  | .path first rest rename => pathText (first :: rest) ++ renameText rename
  | .group front items => frontText front ++ '\x7b' :: (items.text ++ ['\x7d'])

/-- The text between the braces of a group. -/
def UseItems.text : UseItems → Text
  | .nil blank => blank.text
  | .one before tree after => before.text ++ (tree.text ++ after.text)
  | .more before tree after rest => before.text ++ (tree.text ++ (after.text ++ ',' :: rest.text))

end

/-- The trees of a group. -/
def UseItems.trees : UseItems → List UseTree
  | .nil _ => []
  | .one _ tree _ => [tree]
  | .more _ tree _ rest => tree :: rest.trees

/-- The tree of a `use`, which may begin at the root of all crates. -/
structure UseDecl where
  isGlobal : Bool
  tree : UseTree

/-- The mark of the root of all crates. -/
def markText (marked : Bool) : Text :=
  if marked then pathSep else []

/-- The text of a `use`. -/
def UseDecl.text (d : UseDecl) : Text :=
  markText d.isGlobal ++ d.tree.text

/-! ### Leaves -/

/-- A path is `self` alone. -/
def IsSelf
    (first : UseSegment)
    (rest : List UseSegment) : Prop :=
  first.text = "self".toList ∧ rest.isEmpty = true

instance (first : UseSegment) (rest : List UseSegment) : Decidable (IsSelf first rest) :=
  inferInstanceAs (Decidable (_ ∧ _))

/-- The text of a leaf: its path and its name. -/
def leafText (leaf : List UseSegment × Option UseSegment) : Text :=
  pathText leaf.1 ++ renameText leaf.2

mutual

/-- The leaves of an item in a group, behind the path of the group.  There `self` is the group
itself, if it has a path. -/
def UseTree.leaves (pre : List UseSegment) : UseTree → List (List UseSegment × Option UseSegment)
  | .path first rest rename =>
      if IsSelf first rest then (if pre.isEmpty then [] else [(pre, rename)])
      else [(pre ++ first :: rest, rename)]
  | .group front items => items.leaves (pre ++ front)

/-- The leaves of the items of a group. -/
def UseItems.leaves (pre : List UseSegment) : UseItems → List (List UseSegment × Option UseSegment)
  | .nil _ => []
  | .one _ tree _ => tree.leaves pre
  | .more _ tree _ rest => tree.leaves pre ++ rest.leaves pre

end

/-- The leaves of a `use`. -/
def UseDecl.leaves (d : UseDecl) : List (List UseSegment × Option UseSegment) :=
  match d.tree with
  | .path first rest rename => [(first :: rest, rename)]
  | .group front items => items.leaves front

/-- Their texts. -/
def UseDecl.leafTexts (d : UseDecl) : List Text :=
  d.leaves.map fun leaf => markText d.isGlobal ++ leafText leaf

/-! ### The paths of a tree -/

/-- A path in a group, with the path of the group and whether the flattener still has the mark of
the root in front of it. -/
structure UseEntry where
  marked : Bool
  pre : List UseSegment
  first : UseSegment
  rest : List UseSegment
  rename : Option UseSegment

mutual

/-- The paths of an item in a group. -/
def UseTree.entries (marked : Bool) (pre : List UseSegment) : UseTree → List UseEntry
  | .path first rest rename => [⟨marked, pre, first, rest, rename⟩]
  | .group front items => items.entries (marked && front.isEmpty) (pre ++ front)

/-- The paths of the items of a group. -/
def UseItems.entries (marked : Bool) (pre : List UseSegment) : UseItems → List UseEntry
  | .nil _ => []
  | .one _ tree _ => tree.entries marked pre
  | .more _ tree _ rest => tree.entries marked pre ++ rest.entries marked pre

end

/-- The paths in the group of a `use`. -/
def UseDecl.entries (d : UseDecl) : List UseEntry :=
  match d.tree with
  | .path _ _ _ => []
  | .group front items => items.entries (d.isGlobal && !front.isEmpty) front

/-- The path is not `self` with a name; and in a `use` that begins at the root of all crates it is
`self`, in a group without a path or in one that has the mark. -/
def UseEntry.Resolved
    (isGlobal : Bool)
    (e : UseEntry) : Prop :=
  (IsSelf e.first e.rest → e.rename.isNone = true) ∧
    (isGlobal = true → IsSelf e.first e.rest ∧ (e.pre.isEmpty = true ∨ e.marked = true))

/-- What the flattener makes of a path. -/
def UseEntry.found (e : UseEntry) : List Text :=
  if IsSelf e.first e.rest ∧ e.rename.isNone = true then
    if e.pre.isEmpty then [] else [markText e.marked ++ pathText e.pre]
  else [leafText (e.pre ++ e.first :: e.rest, e.rename)]

/-- The leaf of a path. -/
def UseEntry.leaf (e : UseEntry) : List (List UseSegment × Option UseSegment) :=
  if IsSelf e.first e.rest then (if e.pre.isEmpty then [] else [(e.pre, e.rename)])
  else [(e.pre ++ e.first :: e.rest, e.rename)]

/-! ## The texts of trees -/

section Texts

/-- The first and the last character are neither a colon nor white space. -/
structure SolidEnds (t : Text) : Prop where
  head : ∃ c, t.head? = some c ∧ c ≠ ':' ∧ isSpaceChar c = false
  last : ∃ c, t.getLast? = some c ∧ c ≠ ':' ∧ isSpaceChar c = false

theorem SolidEnds.ne_nil
    {t : Text}
    (h : SolidEnds t) :
    t ≠ [] := by
  rintro rfl
  obtain ⟨c, hc, -⟩ := h.head
  cases hc

theorem SolidEnds.append
    {t t' : Text}
    (h : SolidEnds t)
    (h' : SolidEnds t')
    (between : Text) :
    SolidEnds (t ++ between ++ t') := by
  obtain ⟨c, hc, hplain⟩ := h.head
  obtain ⟨d, hd, hplain'⟩ := h'.last
  refine ⟨⟨c, ?_, hplain⟩, d, ?_, hplain'⟩
  · rw [List.append_assoc, List.head?_append, hc, Option.some_or]
  · rw [List.getLast?_append, hd, Option.some_or]

theorem UseSegment.solidEnds (segment : UseSegment) :
    SolidEnds segment.text := by
  have hplain : ∀ c ∈ segment.text, c ≠ ':' ∧ isSpaceChar c = false := fun c hc =>
    ⟨(segment.plain c hc).1, (segment.plain c hc).2.2.2.2⟩
  obtain ⟨c, rest, hcons⟩ := List.exists_cons_of_ne_nil segment.ne_nil
  refine ⟨⟨c, by rw [hcons, List.head?_cons], hplain c (hcons ▸ List.mem_cons_self)⟩,
    segment.text.getLast segment.ne_nil, List.getLast?_eq_some_getLast segment.ne_nil, ?_⟩
  exact hplain _ (List.getLast_mem segment.ne_nil)

theorem pathText_singleton (segment : UseSegment) :
    pathText [segment] = segment.text :=
  List.intercalate_singleton

theorem pathText_cons
    (segment : UseSegment)
    {path : List UseSegment}
    (h : path ≠ []) :
    pathText (segment :: path) = segment.text ++ pathSep ++ pathText path :=
  List.intercalate_cons_of_ne_nil (by simpa using h)

theorem pathText_append
    {path path' : List UseSegment}
    (h : path ≠ [])
    (h' : path' ≠ []) :
    pathText (path ++ path') = pathText path ++ pathSep ++ pathText path' := by
  induction path with
  | nil => exact absurd rfl h
  | cons segment path ih =>
      cases path with
      | nil => rw [List.singleton_append, pathText_cons segment h', pathText_singleton]
      | cons second path =>
          rw [List.cons_append, pathText_cons segment (by simp), ih (by simp),
            pathText_cons segment (by simp)]
          simp only [List.append_assoc]

theorem solidEnds_pathText
    {path : List UseSegment}
    (h : path ≠ []) :
    SolidEnds (pathText path) := by
  induction path with
  | nil => exact absurd rfl h
  | cons segment path ih =>
      cases path with
      | nil =>
          rw [pathText_singleton]
          exact segment.solidEnds
      | cons second path =>
          rw [pathText_cons segment (by simp)]
          exact segment.solidEnds.append (ih (by simp)) pathSep

theorem solidEnds_leafText
    {path : List UseSegment}
    (h : path ≠ [])
    (rename : Option UseSegment) :
    SolidEnds (leafText (path, rename)) := by
  cases rename with
  | none =>
      rw [leafText, renameText, List.append_nil]
      exact solidEnds_pathText h
  | some name =>
      rw [leafText, renameText, ← List.append_assoc]
      exact (solidEnds_pathText h).append name.solidEnds _

theorem UseTree.solidEnds_text (tree : UseTree) :
    SolidEnds tree.text := by
  have hopen : ('\x7b' : Char) ≠ ':' ∧ isSpaceChar '\x7b' = false := by decide
  have hclose : ('\x7d' : Char) ≠ ':' ∧ isSpaceChar '\x7d' = false := by decide
  cases tree with
  | path first rest rename => exact solidEnds_leafText (List.cons_ne_nil first rest) rename
  | group front items =>
      rw [UseTree.text]
      refine ⟨?_, '\x7d', ?_, hclose⟩
      · cases front with
        | nil => exact ⟨'\x7b', rfl, hopen⟩
        | cons segment front =>
            obtain ⟨c, hc, hplain⟩ := (solidEnds_pathText (List.cons_ne_nil segment front)).head
            refine ⟨c, ?_, hplain⟩
            rw [frontText, List.isEmpty_cons, if_neg Bool.false_ne_true, List.append_assoc,
              List.head?_append, hc, Option.some_or]
      · rw [← List.cons_append, ← List.append_assoc, List.getLast?_concat]

/-- Blanks around a text are stripped. -/
theorem stripSpace_blanks
    {t : Text}
    (h : SolidEnds t)
    (before after : Blanks) :
    stripSpace (before.text ++ (t ++ after.text)) = t := by
  obtain ⟨c, hc, -, hhead⟩ := h.head
  obtain ⟨rest, rfl⟩ : ∃ rest, t = c :: rest := by
    cases t with
    | nil => cases hc
    | cons d rest => exact ⟨rest, by rw [Option.some.inj hc]⟩
  obtain ⟨d, hd, -, hlast⟩ := h.last
  rw [stripSpace, List.dropWhile_append_of_pos before.space, List.cons_append,
    List.dropWhile_cons_of_neg (by simp [hhead]), ← List.cons_append, rstripSpace,
    rdropWhile_append_of_all after.space, ← rstripSpace]
  exact rstripSpace_eq_self fun e he => by
    rw [← Option.some.inj (hd.symm.trans he)]
    exact hlast

theorem stripSpace_blank (blank : Blanks) :
    stripSpace blank.text = [] := by
  rw [stripSpace, List.dropWhile_eq_nil_iff.mpr blank.space]
  rfl

/-- Nothing is stripped. -/
theorem stripSpace_of_solidEnds
    {t : Text}
    (h : SolidEnds t) :
    stripSpace t = t := by
  have hnone : ∀ c ∈ ([] : Text), isSpaceChar c = true := fun c hc => nomatch hc
  simpa using stripSpace_blanks h ⟨[], hnone⟩ ⟨[], hnone⟩

theorem rstripColons_of_solidEnds
    {t : Text}
    (h : SolidEnds t) :
    rstripColons t = t := by
  obtain ⟨c, hc, hcolon, -⟩ := h.last
  obtain ⟨front, rfl⟩ := List.getLast?_eq_some_iff.mp hc
  exact List.rdropWhile_concat_neg _ _ _ (by simpa using hcolon)

/-- The mark of the root is stripped, and nothing else. -/
theorem stripColons_mark
    {t : Text}
    (h : SolidEnds t)
    (marked : Bool) :
    stripColons (markText marked ++ t) = t := by
  obtain ⟨c, hc, hcolon, -⟩ := h.head
  obtain ⟨rest, rfl⟩ : ∃ rest, t = c :: rest := by
    cases t with
    | nil => cases hc
    | cons d rest => exact ⟨rest, by rw [Option.some.inj hc]⟩
  have hmark : ∀ d ∈ markText marked, decide (d = ':') = true := by
    cases marked <;> simp [markText, pathSep]
  rw [stripColons, List.dropWhile_append_of_pos hmark,
    List.dropWhile_cons_of_neg (by simpa using hcolon), rstripColons_of_solidEnds h]

end Texts

/-! ## Cutting a group -/

section Cutting

/-- A character that the loop only appends. -/
def IsQuiet (c : Char) : Prop :=
  c ≠ ',' ∧ c ≠ '\x7b' ∧ c ≠ '\x7d'

theorem SplitState.read_of_isQuiet
    {c : Char}
    (h : IsQuiet c)
    (s : SplitState) :
    s.read c = ⟨s.items, s.current ++ [c], s.braceDepth⟩ := by
  have hdepth : depthAfter c s.braceDepth = s.braceDepth := by
    rw [depthAfter, if_neg h.2.1, if_neg h.2.2]
  rw [SplitState.read, hdepth, if_neg fun hcomma => h.1 hcomma.1]

theorem foldl_read_of_isQuiet
    {text : Text}
    (h : ∀ c ∈ text, IsQuiet c)
    (s : SplitState) :
    text.foldl SplitState.read s = ⟨s.items, s.current ++ text, s.braceDepth⟩ := by
  induction text generalizing s with
  | nil => simp
  | cons c text ih =>
      rw [List.foldl_cons, SplitState.read_of_isQuiet (h c List.mem_cons_self),
        ih fun d hd => h d (List.mem_cons_of_mem c hd)]
      simp

theorem IsNameChar.isQuiet
    {c : Char}
    (h : IsNameChar c) :
    IsQuiet c :=
  ⟨h.2.1, h.2.2.1, h.2.2.2.1⟩

theorem isQuiet_of_isSpaceChar
    {c : Char}
    (h : isSpaceChar c = true) :
    IsQuiet c := by
  refine ⟨?_, ?_, ?_⟩
  all_goals
    rintro rfl
    exact absurd h (by decide)

theorem isQuiet_of_mem_pathText
    {path : List UseSegment} :
    ∀ c ∈ pathText path, IsQuiet c := by
  have hsep : ∀ c ∈ pathSep, IsQuiet c := by
    intro c hc
    have heq : c = ':' := by simpa [pathSep] using hc
    subst heq
    exact ⟨by decide, by decide, by decide⟩
  have hsegment : ∀ segment : UseSegment, ∀ c ∈ segment.text, IsQuiet c := fun segment c hc =>
    (segment.plain c hc).isQuiet
  induction path with
  | nil => exact fun c hc => nomatch hc
  | cons segment path ih =>
      cases path with
      | nil =>
          rw [pathText_singleton]
          exact hsegment segment
      | cons second path =>
          rw [pathText_cons segment (by simp)]
          intro c hc
          rcases List.mem_append.mp hc with hc | hc
          · rcases List.mem_append.mp hc with hc | hc
            · exact hsegment segment c hc
            · exact hsep c hc
          · exact ih c hc

theorem isQuiet_of_mem_frontText
    {front : List UseSegment} :
    ∀ c ∈ frontText front, IsQuiet c := by
  intro c hc
  rw [frontText] at hc
  split_ifs at hc with hempty
  · cases hc
  · rcases List.mem_append.mp hc with hc | hc
    · exact isQuiet_of_mem_pathText c hc
    · have heq : c = ':' := by simpa [pathSep] using hc
      subst heq
      exact ⟨by decide, by decide, by decide⟩

theorem isQuiet_of_mem_leafText
    {leaf : List UseSegment × Option UseSegment} :
    ∀ c ∈ leafText leaf, IsQuiet c := by
  intro c hc
  rcases List.mem_append.mp hc with hc | hc
  · exact isQuiet_of_mem_pathText c hc
  · cases hrename : leaf.2 with
    | none =>
        rw [hrename] at hc
        cases hc
    | some name =>
        rw [hrename, renameText] at hc
        rcases List.mem_append.mp hc with hc | hc
        · have hall : (" as ".toList.all fun c => c ≠ ',' ∧ c ≠ '\x7b' ∧ c ≠ '\x7d') = true := by
            decide
          have hquiet := List.all_eq_true.mp hall c hc
          rwa [decide_eq_true_iff] at hquiet
        · exact (name.plain c hc).isQuiet

/-! ### A tree is read whole -/

mutual

/-- At every depth the text of a tree belongs to one item. -/
theorem UseTree.foldl_read
    (tree : UseTree)
    (s : SplitState) :
    tree.text.foldl SplitState.read s = ⟨s.items, s.current ++ tree.text, s.braceDepth⟩ := by
  cases tree with
  | path first rest rename =>
      exact foldl_read_of_isQuiet (@isQuiet_of_mem_leafText (first :: rest, rename)) s
  | group front items =>
      have hopen : ∀ s : SplitState, s.read '\x7b' =
          ⟨s.items, s.current ++ ['\x7b'], s.braceDepth + 1⟩ := fun s => rfl
      have hclose : ∀ s : SplitState, s.read '\x7d' =
          ⟨s.items, s.current ++ ['\x7d'], s.braceDepth - 1⟩ := fun s => rfl
      rw [UseTree.text, List.foldl_append, foldl_read_of_isQuiet isQuiet_of_mem_frontText,
        List.foldl_cons, hopen, List.foldl_append, items.foldl_read, List.foldl_cons, hclose,
        List.foldl_nil]
      simp

/-- Below the top level the text of the items of a group belongs to one item. -/
theorem UseItems.foldl_read
    (items : UseItems)
    (texts : List Text)
    (current : Text)
    (depth : ℕ) :
    items.text.foldl SplitState.read ⟨texts, current, depth + 1⟩ =
      ⟨texts, current ++ items.text, depth + 1⟩ := by
  have hblank : ∀ blank : Blanks, ∀ c ∈ blank.text, IsQuiet c := fun blank c hc =>
    isQuiet_of_isSpaceChar (blank.space c hc)
  cases items with
  | nil blank => exact foldl_read_of_isQuiet (hblank blank) _
  | one before tree after =>
      rw [UseItems.text, List.foldl_append, foldl_read_of_isQuiet (hblank before),
        List.foldl_append, tree.foldl_read, foldl_read_of_isQuiet (hblank after)]
      simp
  | more before tree after rest =>
      have hcomma : ∀ current : Text, (⟨texts, current, depth + 1⟩ : SplitState).read ',' =
          ⟨texts, current ++ [','], depth + 1⟩ := fun current => rfl
      rw [UseItems.text, List.foldl_append, foldl_read_of_isQuiet (hblank before),
        List.foldl_append, tree.foldl_read, List.foldl_append,
        foldl_read_of_isQuiet (hblank after), List.foldl_cons, hcomma, rest.foldl_read]
      simp

end

/-- At the top level the items of a group are the texts of its trees. -/
theorem UseItems.push_foldl_read
    (items : UseItems)
    (texts : List Text) :
    (items.text.foldl SplitState.read ⟨texts, [], 0⟩).push =
      texts ++ items.trees.map UseTree.text := by
  have hblank : ∀ blank : Blanks, ∀ c ∈ blank.text, IsQuiet c := fun blank c hc =>
    isQuiet_of_isSpaceChar (blank.space c hc)
  have hpush : ∀ (texts : List Text) (before : Blanks) (tree : UseTree) (after : Blanks),
      (⟨texts, before.text ++ (tree.text ++ after.text), 0⟩ : SplitState).push =
        texts ++ [tree.text] := by
    intro texts before tree after
    rw [SplitState.push, stripSpace_blanks tree.solidEnds_text]
    exact if_neg tree.solidEnds_text.ne_nil
  cases items with
  | nil blank =>
      rw [UseItems.text, foldl_read_of_isQuiet (hblank blank), SplitState.push, List.nil_append,
        stripSpace_blank]
      exact (List.append_nil texts).symm
  | one before tree after =>
      rw [UseItems.text, List.foldl_append, foldl_read_of_isQuiet (hblank before),
        List.foldl_append, tree.foldl_read, foldl_read_of_isQuiet (hblank after), List.nil_append,
        List.append_assoc, hpush]
      rfl
  | more before tree after rest =>
      have hcomma : ∀ current : Text, (⟨texts, current, 0⟩ : SplitState).read ',' =
          ⟨(⟨texts, current, 0⟩ : SplitState).push, [], 0⟩ := fun current => rfl
      rw [UseItems.text, List.foldl_append, foldl_read_of_isQuiet (hblank before),
        List.foldl_append, tree.foldl_read, List.foldl_append,
        foldl_read_of_isQuiet (hblank after), List.foldl_cons, List.nil_append, List.append_assoc,
        hcomma, hpush, rest.push_foldl_read, List.append_assoc]
      rfl

theorem splitTopLevelList_text (items : UseItems) :
    splitTopLevelList items.text = items.trees.map UseTree.text :=
  (items.push_foldl_read []).trans (List.nil_append _)

theorem takeWhile_front
    {front : Text}
    (h : ∀ c ∈ front, IsQuiet c)
    (rest : Text) :
    (front ++ '\x7b' :: rest).takeWhile (fun c => c ≠ '\x7b') = front := by
  rw [List.takeWhile_append_of_pos fun c hc => by simpa using (h c hc).2.1,
    List.takeWhile_cons_of_neg (by simp), List.append_nil]

/-- The items stand between the first opening and the last closing brace. -/
theorem betweenBraces_text
    {front : Text}
    (h : ∀ c ∈ front, IsQuiet c)
    (inner : Text) :
    betweenBraces (front ++ '\x7b' :: (inner ++ ['\x7d'])) = inner := by
  have hlast : (front ++ '\x7b' :: (inner ++ ['\x7d'])).rdropWhile (fun c => c ≠ '\x7d') =
      (front ++ '\x7b' :: inner) ++ ['\x7d'] := by
    rw [← List.cons_append, ← List.append_assoc]
    exact List.rdropWhile_concat_neg _ _ _ (by simp)
  have hlength : front.length + 1 = (front ++ ['\x7b']).length := by simp
  rw [betweenBraces, hlast, List.dropLast_concat, takeWhile_front h, List.append_cons, hlength]
  exact List.drop_left

end Cutting

/-! ## Flattening a tree -/

section Flattening

/-- What is made of an item of a group. -/
def itemFound
    (combined item : Text) : List Text :=
  if item = "self".toList then (if combined = [] then [] else [combined])
  else if '\x7b' ∈ item then flattenRustUseItems item combined
  else [joinedTo combined item]

/-- A text with braces is flattened item by item. -/
theorem flattenRustUseItems_braces
    {expression : Text}
    (hopen : '\x7b' ∈ stripSpace expression)
    (hclose : '\x7d' ∈ stripSpace expression)
    (pre : Text) :
    flattenRustUseItems expression pre =
      (splitTopLevelList (betweenBraces (stripSpace expression))).flatMap
        (itemFound (combinedWith pre (stripSpace expression))) := by
  have hattach : ∀ items : List Text,
      items.attach.flatMap (fun item => itemFound (combinedWith pre (stripSpace expression))
        item.val) = items.flatMap (itemFound (combinedWith pre (stripSpace expression))) := by
    intro items
    rw [← List.flatMap_map, List.attach_map_subtype_val]
  have hne : stripSpace expression ≠ [] := List.ne_nil_of_mem hopen
  rw [flattenRustUseItems]
  simp only [hne, hopen, hclose, not_true_eq_false, if_false, dite_false]
  exact hattach _

/-- A group is flattened item by item. -/
theorem flattenRustUseItems_group
    {front inner : Text}
    (hquiet : ∀ c ∈ front, IsQuiet c)
    (hstrip : stripSpace (front ++ '\x7b' :: (inner ++ ['\x7d'])) =
      front ++ '\x7b' :: (inner ++ ['\x7d']))
    (pre : Text) :
    flattenRustUseItems (front ++ '\x7b' :: (inner ++ ['\x7d'])) pre =
      (splitTopLevelList inner).flatMap
        (itemFound (combinedWith pre (front ++ '\x7b' :: (inner ++ ['\x7d'])))) := by
  rw [flattenRustUseItems_braces (by rw [hstrip]; simp) (by rw [hstrip]; simp), hstrip,
    betweenBraces_text hquiet]

/-- The text in front of what is found behind a path. -/
def preText
    (marked : Bool)
    (pre : List UseSegment) : Text :=
  markText marked ++ pathText pre

theorem preText_eq_nil_iff
    {marked : Bool}
    {pre : List UseSegment}
    (h : marked = true → pre ≠ []) :
    preText marked pre = [] ↔ pre = [] := by
  constructor
  · intro hnil
    by_contra hpre
    exact (solidEnds_pathText hpre).ne_nil (List.append_eq_nil_iff.mp hnil).2
  · rintro rfl
    cases marked with
    | true => exact absurd rfl (h rfl)
    | false => rfl

/-- A path behind a prefix is stripped of the mark of the root. -/
theorem stripColons_preText
    {marked : Bool}
    {pre path : List UseSegment}
    (hpre : pre ≠ [])
    (hpath : path ≠ [])
    (rename : Option UseSegment) :
    stripColons (preText marked pre ++ pathSep ++ leafText (path, rename)) =
      leafText (pre ++ path, rename) := by
  have hjoin : leafText (pre ++ path, rename) =
      pathText pre ++ pathSep ++ leafText (path, rename) := by
    rw [leafText, leafText, pathText_append hpre hpath, List.append_assoc]
  rw [hjoin, preText, List.append_assoc, List.append_assoc, ← List.append_assoc (pathText pre)]
  exact stripColons_mark ((solidEnds_pathText hpre).append (solidEnds_leafText hpath rename) _)
    marked

theorem leafText_none (path : List UseSegment) :
    leafText (path, none) = pathText path :=
  List.append_nil _

/-- The items of a group have the path of the group in front of them. -/
theorem combinedWith_group
    {marked : Bool}
    {pre : List UseSegment}
    (h : marked = true → pre ≠ [])
    (front : List UseSegment)
    (items : UseItems) :
    combinedWith (preText marked pre) (UseTree.group front items).text =
      preText (marked && front.isEmpty) (pre ++ front) := by
  rw [UseTree.text, combinedWith, takeWhile_front isQuiet_of_mem_frontText]
  cases hfront : front with
  | nil => simp [frontText, rstripColons, stripSpace, rstripSpace]
  | cons segment rest =>
      have hne : segment :: rest ≠ [] := List.cons_ne_nil _ _
      have hpart : stripSpace (rstripColons (frontText (segment :: rest))) =
          pathText (segment :: rest) := by
        have hcolons : rstripColons (pathText (segment :: rest) ++ pathSep) =
            pathText (segment :: rest) := by
          rw [rstripColons, rdropWhile_append_of_all (by simp [pathSep]), ← rstripColons,
            rstripColons_of_solidEnds (solidEnds_pathText hne)]
        rw [frontText, List.isEmpty_cons, if_neg Bool.false_ne_true, hcolons,
          stripSpace_of_solidEnds (solidEnds_pathText hne)]
      have hfalse : (marked && (segment :: rest).isEmpty) = false := by simp
      simp only [hpart, (solidEnds_pathText hne).ne_nil, if_false, preText_eq_nil_iff h, hfalse]
      split_ifs with hpre
      · rw [hpre]
        rfl
      · rw [← leafText_none, stripColons_preText hpre hne, leafText_none]
        rfl

theorem joinedTo_leafText
    {marked : Bool}
    {pre path : List UseSegment}
    (h : marked = true → pre ≠ [])
    (hpath : path ≠ [])
    (rename : Option UseSegment) :
    joinedTo (preText marked pre) (leafText (path, rename)) = leafText (pre ++ path, rename) := by
  rw [joinedTo]
  simp only [preText_eq_nil_iff h]
  split_ifs with hpre
  · rw [hpre, List.nil_append]
  · exact stripColons_preText hpre hpath rename

/-- The text of a path is `self` only if the path is. -/
theorem leafText_eq_self_iff
    {first : UseSegment}
    {rest : List UseSegment}
    {rename : Option UseSegment} :
    leafText (first :: rest, rename) = "self".toList ↔
      IsSelf first rest ∧ rename.isNone = true := by
  constructor
  · intro heq
    have hcolon : ':' ∉ "self".toList := by decide
    have hspace : ' ' ∉ "self".toList := by decide
    cases rest with
    | cons second rest =>
        rw [leafText, pathText_cons first (List.cons_ne_nil second rest)] at heq
        exact absurd (heq ▸ (by simp [pathSep])) hcolon
    | nil =>
        rw [leafText, pathText_singleton] at heq
        cases rename with
        | some name => exact absurd (heq ▸ (by simp [renameText])) hspace
        | none => exact ⟨⟨by simpa [renameText] using heq, rfl⟩, rfl⟩
  · rintro ⟨⟨hself, hrest⟩, hrename⟩
    rw [List.isEmpty_iff.mp hrest, Option.isNone_iff_eq_none.mp hrename, leafText_none,
      pathText_singleton, hself]

mutual

/-- An item is found as its paths are. -/
theorem UseTree.itemFound_text
    (tree : UseTree)
    {marked : Bool}
    {pre : List UseSegment}
    (h : marked = true → pre ≠ []) :
    itemFound (preText marked pre) tree.text = (tree.entries marked pre).flatMap UseEntry.found := by
  cases tree with
  | path first rest rename =>
      have hopen : '\x7b' ∉ leafText (first :: rest, rename) := fun hmem =>
        (isQuiet_of_mem_leafText _ hmem).2.1 rfl
      have htext : (UseTree.path first rest rename).text = leafText (first :: rest, rename) := rfl
      rw [htext, itemFound, UseTree.entries, List.flatMap_singleton, UseEntry.found, if_neg hopen]
      simp only [leafText_eq_self_iff, preText_eq_nil_iff h, List.isEmpty_iff,
        joinedTo_leafText h (List.cons_ne_nil first rest)]
      rfl
  | group front items =>
      have hself : (UseTree.group front items).text ≠ "self".toList := by
        have hopen : '\x7b' ∉ "self".toList := by decide
        intro heq
        exact hopen (heq ▸ by simp [UseTree.text])
      have hmem : '\x7b' ∈ (UseTree.group front items).text := by
        simp [UseTree.text]
      have hstrip := stripSpace_of_solidEnds (UseTree.group front items).solidEnds_text
      have hcombined := @combinedWith_group marked pre h front items
      have hinner : (marked && front.isEmpty) = true → pre ++ front ≠ [] := fun hmarked hnil =>
        h (Bool.and_eq_true_iff.mp hmarked).1 (List.append_eq_nil_iff.mp hnil).1
      rw [itemFound, if_neg hself, if_pos hmem, UseTree.entries, ← items.flatMap_itemFound hinner,
        ← hcombined, ← splitTopLevelList_text]
      rw [UseTree.text] at hstrip ⊢
      exact flattenRustUseItems_group isQuiet_of_mem_frontText hstrip _

/-- The items of a group are found as their paths are. -/
theorem UseItems.flatMap_itemFound
    (items : UseItems)
    {marked : Bool}
    {pre : List UseSegment}
    (h : marked = true → pre ≠ []) :
    (items.trees.map UseTree.text).flatMap (itemFound (preText marked pre)) =
      (items.entries marked pre).flatMap UseEntry.found := by
  cases items with
  | nil blank => rfl
  | one before tree after =>
      rw [UseItems.trees, UseItems.entries, ← tree.itemFound_text h, List.map_singleton,
        List.flatMap_singleton]
  | more before tree after rest =>
      rw [UseItems.trees, UseItems.entries, List.flatMap_append, ← tree.itemFound_text h,
        ← rest.flatMap_itemFound h, List.map_cons, List.flatMap_cons]

end

end Flattening

/-! ## A whole use -/

section Uses

theorem isQuiet_of_mem_markText
    {marked : Bool} :
    ∀ c ∈ markText marked, IsQuiet c := by
  intro c hc
  have heq : c = ':' := by
    cases marked with
    | true => simpa [markText, pathSep] using hc
    | false => cases hc
  subst heq
  exact ⟨by decide, by decide, by decide⟩

theorem stripSpace_mark
    {t : Text}
    (h : SolidEnds t)
    (marked : Bool) :
    stripSpace (markText marked ++ t) = markText marked ++ t := by
  cases marked with
  | false => exact stripSpace_of_solidEnds h
  | true =>
      obtain ⟨d, hd, -, hlast⟩ := h.last
      have hcolon : isSpaceChar ':' = false := by decide
      rw [stripSpace, markText, if_pos rfl, pathSep, List.cons_append,
        List.dropWhile_cons_of_neg (by simp [hcolon])]
      refine rstripSpace_eq_self fun e he => ?_
      rw [← List.cons_append, List.getLast?_append, hd, Option.some_or] at he
      rw [← Option.some.inj he]
      exact hlast

/-- The items of the group of a use have the mark of the root in front of them, if the group has a
path. -/
theorem combinedWith_top
    (isGlobal : Bool)
    (front : List UseSegment)
    (inner : Text) :
    combinedWith [] (markText isGlobal ++ frontText front ++ '\x7b' :: (inner ++ ['\x7d'])) =
      preText (isGlobal && !front.isEmpty) front := by
  have hquiet : ∀ c ∈ markText isGlobal ++ frontText front, IsQuiet c := by
    intro c hc
    rcases List.mem_append.mp hc with hc | hc
    · exact isQuiet_of_mem_markText c hc
    · exact isQuiet_of_mem_frontText c hc
  rw [combinedWith, takeWhile_front hquiet]
  cases front with
  | nil => cases isGlobal <;> rfl
  | cons segment rest =>
      have hne : segment :: rest ≠ [] := List.cons_ne_nil _ _
      have hcolons : rstripColons (markText isGlobal ++ (pathText (segment :: rest) ++ pathSep)) =
          markText isGlobal ++ pathText (segment :: rest) := by
        obtain ⟨c, hc, hcolon, -⟩ := (solidEnds_pathText hne).last
        obtain ⟨before, hbefore⟩ := List.getLast?_eq_some_iff.mp hc
        rw [rstripColons, ← List.append_assoc, rdropWhile_append_of_all (by simp [pathSep]), hbefore,
          ← List.append_assoc]
        exact List.rdropWhile_concat_neg _ _ _ (by simpa using hcolon)
      have hpart : markText isGlobal ++ pathText (segment :: rest) ≠ [] := fun hnil =>
        (solidEnds_pathText hne).ne_nil (List.append_eq_nil_iff.mp hnil).2
      rw [frontText, List.isEmpty_cons, if_neg Bool.false_ne_true, hcolons,
        stripSpace_mark (solidEnds_pathText hne)]
      simp only [hpart, if_false, if_true, Bool.not_false, Bool.and_true]
      rfl

/-- What the flattener finds in a use. -/
theorem flattenRustUseItems_text
    (d : UseDecl) :
    flattenRustUseItems d.text [] =
      match d.tree with
      | .path first rest rename => [markText d.isGlobal ++ leafText (first :: rest, rename)]
      | .group _ _ => d.entries.flatMap UseEntry.found := by
  obtain ⟨isGlobal, tree⟩ := d
  have hstrip := stripSpace_mark tree.solidEnds_text isGlobal
  cases tree with
  | path first rest rename =>
      have htext : (UseTree.path first rest rename).text = leafText (first :: rest, rename) := rfl
      have hopen : '\x7b' ∉ markText isGlobal ++ leafText (first :: rest, rename) := by
        intro hmem
        rcases List.mem_append.mp hmem with hmem | hmem
        · exact (isQuiet_of_mem_markText _ hmem).2.1 rfl
        · exact (isQuiet_of_mem_leafText _ hmem).2.1 rfl
      have hne : markText isGlobal ++ leafText (first :: rest, rename) ≠ [] := fun hnil =>
        (solidEnds_leafText (List.cons_ne_nil first rest) rename).ne_nil
          (List.append_eq_nil_iff.mp hnil).2
      rw [htext] at hstrip
      rw [UseDecl.text, flattenRustUseItems]
      simp only [htext, hstrip, hne, hopen, dite_false, not_false_eq_true, if_true, joinedTo]
  | group front items =>
      have hquiet : ∀ c ∈ markText isGlobal ++ frontText front, IsQuiet c := by
        intro c hc
        rcases List.mem_append.mp hc with hc | hc
        · exact isQuiet_of_mem_markText c hc
        · exact isQuiet_of_mem_frontText c hc
      have hmarked : (isGlobal && !front.isEmpty) = true → front ≠ [] := by
        intro hmarked
        have hfront := (Bool.and_eq_true_iff.mp hmarked).2
        simpa using hfront
      rw [UseTree.text, ← List.append_assoc] at hstrip
      rw [UseDecl.text, UseTree.text, ← List.append_assoc,
        flattenRustUseItems_group hquiet hstrip, combinedWith_top, splitTopLevelList_text,
        items.flatMap_itemFound hmarked]
      rfl

/-! ### Leaves and paths -/

mutual

/-- The leaves of an item are those of its paths. -/
theorem UseTree.leaves_eq
    (tree : UseTree)
    (marked : Bool)
    (pre : List UseSegment) :
    tree.leaves pre = (tree.entries marked pre).flatMap UseEntry.leaf := by
  cases tree with
  | path first rest rename => exact (List.flatMap_singleton _ _).symm
  | group front items => exact items.leaves_eq _ _

/-- The leaves of the items of a group are those of their paths. -/
theorem UseItems.leaves_eq
    (items : UseItems)
    (marked : Bool)
    (pre : List UseSegment) :
    items.leaves pre = (items.entries marked pre).flatMap UseEntry.leaf := by
  cases items with
  | nil blank => rfl
  | one before tree after => exact tree.leaves_eq marked pre
  | more before tree after rest =>
      rw [UseItems.leaves, UseItems.entries, List.flatMap_append, tree.leaves_eq marked,
        rest.leaves_eq marked]

end

mutual

/-- A path that has the mark of the root is in a group that has it. -/
theorem UseTree.marked_of_mem_entries
    (tree : UseTree)
    {marked : Bool}
    {pre : List UseSegment}
    {e : UseEntry}
    (h : e ∈ tree.entries marked pre)
    (he : e.marked = true) :
    marked = true := by
  cases tree with
  | path first rest rename =>
      rw [UseTree.entries, List.mem_singleton] at h
      rwa [h] at he
  | group front items =>
      exact (Bool.and_eq_true_iff.mp (items.marked_of_mem_entries h he)).1

theorem UseItems.marked_of_mem_entries
    (items : UseItems)
    {marked : Bool}
    {pre : List UseSegment}
    {e : UseEntry}
    (h : e ∈ items.entries marked pre)
    (he : e.marked = true) :
    marked = true := by
  cases items with
  | nil blank => cases h
  | one before tree after => exact tree.marked_of_mem_entries h he
  | more before tree after rest =>
      rcases List.mem_append.mp h with h | h
      · exact tree.marked_of_mem_entries h he
      · exact rest.marked_of_mem_entries h he

end

/-- Two rows of short lists agree if and only if their lists do, where no list of the second row is
longer. -/
theorem flatMap_eq_flatMap_iff
    {α β : Type}
    {f g : α → List β}
    {l : List α}
    (h : ∀ x ∈ l, (g x).length ≤ (f x).length) :
    l.flatMap f = l.flatMap g ↔ ∀ x ∈ l, f x = g x := by
  refine ⟨fun heq => ?_, fun heq => List.flatMap_congr heq⟩
  induction l with
  | nil => exact fun x hx => nomatch hx
  | cons x l ih =>
      have hrest : ∀ y ∈ l, (g y).length ≤ (f y).length := fun y hy =>
        h y (List.mem_cons_of_mem x hy)
      have hsum : ∀ l : List α, (∀ y ∈ l, (g y).length ≤ (f y).length) →
          (l.flatMap g).length ≤ (l.flatMap f).length := by
        intro l hl
        rw [List.length_flatMap, List.length_flatMap]
        exact List.sum_le_sum hl
      have hlength := congrArg List.length heq
      have hfirst := h x List.mem_cons_self
      have hlater := hsum l hrest
      rw [List.flatMap_cons, List.flatMap_cons] at heq
      rw [List.flatMap_cons, List.flatMap_cons, List.length_append, List.length_append] at hlength
      obtain ⟨hx, hl⟩ := List.append_inj heq (by omega)
      exact List.forall_mem_cons.mpr ⟨hx, ih hrest hl⟩

theorem markText_append_inj
    {marked marked' : Bool}
    (t : Text) :
    markText marked ++ t = markText marked' ++ t ↔ marked = marked' := by
  rw [List.append_cancel_right_eq]
  cases marked <;> cases marked' <;> simp [markText, pathSep]

/-- `self` with a name is not the group with that name. -/
theorem found_renamed_self_ne
    {pre : List UseSegment}
    (hpre : pre ≠ [])
    {first : UseSegment}
    (hself : first.text = "self".toList)
    (rename : Option UseSegment)
    (marked : Bool) :
    leafText (pre ++ [first], rename) ≠ markText marked ++ leafText (pre, rename) := by
  intro heq
  have hlength := congrArg List.length heq
  have hmark : (markText marked).length ≤ 2 := by
    cases marked <;> simp [markText, pathSep]
  rw [leafText, leafText, pathText_append hpre (List.cons_ne_nil first []), pathText_singleton,
    hself] at hlength
  simp only [List.length_append, pathSep, List.length_cons, List.length_nil] at hlength
  have hfour : "self".toList.length = 4 := rfl
  omega

/-- A path is found as its leaf if and only if it is resolved. -/
theorem UseEntry.found_eq_iff
    {isGlobal : Bool}
    {e : UseEntry}
    (h : e.marked = true → isGlobal = true) :
    e.found = e.leaf.map (fun leaf => markText isGlobal ++ leafText leaf) ↔
      e.Resolved isGlobal := by
  obtain ⟨marked, pre, first, rest, rename⟩ := e
  rw [UseEntry.found, UseEntry.leaf, UseEntry.Resolved]
  by_cases hself : IsSelf first rest
  · cases rename with
    | none =>
        cases pre with
        | nil => simp [hself]
        | cons segment pre =>
            have hmarked : (markText marked ++ pathText (segment :: pre) =
                markText isGlobal ++ pathText (segment :: pre)) ↔
                  (isGlobal = true → marked = true) := by
              rw [markText_append_inj]
              constructor
              · rintro rfl hglobal
                exact hglobal
              · intro hkept
                exact Bool.eq_iff_iff.mpr ⟨h, hkept⟩
            simpa [hself, leafText_none] using hmarked
    | some name =>
        refine iff_of_false ?_ fun hresolved => by simpa using hresolved.1 hself
        cases pre with
        | nil => simp [hself]
        | cons segment pre =>
            have hne := found_renamed_self_ne (List.cons_ne_nil segment pre) hself.1 (some name)
              isGlobal
            have hrest : rest = [] := List.isEmpty_iff.mp hself.2
            subst hrest
            simpa [hself] using hne
  · have hplain : leafText (pre ++ first :: rest, rename) =
        markText isGlobal ++ leafText (pre ++ first :: rest, rename) ↔ isGlobal = false := by
      exact (@markText_append_inj false isGlobal _).trans eq_comm
    simpa [hself] using hplain

/-- The texts of the leaves of a use are found if and only if all paths of its group are resolved;
and every item of a text in braces is shorter than the text. -/
theorem flattenRustUseItems_text_iff
    (d : UseDecl)
    (expression : Text) :
    (flattenRustUseItems d.text [] = d.leafTexts ↔ ∀ e ∈ d.entries, e.Resolved d.isGlobal) ∧
      ∀ item ∈ splitTopLevelList (betweenBraces (stripSpace expression)),
        item.length < expression.length := by
  constructor
  · have hfound := flattenRustUseItems_text d
    obtain ⟨isGlobal, tree⟩ := d
    cases tree with
    | path first rest rename => exact iff_of_true hfound fun e he => nomatch he
    | group front items =>
        have hentries : ∀ e ∈ (UseDecl.mk isGlobal (.group front items)).entries,
            e.marked = true → isGlobal = true := fun e he hmarked =>
          (Bool.and_eq_true_iff.mp (items.marked_of_mem_entries he hmarked)).1
        have hleaves : (UseDecl.mk isGlobal (.group front items)).leafTexts =
            (UseDecl.mk isGlobal (.group front items)).entries.flatMap fun e =>
              e.leaf.map fun leaf => markText isGlobal ++ leafText leaf := by
          have heq := items.leaves_eq (isGlobal && !front.isEmpty) front
          exact (congrArg (List.map _) heq).trans List.map_flatMap
        rw [hfound, hleaves, flatMap_eq_flatMap_iff]
        · exact forall₂_congr fun e he => UseEntry.found_eq_iff (hentries e he)
        · intro e he
          rw [List.length_map, UseEntry.found, UseEntry.leaf]
          split_ifs <;> simp_all
  · intro item hitem
    have hne : stripSpace expression ≠ [] := by
      intro hnil
      rw [hnil] at hitem
      cases hitem
    exact (length_le_of_mem_splitTopLevelList hitem).trans_lt
      ((length_betweenBraces_lt hne).trans_le (length_stripSpace_le expression))

/-- No white space. -/
def noBlanks : Blanks :=
  ⟨[], fun _ h => nomatch h⟩

/-- The crate `net`. -/
def netSegment : UseSegment :=
  ⟨"net".toList, by decide, isNameChar_of_all (by decide)⟩

/-- The name `ip`. -/
def ipSegment : UseSegment :=
  ⟨"ip".toList, by decide, isNameChar_of_all (by decide)⟩

/-- The keyword `self`. -/
def selfSegment : UseSegment :=
  ⟨"self".toList, by decide, isNameChar_of_all (by decide)⟩

/-- The group of a crate, with the crate renamed in it. -/
def renamedSelf : UseDecl :=
  ⟨false, .group [netSegment] (.one noBlanks (.path selfSegment [] (some ipSegment)) noBlanks)⟩

/-- `self` with a name is not found as the group with that name. -/
theorem renamed_self_not_resolved :
    renamedSelf.text = "net::\x7bself as ip\x7d".toList ∧
      renamedSelf.leafTexts = ["net as ip".toList] ∧
      flattenRustUseItems renamedSelf.text [] = ["net::self as ip".toList] := by
  refine ⟨by decide, by decide, ?_⟩
  rw [flattenRustUseItems_text]
  decide

end Uses

end RepoMap
end TensorGrep
