import Mathlib.Tactic

/-!
# Shell words

A POSIX shell lexer splits a text into words at white space, with single quotes,
double quotes and an escape character.  Symbols are abstract: the lexer knows of
a symbol only its kind.  So a text with holes can be split before the holes are
filled, and the main result says when filling first and splitting first agree.
-/

namespace TensorGrep
namespace Kernel

universe u v

/-- What a symbol is to the lexer. -/
inductive SymbolKind where
  | space
  | escape
  | single
  | double
  | plain
deriving DecidableEq

/-- Where the lexer is: between quotes or outside, or after an escape symbol. -/
inductive LexState (α : Type u) where
  | word
  | single
  | double
  | escape (symbol : α) (inDouble : Bool)
deriving DecidableEq

/-- Why a text has no words. -/
inductive ShellError where
  | noClosingQuotation
  | noEscapedCharacter
deriving DecidableEq

variable {α : Type u} {β : Type v}

/-- The state after a symbol. -/
def LexState.next (kind : α → SymbolKind) : LexState α → α → LexState α
  | .word, c =>
      match kind c with
      | .escape => .escape c false
      | .single => .single
      | .double => .double
      | _ => .word
  | .single, c => if kind c = .single then .word else .single
  | .double, c =>
      match kind c with
      | .double => .word
      | .escape => .escape c true
      | _ => .double
  | .escape _ inDouble, _ => if inDouble then .double else .word

/-- The symbols that a symbol adds to the word. -/
def LexState.adds (kind : α → SymbolKind) : LexState α → α → List α
  | .word, c => if kind c = .plain then [c] else []
  | .single, c => if kind c = .single then [] else [c]
  | .double, c => if kind c = .double ∨ kind c = .escape then [] else [c]
  | .escape symbol inDouble, c =>
      -- between double quotes only the quote and the escape symbol can be escaped
      if inDouble ∧ kind c ≠ .double ∧ kind c ≠ .escape then [symbol, c] else [c]

/-- Between quotes, every symbol marks the word as quoted. -/
def LexState.quotes : LexState α → Bool
  | .single => true
  | .double => true
  | _ => false

/-- The symbol ends the word. -/
def LexState.ends (kind : α → SymbolKind) : LexState α → α → Bool
  | .word, c => kind c = .space
  | _, _ => false

/-- Put the word before the others, unless it is empty and was not quoted. -/
def emitWord
    (token : List α)
    (quoted : Bool)
    (words : List (List α)) : List (List α) :=
  if token.isEmpty && !quoted then words else token :: words

/-- What is left at the end of the text. -/
def LexState.finish
    (token : List α)
    (quoted : Bool) : LexState α → Except ShellError (List (List α))
  | .word => .ok (emitWord token quoted [])
  | .escape _ _ => .error .noEscapedCharacter
  | _ => .error .noClosingQuotation

/-- `read_token` until the end of the text.  White space before a word is white space after an
empty word. -/
def shellWordsFrom
    (kind : α → SymbolKind) :
    LexState α → List α → Bool → List α → Except ShellError (List (List α))
  | st, token, quoted, [] => st.finish token quoted
  | st, token, quoted, c :: cs =>
      if st.ends kind c then
        (shellWordsFrom kind (st.next kind c) [] false cs).map (emitWord token quoted)
      else
        shellWordsFrom kind (st.next kind c) (token ++ st.adds kind c) (quoted || st.quotes) cs

/-- `shlex.split` in POSIX mode. -/
def shellWords
    (kind : α → SymbolKind)
    (text : List α) : Except ShellError (List (List α)) :=
  shellWordsFrom kind .word [] false text

/-! ## Filling holes -/

/-- A plain word goes into the current word, wherever the lexer is. -/
theorem shellWordsFrom_plain
    {kind : α → SymbolKind}
    {w : List α}
    (hw : ∀ c ∈ w, kind c = .plain)
    {st : LexState α}
    (hst : ∀ symbol inDouble, st ≠ .escape symbol inDouble)
    (token : List α)
    (quoted : Bool)
    (rest : List α) :
    shellWordsFrom kind st token quoted (w ++ rest) =
      shellWordsFrom kind st (token ++ w) (quoted || (!w.isEmpty && st.quotes)) rest := by
  induction w generalizing token quoted with
  | nil => simp
  | cons c w ih =>
      have hc := hw c List.mem_cons_self
      have hrest := fun t q => ih (fun d hd => hw d (List.mem_cons_of_mem _ hd)) t q
      rw [List.cons_append, shellWordsFrom]
      cases st with
      | word => simp [LexState.ends, LexState.next, LexState.adds, LexState.quotes, hc, hrest]
      | single =>
          simp [LexState.ends, LexState.next, LexState.adds, LexState.quotes, hc, hrest]
      | double =>
          simp [LexState.ends, LexState.next, LexState.adds, LexState.quotes, hc, hrest]
      | escape symbol inDouble => exact absurd rfl (hst symbol inDouble)

/-- A symbol that stands for itself, or is spelled by the plain symbols that it stands for. -/
inductive PlainHole
    (kindP : α → SymbolKind)
    (kind : β → SymbolKind)
    (fill spell : α → List β)
    (p : α) : Prop where
  | fixed
      (c : β)
      (hspell : spell p = [c])
      (hfill : fill p = [c])
      (hkind : kind c = kindP p)
  | word
      (hkindP : kindP p = .plain)
      (hspell : spell p = fill p)
      (hne : fill p ≠ [])
      (hplain : ∀ c ∈ fill p, kind c = .plain)

/-- A symbol whose spelling quotes what it stands for, when it is read outside quotes. -/
structure BlockHole
    (kindP : α → SymbolKind)
    (kind : β → SymbolKind)
    (fill spell : α → List β)
    (p : α) : Prop where
  kindP_eq : kindP p = .plain
  lexed : ∀ token quoted rest,
    shellWordsFrom kind .word token quoted (spell p ++ rest) =
      shellWordsFrom kind .word (token ++ fill p) true rest

/-- The blocks stand outside quotes and are not escaped. -/
def StandOutside
    (kindP : α → SymbolKind)
    (isBlock : α → Prop) : LexState α → List α → Prop
  | _, [] => True
  | st, p :: ps => (isBlock p → st = .word) ∧ StandOutside kindP isBlock (st.next kindP p) ps

instance decidableStandOutside
    [DecidableEq α]
    (kindP : α → SymbolKind)
    (isBlock : α → Prop)
    [DecidablePred isBlock] :
    ∀ (st : LexState α) (ps : List α), Decidable (StandOutside kindP isBlock st ps)
  | _, [] => isTrue trivial
  | st, p :: ps =>
      @instDecidableAnd _ _ _ (decidableStandOutside kindP isBlock (st.next kindP p) ps)

/-- Fewer blocks stand outside too. -/
theorem StandOutside.mono
    {kindP : α → SymbolKind}
    {isBlock isBlock' : α → Prop}
    (himp : ∀ p, isBlock' p → isBlock p)
    {st : LexState α}
    {ps : List α}
    (h : StandOutside kindP isBlock st ps) :
    StandOutside kindP isBlock' st ps := by
  induction ps generalizing st with
  | nil => trivial
  | cons p ps ih => exact ⟨fun hp => h.1 (himp p hp), ih h.2⟩

theorem standOutside_of_none
    {kindP : α → SymbolKind}
    {isBlock : α → Prop}
    (hnone : ∀ p, ¬ isBlock p)
    (st : LexState α)
    (ps : List α) :
    StandOutside kindP isBlock st ps := by
  induction ps generalizing st with
  | nil => trivial
  | cons p ps ih => exact ⟨fun hp => absurd hp (hnone p), ih _⟩

/-- The lexer is in the same state over the filled text. -/
inductive SameState
    (fill : α → List β) : LexState α → LexState β → Prop where
  | word : SameState fill .word .word
  | single : SameState fill .single .single
  | double : SameState fill .double .double
  | escape
      {symbol : α}
      {c : β}
      (hsymbol : fill symbol = [c])
      (inDouble : Bool) : SameState fill (.escape symbol inDouble) (.escape c inDouble)

section Filling

variable {kindP : α → SymbolKind} {kind : β → SymbolKind} {fill spell : α → List β}
  {st : LexState α} {st' : LexState β} {p : α}

theorem SameState.quotes_eq
    (h : SameState fill st st') :
    st'.quotes = st.quotes := by
  cases h <;> rfl

/-- A symbol that stands for itself leads to the same state. -/
theorem SameState.next
    (h : SameState fill st st')
    {c : β}
    (hfill : fill p = [c])
    (hkind : kind c = kindP p) :
    SameState fill (st.next kindP p) (st'.next kind c) := by
  cases h with
  | word =>
      rw [LexState.next, LexState.next, hkind]
      cases kindP p with
      | escape => exact .escape hfill false
      | _ => constructor
  | single =>
      rw [LexState.next, LexState.next, hkind]
      split_ifs <;> constructor
  | double =>
      rw [LexState.next, LexState.next, hkind]
      cases kindP p with
      | escape => exact .escape hfill true
      | _ => constructor
  | escape hsymbol inDouble =>
      cases inDouble <;> constructor

/-- A symbol that stands for itself adds the same. -/
theorem SameState.adds_eq
    (h : SameState fill st st')
    {c : β}
    (hfill : fill p = [c])
    (hkind : kind c = kindP p) :
    st'.adds kind c = (st.adds kindP p).flatMap fill := by
  cases h with
  | word =>
      rw [LexState.adds, LexState.adds, hkind]
      split_ifs <;> simp [hfill]
  | single =>
      rw [LexState.adds, LexState.adds, hkind]
      split_ifs <;> simp [hfill]
  | double =>
      rw [LexState.adds, LexState.adds, hkind]
      split_ifs <;> simp [hfill]
  | escape hsymbol inDouble =>
      rw [LexState.adds, LexState.adds, hkind]
      split_ifs <;> simp [hfill, hsymbol]

theorem SameState.ends_eq
    (h : SameState fill st st')
    {c : β}
    (hkind : kind c = kindP p) :
    st'.ends kind c = st.ends kindP p := by
  cases h <;> simp [LexState.ends, hkind]

/-- Both words are empty and unquoted, or neither is. -/
def SameEmptiness
    (fill : α → List β)
    (token : List α)
    (quoted quoted' : Bool) : Prop :=
  ((token.flatMap fill).isEmpty && !quoted') = (token.isEmpty && !quoted)

theorem emitWord_fill
    {token : List α}
    {quoted quoted' : Bool}
    (h : SameEmptiness fill token quoted quoted')
    (words : List (List α)) :
    emitWord (token.flatMap fill) quoted' (words.map (List.flatMap fill)) =
      (emitWord token quoted words).map (List.flatMap fill) := by
  rw [emitWord, emitWord, h]
  split_ifs <;> rfl

/-- Words with a symbol that is spelled by something are not empty. -/
theorem sameEmptiness_append
    {token added : List α}
    {a : α}
    (ha : a ∈ added)
    (hne : fill a ≠ [])
    (quoted quoted' : Bool) :
    SameEmptiness fill (token ++ added) quoted quoted' := by
  have hleft : ((token ++ added).flatMap fill).isEmpty = false := by
    rw [List.isEmpty_eq_false_iff, Ne, List.flatMap_eq_nil_iff]
    intro hall
    exact hne (hall a (List.mem_append_right _ ha))
  have hright : (token ++ added).isEmpty = false := by
    rw [List.isEmpty_eq_false_iff]
    exact List.ne_nil_of_mem (List.mem_append_right _ ha)
  rw [SameEmptiness, hleft, hright]
  rfl

/-- Being quoted in addition keeps the words alike. -/
theorem SameEmptiness.or
    {token : List α}
    {quoted quoted' : Bool}
    (h : SameEmptiness fill token quoted quoted')
    (b : Bool) :
    SameEmptiness fill token (quoted || b) (quoted' || b) := by
  rw [SameEmptiness] at h ⊢
  cases b with
  | false => rwa [Bool.or_false, Bool.or_false]
  | true => simp

/-- Outside an escape, a plain symbol is added and changes nothing else. -/
theorem next_of_plain
    (hst : ∀ symbol inDouble, st ≠ .escape symbol inDouble)
    (hp : kindP p = .plain) :
    st.next kindP p = st ∧ st.adds kindP p = [p] := by
  cases st with
  | escape symbol inDouble => exact absurd rfl (hst symbol inDouble)
  | _ => simp [LexState.next, LexState.adds, hp]

theorem SameState.open_or_escape
    (h : SameState fill st st') :
    ((∀ symbol inDouble, st ≠ .escape symbol inDouble) ∧
        ∀ symbol inDouble, st' ≠ .escape symbol inDouble) ∨
      ∃ symbol c inDouble, st = .escape symbol inDouble ∧ st' = .escape c inDouble ∧
        fill symbol = [c] := by
  cases h with
  | @escape symbol c hsymbol inDouble => exact Or.inr ⟨symbol, c, inDouble, rfl, rfl, hsymbol⟩
  | _ => exact Or.inl ⟨by simp, by simp⟩

/-- What a symbol that stands for itself adds keeps the words alike. -/
theorem SameEmptiness.adds
    {token : List α}
    {quoted quoted' : Bool}
    (h : SameEmptiness fill token quoted quoted')
    {c : β}
    (hfill : fill p = [c]) :
    SameEmptiness fill (token ++ st.adds kindP p) (quoted || st.quotes)
      (quoted' || st.quotes) := by
  cases hadds : st.adds kindP p with
  | nil =>
      rw [List.append_nil]
      exact h.or st.quotes
  | cons a added =>
      have hmem : p ∈ st.adds kindP p := by
        cases st with
        | word =>
            rw [LexState.adds] at hadds ⊢
            split_ifs at hadds ⊢ with hp
            exact List.mem_singleton.mpr rfl
        | single =>
            rw [LexState.adds] at hadds ⊢
            split_ifs at hadds ⊢ with hp
            exact List.mem_singleton.mpr rfl
        | double =>
            rw [LexState.adds] at hadds ⊢
            split_ifs at hadds ⊢ with hp
            exact List.mem_singleton.mpr rfl
        | escape symbol inDouble =>
            rw [LexState.adds]
            split_ifs <;> simp
      rw [← hadds]
      exact sameEmptiness_append hmem (by rw [hfill]; exact List.cons_ne_nil _ _) _ _

/-- One symbol that is not an end of a word. -/
theorem shellWordsFrom_cons_of_not_ends
    {c : β}
    (hends : st'.ends kind c = false)
    (token : List β)
    (quoted : Bool)
    (rest : List β) :
    shellWordsFrom kind st' token quoted (c :: rest) =
      shellWordsFrom kind (st'.next kind c) (token ++ st'.adds kind c)
        (quoted || st'.quotes) rest := by
  rw [shellWordsFrom, if_neg (by rw [hends]; decide)]

/-- A plain symbol does not end a word, and is added. -/
theorem ends_of_plain
    {c : β}
    (hc : kind c = .plain) :
    st'.ends kind c = false := by
  cases st' <;> simp [LexState.ends, hc]

/-- What a plain word does after an escape symbol. -/
theorem shellWordsFrom_escaped_plain
    {w : List β}
    (hne : w ≠ [])
    (hw : ∀ c ∈ w, kind c = .plain)
    (symbol : β)
    (inDouble : Bool)
    (token : List β)
    (quoted : Bool)
    (rest : List β) :
    ∃ quoted', shellWordsFrom kind (.escape symbol inDouble) token quoted (w ++ rest) =
      shellWordsFrom kind (if inDouble then .double else .word)
        (token ++ (if inDouble then symbol :: w else w)) quoted' rest := by
  obtain ⟨c, w, rfl⟩ := List.exists_cons_of_ne_nil hne
  have hc := hw c List.mem_cons_self
  have hw' : ∀ d ∈ w, kind d = .plain := fun d hd => hw d (List.mem_cons_of_mem _ hd)
  rw [List.cons_append, shellWordsFrom_cons_of_not_ends (ends_of_plain hc)]
  cases inDouble with
  | false =>
      have hnext : (LexState.escape symbol false).next kind c = .word := rfl
      have hadds : (LexState.escape symbol false).adds kind c = [c] := by
        simp [LexState.adds]
      rw [hnext, hadds, shellWordsFrom_plain hw' (by simp), List.append_assoc]
      exact ⟨_, rfl⟩
  | true =>
      have hnext : (LexState.escape symbol true).next kind c = .double := rfl
      have hadds : (LexState.escape symbol true).adds kind c = [symbol, c] := by
        simp [LexState.adds, hc]
      rw [hnext, hadds, shellWordsFrom_plain hw' (by simp), List.append_assoc]
      exact ⟨_, rfl⟩

/-- Splitting commutes with filling, when every block stands outside quotes. -/
theorem shellWordsFrom_fill
    {isBlock : α → Prop}
    {ps : List α}
    (hholes : ∀ p ∈ ps, PlainHole kindP kind fill spell p ∨
      isBlock p ∧ BlockHole kindP kind fill spell p)
    (houtside : StandOutside kindP isBlock st ps)
    (hst : SameState fill st st')
    {token : List α}
    {quoted quoted' : Bool}
    (hempty : SameEmptiness fill token quoted quoted') :
    shellWordsFrom kind st' (token.flatMap fill) quoted' (ps.flatMap spell) =
      (shellWordsFrom kindP st token quoted ps).map (List.map (List.flatMap fill)) := by
  induction ps generalizing st st' token quoted quoted' with
  | nil =>
      rw [List.flatMap_nil, shellWordsFrom, shellWordsFrom]
      cases hst with
      | word => simp only [LexState.finish, Except.map, ← emitWord_fill hempty, List.map_nil]
      | _ => rfl
  | cons p ps ih =>
      have hholes' : ∀ q ∈ ps, PlainHole kindP kind fill spell q ∨
          isBlock q ∧ BlockHole kindP kind fill spell q :=
        fun q hq => hholes q (List.mem_cons_of_mem _ hq)
      obtain ⟨hhere, hrest⟩ := houtside
      rw [List.flatMap_cons]
      rcases hholes p List.mem_cons_self with hplain | ⟨hisBlock, hblock⟩
      · cases hplain with
        | fixed c hspell hfill hkind =>
            rw [hspell, List.singleton_append, shellWordsFrom, shellWordsFrom,
              hst.ends_eq hkind]
            by_cases hends : st.ends kindP p
            · have hstep := @ih _ _ hholes' hrest (hst.next hfill hkind) [] false false rfl
              rw [List.flatMap_nil] at hstep
              rw [if_pos hends, if_pos hends, hstep]
              cases shellWordsFrom kindP (st.next kindP p) [] false ps with
              | ok words => exact congrArg Except.ok (emitWord_fill hempty words)
              | error e => rfl
            · rw [if_neg hends, if_neg hends, hst.adds_eq hfill hkind, hst.quotes_eq,
                ← List.flatMap_append]
              exact ih hholes' hrest (hst.next hfill hkind) (hempty.adds hfill)
        | word hkindP hspell hne hplain =>
            -- the hole is one plain symbol, its spelling a word of them
            have hadded : ∀ added q q', p ∈ added →
                SameEmptiness fill (token ++ added) q q' :=
              fun added q q' hp => sameEmptiness_append hp hne q q'
            rw [shellWordsFrom_cons_of_not_ends (ends_of_plain hkindP), hspell]
            rcases hst.open_or_escape with ⟨hopen, hopen'⟩ |
              ⟨symbol, c, inDouble, rfl, rfl, hsymbol⟩
            · obtain ⟨hnext, hadds⟩ := next_of_plain hopen hkindP
              have htoken : (token ++ [p]).flatMap fill = token.flatMap fill ++ fill p := by
                simp
              rw [hnext] at hrest
              rw [shellWordsFrom_plain hplain hopen', hnext, hadds, ← htoken]
              exact ih hholes' hrest hst (hadded [p] _ _ (by simp))
            · obtain ⟨q, hq⟩ := @shellWordsFrom_escaped_plain _ kind _ hne hplain c inDouble
                (token.flatMap fill) quoted' (ps.flatMap spell)
              cases inDouble with
              | false =>
                  have hadds : (LexState.escape symbol false).adds kindP p = [p] := by
                    simp [LexState.adds]
                  have htoken : (token ++ [p]).flatMap fill = token.flatMap fill ++ fill p := by
                    simp
                  rw [hq, hadds, ← ih hholes' hrest .word (hadded [p] _ q (by simp)), htoken]
                  rfl
              | true =>
                  have hadds : (LexState.escape symbol true).adds kindP p = [symbol, p] := by
                    simp [LexState.adds, hkindP]
                  have htoken : (token ++ [symbol, p]).flatMap fill =
                      token.flatMap fill ++ c :: fill p := by
                    simp [hsymbol]
                  rw [hq, hadds, ← ih hholes' hrest .double
                    (hadded [symbol, p] _ q (by simp)), htoken]
                  rfl
      · obtain rfl := hhere hisBlock
        cases hst
        obtain ⟨hnext, hadds⟩ := @next_of_plain _ kindP .word _ (by simp) hblock.kindP_eq
        have hsame : SameEmptiness fill (token ++ [p])
            (quoted || (LexState.word : LexState α).quotes) true := by
          simp [SameEmptiness]
        rw [hnext] at hrest
        rw [hblock.lexed, shellWordsFrom_cons_of_not_ends (ends_of_plain hblock.kindP_eq),
          hnext, hadds, ← ih hholes' hrest .word hsame]
        simp

end Filling

end Kernel
end TensorGrep
