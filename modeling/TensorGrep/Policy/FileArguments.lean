import TensorGrep.Policy.Templates

/-!
# File names in commands

A file path goes into a command as data: the command has the arguments of the
template, with the path for every placeholder.  That is so when the path needs
no quotes or every placeholder stands outside quotes, and when the replacements
make no new placeholder.
-/

namespace TensorGrep
namespace Policy

open Kernel

universe u

/-! ## Operators -/

section Operators

variable {α : Type u} {view : α → Option CodePoint}

/-- What the scan for operators knows of the state of the lexer. -/
def inSingle : LexState α → Bool
  | .single => true
  | _ => false

/-- What the scan for operators knows of the state of the lexer. -/
def inDouble : LexState α → Bool
  | .double => true
  | .escape _ d => d
  | _ => false

/-- What the scan for operators knows of the state of the lexer. -/
def escaped : LexState α → Bool
  | .escape _ _ => true
  | _ => false

/-- The scan for operators in a state of the lexer. -/
def operatorIn
    (view : α → Option CodePoint)
    (st : LexState α)
    (rest : List α) : Option CodePoints :=
  operatorFrom view (inSingle st) (inDouble st) (escaped st) rest

/-- The operator that begins at a symbol in a state. -/
def operatorHere
    (view : α → Option CodePoint)
    (st : LexState α)
    (c : α)
    (rest : List α) : Option CodePoints :=
  match st with
  | .word =>
      if shellKind view c = .plain ∨ shellKind view c = .space then operatorAt view c rest
      else none
  | _ => none

theorem chr_inj
    {c d : Char} :
    chr c = chr d ↔ c = d := by
  rw [eq_chr_iff, chr_val]
  exact ⟨fun h => Char.ext (UInt32.toNat_inj.mp h), fun h => congrArg Char.toNat h⟩

/-- The kinds of symbols as the scan for operators sees them. -/
theorem shellKind_cases
    (c : α) :
    (view c = some (chr '\\') ∧ shellKind view c = .escape) ∨
      (view c = some (chr '\'') ∧ shellKind view c = .single) ∨
      (view c = some (chr '"') ∧ shellKind view c = .double) ∨
      (view c ≠ some (chr '\\') ∧ view c ≠ some (chr '\'') ∧ view c ≠ some (chr '"') ∧
        (shellKind view c = .plain ∨ shellKind view c = .space)) := by
  rw [shellKind]
  cases hview : view c with
  | none => simp
  | some d =>
      dsimp only
      by_cases h1 : d = chr '\\'
      · rw [if_neg (by rw [h1]; decide), if_pos h1]
        exact Or.inl ⟨congrArg some h1, rfl⟩
      by_cases h2 : d = chr '\''
      · rw [if_neg (by rw [h2]; decide), if_neg h1, if_pos h2]
        exact Or.inr (Or.inl ⟨congrArg some h2, rfl⟩)
      by_cases h3 : d = chr '"'
      · rw [if_neg (by rw [h3]; decide), if_neg h1, if_neg h2, if_pos h3]
        exact Or.inr (Or.inr (Or.inl ⟨congrArg some h3, rfl⟩))
      refine Or.inr (Or.inr (Or.inr ⟨?_, ?_, ?_, ?_⟩))
      · exact fun h => h1 (Option.some.inj h)
      · exact fun h => h2 (Option.some.inj h)
      · exact fun h => h3 (Option.some.inj h)
      · rw [if_neg h1, if_neg h2, if_neg h3]
        split_ifs
        · exact Or.inr rfl
        · exact Or.inl rfl

/-- The scan for operators goes through the states of the lexer. -/
theorem operatorIn_cons
    (st : LexState α)
    (c : α)
    (rest : List α) :
    operatorIn view st (c :: rest) =
      (operatorHere view st c rest).or (operatorIn view (st.next (shellKind view) c) rest) := by
  cases st with
  | escape symbol d =>
      cases d <;> rfl
  | word =>
      rw [operatorIn, operatorIn, operatorHere]
      simp only [inSingle, inDouble, escaped, operatorFrom, LexState.next]
      rcases @shellKind_cases α view c with ⟨hv, hk⟩ | ⟨hv, hk⟩ | ⟨hv, hk⟩ | ⟨h1, h2, h3, hk⟩
      · simp [hv, hk]
      · simp [hv, hk, chr_inj]
      · simp [hv, hk, chr_inj]
      · rcases hk with hk | hk <;> simp [h1, h2, h3, hk]
  | single =>
      rw [operatorIn, operatorIn, operatorHere.eq_def]
      simp only [inSingle, inDouble, escaped, operatorFrom, LexState.next]
      rcases @shellKind_cases α view c with ⟨hv, hk⟩ | ⟨hv, hk⟩ | ⟨hv, hk⟩ | ⟨h1, h2, h3, hk⟩
      · simp [hv, hk, chr_inj]
      · simp [hv, hk]
      · simp [hv, hk, chr_inj]
      · rcases hk with hk | hk <;> simp [h1, h2, h3, hk]
  | double =>
      rw [operatorIn, operatorIn, operatorHere.eq_def]
      simp only [inSingle, inDouble, escaped, operatorFrom, LexState.next]
      rcases @shellKind_cases α view c with ⟨hv, hk⟩ | ⟨hv, hk⟩ | ⟨hv, hk⟩ | ⟨h1, h2, h3, hk⟩
      · simp [hv, hk]
      · simp [hv, hk, chr_inj]
      · simp [hv, hk, chr_inj]
      · rcases hk with hk | hk <;> simp [h1, h2, h3, hk]

end Operators

/-! ## Quiet words -/

/-- No operator begins at a quiet character. -/
theorem operatorHere_quiet
    {c : CodePoint}
    (hc : QuietCode c)
    (st : LexState CodePoint)
    (rest : CodePoints) :
    operatorHere some st c rest = none := by
  have hmem : ∀ d, d ∈ codePoints "|;&<>" → c ≠ d := fun d hd h => hc.notOperator (h ▸ hd)
  have hamp : c ≠ chr '&' := hmem _ (by decide)
  have hbar : c ≠ chr '|' := hmem _ (by decide)
  rw [operatorHere.eq_def]
  cases st with
  | word =>
      dsimp only
      rw [if_pos (Or.inl hc.plain), operatorAt]
      simp [hamp, hbar, hc.notOperator]
  | _ => rfl

/-- The state after a word that is not empty. -/
def LexState.afterWord : LexState CodePoint → LexState CodePoint
  | .escape _ d => if d then .double else .word
  | st => st

/-- Quiet words say nothing to the scan for operators. -/
theorem operatorIn_quiet
    {w : CodePoints}
    (hne : w ≠ [])
    (hw : ∀ c ∈ w, QuietCode c)
    (st : LexState CodePoint)
    (rest : CodePoints) :
    operatorIn some st (w ++ rest) = operatorIn some (LexState.afterWord st) rest := by
  have hopen : ∀ w : CodePoints, (∀ c ∈ w, QuietCode c) → ∀ st : LexState CodePoint,
      (∀ symbol d, st ≠ .escape symbol d) →
        operatorIn some st (w ++ rest) = operatorIn some st rest := by
    intro w hw st hst
    induction w with
    | nil => rfl
    | cons c w ih =>
        have hc := hw c List.mem_cons_self
        rw [List.cons_append, operatorIn_cons, operatorHere_quiet hc, Option.none_or,
          (next_of_plain hst hc.plain).1]
        exact ih fun d hd => hw d (List.mem_cons_of_mem _ hd)
  obtain ⟨c, w, rfl⟩ := List.exists_cons_of_ne_nil hne
  have hc := hw c List.mem_cons_self
  have hw' : ∀ d ∈ w, QuietCode d := fun d hd => hw d (List.mem_cons_of_mem _ hd)
  rw [List.cons_append, operatorIn_cons, operatorHere_quiet hc, Option.none_or]
  cases st with
  | escape symbol d =>
      refine hopen w hw' _ ?_
      cases d <;> simp [LexState.next]
  | word =>
      rw [(@next_of_plain _ (shellKind some) .word c (by simp) hc.plain).1]
      exact hopen w hw' .word (by simp)
  | single =>
      rw [(@next_of_plain _ (shellKind some) .single c (by simp) hc.plain).1]
      exact hopen w hw' .single (by simp)
  | double =>
      rw [(@next_of_plain _ (shellKind some) .double c (by simp) hc.plain).1]
      exact hopen w hw' .double (by simp)

/-! ## Quoted words -/

/-- A text between the single quotes of `shlex.quote`. -/
def quotedText (s : CodePoints) : CodePoints :=
  chr '\'' :: s.flatMap quotedCode ++ [chr '\'']

theorem length_le_quoted
    (s : CodePoints) :
    s.length ≤ (s.flatMap quotedCode).length := by
  induction s with
  | nil => rfl
  | cons c s ih =>
      have hone : 1 ≤ (quotedCode c).length := by
        rw [quotedCode]
        split_ifs
        · decide
        · exact le_refl 1
      rw [List.flatMap_cons, List.length_append, List.length_cons]
      omega

/-- A path is left alone, when it is not empty and has only quiet characters, or quoted. -/
theorem policyQuoteArg_cases
    (s : CodePoints) :
    (policyQuoteArg s = s ∧ s ≠ [] ∧ ∀ c ∈ s, QuietCode c) ∨
      (policyQuoteArg s = quotedText s ∧ policyQuoteArg s ≠ s) := by
  rw [policyQuoteArg]
  split_ifs with hempty hsafe
  · subst hempty
    exact Or.inr ⟨rfl, by decide⟩
  · exact Or.inl ⟨rfl, hempty, fun c hc => (quiet_of_safe (List.all_eq_true.mp hsafe c hc)).1⟩
  · refine Or.inr ⟨rfl, ?_⟩
    intro heq
    have hlen := congrArg List.length heq
    have hle := length_le_quoted s
    rw [List.cons_append, List.length_cons, List.length_append, List.length_singleton] at hlen
    omega

theorem shellKind_single :
    shellKind some (chr '\'') = .single := by
  decide

theorem shellKind_double :
    shellKind some (chr '"') = .double := by
  decide

theorem quotedCode_cases
    (c : CodePoint) :
    (c = chr '\'' ∧
        quotedCode c = [chr '\'', chr '"', chr '\'', chr '"', chr '\'']) ∨
      (c ≠ chr '\'' ∧ quotedCode c = [c]) := by
  by_cases hc : c = chr '\''
  · refine Or.inl ⟨hc, ?_⟩
    rw [quotedCode, if_pos hc]
    rfl
  · exact Or.inr ⟨hc, if_neg hc⟩

theorem shellKind_ne_single
    {c : CodePoint}
    (hc : c ≠ chr '\'') :
    shellKind some c ≠ .single := by
  rcases @shellKind_cases _ some c with ⟨-, hk⟩ | ⟨hv, -⟩ | ⟨-, hk⟩ | ⟨-, -, -, hk | hk⟩
  · rw [hk]
    decide
  · exact absurd (Option.some.inj hv) hc
  all_goals
    rw [hk]
    decide

/-- Between the quotes, the lexer reads the text itself. -/
theorem shellWordsFrom_quoted
    (s token : CodePoints)
    (quoted : Bool)
    (rest : CodePoints) :
    shellWordsFrom (shellKind some) .single token quoted
        (s.flatMap quotedCode ++ chr '\'' :: rest) =
      shellWordsFrom (shellKind some) .word (token ++ s) true rest := by
  induction s generalizing token quoted with
  | nil =>
      rw [List.flatMap_nil, List.nil_append, shellWordsFrom_cons_of_not_ends rfl]
      simp [LexState.next, LexState.adds, LexState.quotes, shellKind_single]
  | cons c s ih =>
      rw [List.flatMap_cons, List.append_assoc]
      rcases quotedCode_cases c with ⟨rfl, hcode⟩ | ⟨hc, hcode⟩
      · rw [hcode]
        -- a quote in the path: out of the quotes, a quoted quote, back between the quotes
        simp only [List.cons_append, List.nil_append]
        rw [shellWordsFrom_cons_of_not_ends rfl]
        simp only [LexState.next, LexState.adds, shellKind_single, if_true]
        rw [shellWordsFrom_cons_of_not_ends (by simp [LexState.ends, shellKind_double])]
        simp only [LexState.next, LexState.adds, shellKind_double]
        rw [shellWordsFrom_cons_of_not_ends rfl]
        simp only [LexState.next, LexState.adds, shellKind_single]
        rw [shellWordsFrom_cons_of_not_ends rfl]
        simp only [LexState.next, LexState.adds, shellKind_double]
        rw [shellWordsFrom_cons_of_not_ends (by simp [LexState.ends, shellKind_single])]
        simp only [LexState.next, LexState.adds, shellKind_single]
        simpa [LexState.quotes] using ih (token ++ [chr '\'']) true
      · have hk := shellKind_ne_single hc
        rw [hcode, List.singleton_append, shellWordsFrom_cons_of_not_ends rfl]
        simp only [LexState.next, LexState.adds, if_neg hk]
        rw [ih, List.append_assoc, List.singleton_append]

theorem operatorHere_of_not_word
    {st : LexState CodePoint}
    (hst : st ≠ .word)
    (c : CodePoint)
    (rest : CodePoints) :
    operatorHere some st c rest = none := by
  cases st with
  | word => exact absurd rfl hst
  | _ => rfl

theorem operatorHere_of_quote
    {c : CodePoint}
    (hc : shellKind some c = .single ∨ shellKind some c = .double)
    (rest : CodePoints) :
    operatorHere some .word c rest = none := by
  rw [operatorHere, if_neg]
  rcases hc with hc | hc <;> simp [hc]

/-- The scan for operators skips the text between the quotes. -/
theorem operatorIn_quoted
    (s rest : CodePoints) :
    operatorIn some .single (s.flatMap quotedCode ++ chr '\'' :: rest) =
      operatorIn some .word rest := by
  induction s with
  | nil =>
      rw [List.flatMap_nil, List.nil_append, operatorIn_cons,
        operatorHere_of_not_word (by simp), Option.none_or]
      simp only [LexState.next, shellKind_single, if_true]
  | cons c s ih =>
      rw [List.flatMap_cons, List.append_assoc]
      rcases quotedCode_cases c with ⟨rfl, hcode⟩ | ⟨hc, hcode⟩
      · rw [hcode]
        simp only [List.cons_append, List.nil_append]
        rw [operatorIn_cons, operatorHere_of_not_word (by simp), Option.none_or]
        simp only [LexState.next, shellKind_single, if_true]
        rw [operatorIn_cons, operatorHere_of_quote (Or.inr shellKind_double), Option.none_or]
        simp only [LexState.next, shellKind_double]
        rw [operatorIn_cons, operatorHere_of_not_word (by simp), Option.none_or]
        simp only [LexState.next, shellKind_single]
        rw [operatorIn_cons, operatorHere_of_not_word (by simp), Option.none_or]
        simp only [LexState.next, shellKind_double]
        rw [operatorIn_cons, operatorHere_of_quote (Or.inl shellKind_single), Option.none_or]
        simp only [LexState.next, shellKind_single]
        exact ih
      · rw [hcode, List.singleton_append, operatorIn_cons,
          operatorHere_of_not_word (by simp), Option.none_or]
        simp only [LexState.next, if_neg (shellKind_ne_single hc)]
        exact ih

/-! ## Filling the placeholders -/

/-- How the placeholders are filled and spelled: by quiet words, or, when they are blocks, by
quoted texts. -/
structure Spelling
    (isBlock : Piece → Prop)
    (fill spell : Piece → CodePoints) : Prop where
  lit_fill : ∀ c, fill (.lit c) = [c]
  lit_spell : ∀ c, spell (.lit c) = [c]
  file : ∀ dollar,
    (spell (.file dollar) = fill (.file dollar) ∧ fill (.file dollar) ≠ [] ∧
        ∀ c ∈ fill (.file dollar), QuietCode c) ∨
      isBlock (.file dollar) ∧ spell (.file dollar) = quotedText (fill (.file dollar))

section Filling

variable {isBlock : Piece → Prop} {fill spell : Piece → CodePoints}

/-- The pieces are holes of the lexer. -/
theorem Spelling.holes
    (h : Spelling isBlock fill spell)
    (p : Piece) :
    PlainHole (shellKind Piece.view) (shellKind some) fill spell p ∨
      isBlock p ∧ BlockHole (shellKind Piece.view) (shellKind some) fill spell p := by
  cases p with
  | lit c => exact Or.inl (.fixed c (h.lit_spell c) (h.lit_fill c) rfl)
  | file dollar =>
      rcases h.file dollar with ⟨hspell, hne, hquiet⟩ | ⟨hblock, hspell⟩
      · exact Or.inl (.word rfl hspell hne fun c hc => (hquiet c hc).plain)
      · refine Or.inr ⟨hblock, rfl, ?_⟩
        intro token quoted rest
        rw [hspell, quotedText, List.cons_append, List.cons_append, List.append_assoc,
          shellWordsFrom_cons_of_not_ends (by simp [LexState.ends, shellKind_single])]
        simp only [LexState.next, LexState.adds, shellKind_single]
        rw [List.singleton_append, shellWordsFrom_quoted]
        simp

/-- The first character of a spelled text is that of its first piece, or no operator. -/
theorem Spelling.operatorAt_eq
    (h : Spelling isBlock fill spell)
    (c : CodePoint)
    (ps : List Piece) :
    operatorAt some c (ps.flatMap spell) = operatorAt Piece.view (.lit c) ps := by
  have hhead : ∀ d, d ∈ codePoints "|;&<>" →
      ((ps.flatMap spell).head?.bind some = some d ↔ ps.head?.bind Piece.view = some d) := by
    intro d hd
    cases ps with
    | nil => simp
    | cons p ps =>
        cases p with
        | lit e => simp [h.lit_spell, Piece.view]
        | file dollar =>
            refine iff_of_false ?_ (by simp [Piece.view])
            rw [List.flatMap_cons]
            rcases h.file dollar with ⟨hspell, hne, hquiet⟩ | ⟨-, hspell⟩
            · obtain ⟨e, w, hw⟩ := List.exists_cons_of_ne_nil hne
              rw [hspell, hw]
              intro heq
              have hed : e = d := Option.some.inj heq
              have hin : e ∈ fill (.file dollar) := hw ▸ List.mem_cons_self
              exact (hquiet e hin).notOperator (hed ▸ hd)
            · rw [hspell, quotedText]
              intro heq
              have hed : chr '\'' = d := Option.some.inj heq
              rw [← hed] at hd
              revert hd
              decide
  rw [operatorAt, operatorAt]
  refine if_congr (and_congr_right fun _ => hhead _ (by decide)) rfl ?_
  exact if_congr (and_congr_right fun _ => hhead _ (by decide)) rfl rfl

/-- The scan for operators finds in a filled text what it finds in the template. -/
theorem Spelling.operatorIn_eq
    (h : Spelling isBlock fill spell)
    {ps : List Piece}
    {st : LexState Piece}
    {st' : LexState CodePoint}
    (houtside : StandOutside (shellKind Piece.view) isBlock st ps)
    (hst : SameState fill st st') :
    operatorIn some st' (ps.flatMap spell) = operatorIn Piece.view st ps := by
  induction ps generalizing st st' with
  | nil => cases hst <;> rfl
  | cons p ps ih =>
      obtain ⟨hhere, hrest⟩ := houtside
      rw [List.flatMap_cons, operatorIn_cons st]
      cases p with
      | lit c =>
          have hkind : shellKind some c = shellKind Piece.view (.lit c) := rfl
          have hoperator : operatorHere some st' c (ps.flatMap spell) =
              operatorHere Piece.view st (.lit c) ps := by
            cases hst with
            | word =>
                rw [operatorHere, operatorHere, hkind, h.operatorAt_eq]
            | _ => rfl
          rw [h.lit_spell, List.singleton_append, operatorIn_cons, hoperator,
            ih hrest (hst.next (h.lit_fill c) hkind)]
      | file dollar =>
          have hnone : operatorHere Piece.view st (.file dollar) ps = none := by
            cases st with
            | word =>
                rw [operatorHere, operatorAt]
                simp [Piece.view]
            | _ => rfl
          rw [hnone, Option.none_or]
          have hplain : shellKind Piece.view (.file dollar) = .plain := rfl
          rcases h.file dollar with ⟨hspell, hne, hquiet⟩ | ⟨hblock, hspell⟩
          · rw [hspell, operatorIn_quiet hne hquiet]
            refine ih hrest ?_
            rcases hst.open_or_escape with ⟨hopen, hopen'⟩ | ⟨symbol, c, d, rfl, rfl, -⟩
            · rw [(next_of_plain hopen hplain).1]
              cases hst with
              | escape hsymbol d => exact absurd rfl (hopen _ d)
              | word => exact .word
              | single => exact .single
              | double => exact .double
            · cases d
              · exact .word
              · exact .double
          · obtain rfl := hhere hblock
            cases hst
            rw [(next_of_plain (by simp) hplain).1] at hrest ⊢
            rw [hspell, quotedText, List.cons_append, List.cons_append, List.append_assoc,
              operatorIn_cons, operatorHere_of_quote (Or.inl shellKind_single), Option.none_or]
            simp only [LexState.next, shellKind_single]
            rw [List.singleton_append, operatorIn_quoted]
            exact ih hrest .word

/-- White space goes from the front of a text as it goes from the front of what is spelled. -/
theorem dropWhile_flatMap
    {α β : Type u}
    {q : α → Bool}
    {r : β → Bool}
    {g : α → List β}
    {ps : List α}
    (h : ∀ p ∈ ps, (∃ c, g p = [c] ∧ r c = q p) ∨
      q p = false ∧ ∃ c w, g p = c :: w ∧ r c = false) :
    (ps.flatMap g).dropWhile r = (ps.dropWhile q).flatMap g := by
  induction ps with
  | nil => rfl
  | cons p ps ih =>
      have ih := ih fun e he => h e (List.mem_cons_of_mem _ he)
      rcases h p List.mem_cons_self with ⟨c, hspell, hspace⟩ | ⟨hspace, c, w, hspell, hc⟩
      · rw [List.flatMap_cons, hspell, List.singleton_append, List.dropWhile_cons,
          List.dropWhile_cons, hspace, ih]
        split_ifs
        · rfl
        · rw [List.flatMap_cons, hspell, List.singleton_append]
      · rw [List.flatMap_cons, hspell, List.cons_append, List.dropWhile_cons,
          List.dropWhile_cons, hspace, hc, if_neg (by decide), if_neg (by decide),
          List.flatMap_cons, hspell, List.cons_append]

/-- A placeholder is spelled without white space at its ends. -/
theorem Spelling.ends_of_file
    (h : Spelling isBlock fill spell)
    (dollar : Bool) :
    (∃ c w, spell (.file dollar) = c :: w ∧ isSpaceSymbol some c = false) ∧
      ∃ c w, (spell (.file dollar)).reverse = c :: w ∧ isSpaceSymbol some c = false := by
  rcases h.file dollar with ⟨hspell, hne, hquiet⟩ | ⟨-, hspell⟩
  · obtain ⟨c, w, hw⟩ := List.exists_cons_of_ne_nil hne
    obtain ⟨d, v, hv⟩ := List.exists_cons_of_ne_nil (List.reverse_ne_nil_iff.mpr hne)
    have hc : c ∈ fill (.file dollar) := hw ▸ List.mem_cons_self
    have hd : d ∈ fill (.file dollar) := List.mem_reverse.mp (hv ▸ List.mem_cons_self)
    rw [hspell]
    exact ⟨⟨c, w, hw, (hquiet c hc).notSpace⟩, ⟨d, v, hv, (hquiet d hd).notSpace⟩⟩
  · have hquote : isSpaceSymbol some (chr '\'') = false := by decide
    rw [hspell, quotedText]
    refine ⟨⟨_, _, rfl, hquote⟩, ⟨chr '\'', ?_⟩⟩
    rw [List.reverse_append, List.reverse_singleton, List.singleton_append]
    exact ⟨_, rfl, hquote⟩

/-- Stripping a filled text strips the template. -/
theorem Spelling.strip_eq
    (h : Spelling isBlock fill spell)
    (ps : List Piece) :
    stripSymbols some (ps.flatMap spell) = (stripSymbols Piece.view ps).flatMap spell := by
  have hfront : ∀ p : Piece,
      (∃ c, spell p = [c] ∧ isSpaceSymbol some c = isSpaceSymbol Piece.view p) ∨
        isSpaceSymbol Piece.view p = false ∧
          ∃ c w, spell p = c :: w ∧ isSpaceSymbol some c = false := by
    intro p
    cases p with
    | lit c => exact Or.inl ⟨c, h.lit_spell c, rfl⟩
    | file dollar => exact Or.inr ⟨rfl, (h.ends_of_file dollar).1⟩
  have hback : ∀ p : Piece,
      (∃ c, (List.reverse ∘ spell) p = [c] ∧
          isSpaceSymbol some c = isSpaceSymbol Piece.view p) ∨
        isSpaceSymbol Piece.view p = false ∧
          ∃ c w, (List.reverse ∘ spell) p = c :: w ∧ isSpaceSymbol some c = false := by
    intro p
    cases p with
    | lit c =>
        refine Or.inl ⟨c, ?_, rfl⟩
        rw [Function.comp_apply, h.lit_spell, List.reverse_singleton]
    | file dollar => exact Or.inr ⟨rfl, (h.ends_of_file dollar).2⟩
  have hspell : List.reverse ∘ List.reverse ∘ spell = spell := by
    funext p
    simp
  rw [stripSymbols, stripSymbols, dropWhile_flatMap fun p _ => hfront p, List.reverse_flatMap,
    dropWhile_flatMap fun p _ => hback p, List.reverse_flatMap, hspell]

/-- Parsing commutes with filling. -/
theorem Spelling.parse_eq
    (h : Spelling isBlock fill spell)
    {ps : List Piece}
    (houtside : StandOutside (shellKind Piece.view) isBlock .word
      (stripSymbols Piece.view ps)) :
    parsePolicyCommand some (ps.flatMap spell) =
      (parsePolicyCommand Piece.view ps).map (List.map (List.flatMap fill)) := by
  have hempty : ((stripSymbols Piece.view ps).flatMap spell).isEmpty =
      (stripSymbols Piece.view ps).isEmpty := by
    cases stripSymbols Piece.view ps with
    | nil => rfl
    | cons p rest =>
        rw [List.flatMap_cons]
        cases p with
        | lit c => simp [h.lit_spell]
        | file dollar =>
            obtain ⟨⟨c, w, hw, -⟩, -⟩ := h.ends_of_file dollar
            simp [hw]
  have hoperator := h.operatorIn_eq houtside .word
  have hwords := @shellWordsFrom_fill _ _ (shellKind Piece.view) (shellKind some) fill spell
    .word .word isBlock _ (fun p _ => h.holes p) houtside .word [] false false rfl
  simp only [parsePolicyCommand, h.strip_eq, hempty]
  split_ifs with hnil
  · rfl
  · have hscan : unquotedShellOperator some ((stripSymbols Piece.view ps).flatMap spell) =
        unquotedShellOperator Piece.view (stripSymbols Piece.view ps) := hoperator
    rw [hscan]
    cases unquotedShellOperator Piece.view (stripSymbols Piece.view ps) with
    | some operator => rfl
    | none =>
        rw [List.flatMap_nil] at hwords
        rw [shellWords, shellWords, hwords]
        cases shellWordsFrom (shellKind Piece.view) .word [] false
            (stripSymbols Piece.view ps) <;> rfl

end Filling

/-! ## The arguments of a command -/

/-- The arguments of a template, with its placeholders. -/
def templateArguments (template : CodePoints) : Except CommandError (List (List Piece)) :=
  parsePolicyCommand Piece.view (templatePieces template)

/-- Every placeholder stands outside quotes and is not escaped. -/
def PlaceholdersOutside (template : CodePoints) : Prop :=
  StandOutside (shellKind Piece.view) (fun p => p.view = none) .word
    (stripSymbols Piece.view (templatePieces template))

/-- The path goes into the command as one text: it needs no quotes, or no placeholder stands
between quotes, and no new placeholder is made. -/
def InsertedWhole (template fileArg : CodePoints) : Prop :=
  (policyQuoteArg fileArg = fileArg ∨ PlaceholdersOutside template) ∧
    NoNewPlaceholder template fileArg

instance (template : CodePoints) : Decidable (PlaceholdersOutside template) :=
  decidableStandOutside _ _ _ _

instance (template fileArg : CodePoints) : Decidable (InsertedWhole template fileArg) :=
  inferInstanceAs (Decidable (_ ∧ _))

/-- The quoted path is a spelling of the path. -/
theorem spelling_fill
    (fileArg : CodePoints) :
    Spelling (fun p => policyQuoteArg fileArg ≠ fileArg ∧ p.view = none)
      (Piece.fill fileArg) (Piece.fill (policyQuoteArg fileArg)) where
  lit_fill := fun _ => rfl
  lit_spell := fun _ => rfl
  file := fun dollar => by
    rcases policyQuoteArg_cases fileArg with ⟨hsame, hne, hquiet⟩ | ⟨hquoted, hne⟩
    · exact Or.inl ⟨congrArg (Piece.fill · (.file dollar)) hsame, hne, hquiet⟩
    · exact Or.inr ⟨⟨hne, rfl⟩, hquoted⟩

/-- The command has the arguments of the template, with the path for every placeholder. -/
theorem parsePolicyCommand_expand
    {template fileArg : CodePoints}
    (h : InsertedWhole template fileArg) :
    parsePolicyCommand some (expandPolicyCommand template fileArg) =
      (templateArguments template).map (List.map (List.flatMap (Piece.fill fileArg))) := by
  rw [expandPolicyCommand_eq h.2]
  refine (spelling_fill fileArg).parse_eq ?_
  rcases h.1 with hsame | houtside
  · exact standOutside_of_none (fun p hp => hp.1 hsame) _ _
  · exact houtside.mono fun p hp => hp.2

/-- The commands built for two paths are refused, or have the arguments of the template with
the paths for the placeholders, as many for both paths and the same program. -/
def ArgumentsStayData
    (template fileArg command fileArg' command' : CodePoints) : Prop :=
  ∀ args, parsePolicyCommand some command = .ok args →
    (∃ marked, templateArguments template = .ok marked ∧
      args = marked.map (List.flatMap (Piece.fill fileArg))) ∧
    ∀ args', parsePolicyCommand some command' = .ok args' →
      (∃ marked, templateArguments template = .ok marked ∧
        args' = marked.map (List.flatMap (Piece.fill fileArg'))) ∧
      args.length = args'.length ∧ args.head? = args'.head?

/-- No placeholder is in argument 0. -/
def ProgramFixed (template : CodePoints) : Prop :=
  ∀ first rest, templateArguments template = .ok (first :: rest) →
    ∀ dollar, Piece.file dollar ∉ first

/-- The length of a filled argument. -/
theorem length_fill
    (ps : List Piece) :
    ∃ n k, (∀ fileArg, (ps.flatMap (Piece.fill fileArg)).length = n + k * fileArg.length) ∧
      ∀ dollar, Piece.file dollar ∈ ps → 0 < k := by
  induction ps with
  | nil => exact ⟨0, 0, by simp, by simp⟩
  | cons p ps ih =>
      obtain ⟨n, k, hlen, hpos⟩ := ih
      cases p with
      | lit c =>
          refine ⟨n + 1, k, ?_, ?_⟩
          · intro fileArg
            rw [List.flatMap_cons, List.length_append, hlen]
            simp only [Piece.fill, Piece.textWith, List.length_singleton]
            omega
          · intro dollar hmem
            exact hpos dollar (by simpa using hmem)
      | file d =>
          refine ⟨n, k + 1, ?_, fun _ _ => Nat.succ_pos k⟩
          intro fileArg
          rw [List.flatMap_cons, List.length_append, hlen]
          simp only [Piece.fill, Piece.textWith]
          ring

/-- An argument with a placeholder tells the paths apart. -/
theorem eq_of_fill_eq
    {ps : List Piece}
    {dollar : Bool}
    (hmem : Piece.file dollar ∈ ps)
    {fileArg fileArg' : CodePoints}
    (h : ps.flatMap (Piece.fill fileArg) = ps.flatMap (Piece.fill fileArg')) :
    fileArg = fileArg' := by
  have hlen : fileArg.length = fileArg'.length := by
    obtain ⟨n, k, hlen, hpos⟩ := length_fill ps
    have heq := congrArg List.length h
    rw [hlen, hlen] at heq
    exact Nat.eq_of_mul_eq_mul_left (hpos dollar hmem) (Nat.add_left_cancel heq)
  induction ps with
  | nil => simp at hmem
  | cons p ps ih =>
      rw [List.flatMap_cons, List.flatMap_cons] at h
      cases p with
      | lit c =>
          refine ih (by simpa using hmem) ?_
          exact List.append_cancel_left h
      | file d => exact (List.append_inj h hlen).1

theorem fill_eq_of_not_mem
    {ps : List Piece}
    (h : ∀ dollar, Piece.file dollar ∉ ps)
    (fileArg fileArg' : CodePoints) :
    ps.flatMap (Piece.fill fileArg) = ps.flatMap (Piece.fill fileArg') := by
  refine List.flatMap_congr fun p hp => ?_
  cases p with
  | lit c => rfl
  | file dollar => exact absurd hp (h dollar)

/-- Where the paths go in whole, they stay data exactly when none of them names the program. -/
theorem argumentsStayData_expand_iff
    {template fileArg fileArg' : CodePoints}
    (h : InsertedWhole template fileArg)
    (h' : InsertedWhole template fileArg') :
    ArgumentsStayData template fileArg (expandPolicyCommand template fileArg) fileArg'
        (expandPolicyCommand template fileArg') ↔
      fileArg = fileArg' ∨ ProgramFixed template := by
  rw [ArgumentsStayData, parsePolicyCommand_expand h, parsePolicyCommand_expand h',
    ProgramFixed]
  cases hmarked : templateArguments template with
  | error e =>
      refine iff_of_true (fun args hargs => ?_) (Or.inr fun first rest heq => ?_)
      · simp [Except.map] at hargs
      · simp at heq
  | ok marked =>
      simp only [Except.map, Except.ok.injEq, forall_eq', exists_eq_left', true_and]
      rw [List.length_map, List.length_map, List.head?_map, List.head?_map]
      simp only [true_and]
      cases marked with
      | nil => simp
      | cons first rest =>
          simp only [List.head?_cons, Option.map_some, Option.some.injEq, List.cons.injEq]
          constructor
          · intro heq
            by_cases hsame : fileArg = fileArg'
            · exact Or.inl hsame
            · refine Or.inr ?_
              rintro _ _ ⟨rfl, rfl⟩ dollar hmem
              exact hsame (eq_of_fill_eq hmem heq)
          · rintro (rfl | hfixed)
            · rfl
            · exact fill_eq_of_not_mem (hfixed first rest ⟨rfl, rfl⟩) _ _

/-- The commands with a file argument are expansions of the template. -/
theorem expand_of_mem_instances
    {host : PathHost}
    {name template targetPath fileArg command : CodePoints}
    {payload : List (CodePoints × Json)}
    {instances : List (Option CodePoints × CodePoints)}
    (hinstances : policyCommandInstances host name template payload targetPath = .ok instances)
    (hmem : (some fileArg, command) ∈ instances) :
    command = expandPolicyCommand template fileArg := by
  rw [policyCommandInstances] at hinstances
  split_ifs at hinstances with hplaceholder
  · obtain rfl := Except.ok.inj hinstances
    simp at hmem
  · dsimp only at hinstances
    split_ifs at hinstances
    obtain rfl := Except.ok.inj hinstances
    obtain ⟨file, -, heq⟩ := List.mem_map.mp hmem
    simp only [Prod.mk.injEq, Option.some.injEq] at heq
    obtain ⟨rfl, rfl⟩ := heq
    rfl

/-- In the commands built for two edited files, the paths stay data exactly when they are the
same or none of them names the program, provided they go in whole. -/
theorem fileArguments_stay_data_iff
    {host host' : PathHost}
    {name template targetPath targetPath' fileArg command fileArg' command' : CodePoints}
    {payload payload' : List (CodePoints × Json)}
    {instances instances' : List (Option CodePoints × CodePoints)}
    (hinstances : policyCommandInstances host name template payload targetPath = .ok instances)
    (hmem : (some fileArg, command) ∈ instances)
    (hinstances' :
      policyCommandInstances host' name template payload' targetPath' = .ok instances')
    (hmem' : (some fileArg', command') ∈ instances')
    (hwhole : InsertedWhole template fileArg)
    (hwhole' : InsertedWhole template fileArg') :
    ArgumentsStayData template fileArg command fileArg' command' ↔
      fileArg = fileArg' ∨ ProgramFixed template := by
  obtain rfl := expand_of_mem_instances hinstances hmem
  obtain rfl := expand_of_mem_instances hinstances' hmem'
  exact argumentsStayData_expand_iff hwhole hwhole'

/-- Paths below the working root, as they are written. -/
def plainHost : PathHost where
  resolve := some
  relative := some
  isFileBelow := fun _ => true

/-- A payload with one edited file. -/
def oneEdit (path : String) : List (CodePoints × Json) :=
  [(codePoints "edits", .array [.object [(codePoints "file", .string (codePoints path))]])]

theorem fileArguments_stay_data_spaces :
    ArgumentsStayData (codePoints "ruff \x7bfile\x7d") (codePoints "my file;\x7bfile\x7d.py")
      (codePoints "ruff 'my file;\x7bfile\x7d.py'") (codePoints "./-x.py")
      (codePoints "ruff ./-x.py") := by
  have hfixed : ProgramFixed (codePoints "ruff \x7bfile\x7d") := by
    have hmarked : templateArguments (codePoints "ruff \x7bfile\x7d") =
        .ok [(codePoints "ruff").map Piece.lit, [.file false]] := by
      decide
    intro first rest heq
    rw [hmarked] at heq
    obtain ⟨rfl, -⟩ := List.cons.inj (Except.ok.inj heq)
    simp
  exact (@fileArguments_stay_data_iff plainHost plainHost (codePoints "lint") _ [] [] _ _ _ _
    (oneEdit "my file;\x7bfile\x7d.py") (oneEdit "-x.py") _ _ rfl (by decide) rfl
    (by decide) (by decide) (by decide)).mpr (Or.inr hfixed)

/-- The quotes of the template keep those of the path in the argument. -/
theorem quotedPlaceholder_not_data :
    ¬ ∀ (template fileArg command : CodePoints)
        (instances : List (Option CodePoints × CodePoints)),
      policyCommandInstances plainHost (codePoints "lint") template (oneEdit "my file.py") [] =
          .ok instances →
        (some fileArg, command) ∈ instances →
          ArgumentsStayData template fileArg command fileArg command := by
  intro h
  have hcommand := h (codePoints "ruff \"$file\"") (codePoints "my file.py")
    (codePoints "ruff \"'my file.py'\"") _ rfl (by decide)
  obtain ⟨⟨marked, hmarked, hargs⟩, -⟩ :=
    hcommand [codePoints "ruff", codePoints "'my file.py'"] (by decide)
  have htemplate : templateArguments (codePoints "ruff \"$file\"") =
      .ok [(codePoints "ruff").map Piece.lit, [.file true]] := by
    decide
  rw [htemplate] at hmarked
  obtain rfl := Except.ok.inj hmarked
  revert hargs
  decide

end Policy
end TensorGrep
