import TensorGrep.Policy.Commands

/-!
# Templates with marked placeholders

A template is a row of pieces: characters and placeholders.  Here are the pieces
of a template, and when the two replacements of the code replace exactly the
placeholders: not when the first one makes a new placeholder for the second.
-/

namespace TensorGrep
namespace Policy

open Kernel

/-! ## Pieces -/

/-- A character of a template, or a placeholder: `$file` when `dollar`, else the one in
braces. -/
inductive Piece where
  | lit (c : CodePoint)
  | file (dollar : Bool)
deriving DecidableEq

/-- The text of a placeholder. -/
def placeholder (dollar : Bool) : CodePoints :=
  if dollar then codePoints "$file" else codePoints "\x7bfile\x7d"

/-- A placeholder is a symbol without a character. -/
def Piece.view : Piece → Option CodePoint
  | .lit c => some c
  | .file _ => none

/-- The text with a value for each placeholder. -/
def Piece.textWith (value : Bool → CodePoints) : Piece → CodePoints
  | .lit c => [c]
  | .file dollar => value dollar

/-- The text of a template. -/
def Piece.text : Piece → CodePoints :=
  Piece.textWith placeholder

/-- The text with a file for every placeholder. -/
def Piece.fill (fileArg : CodePoints) : Piece → CodePoints :=
  Piece.textWith fun _ => fileArg

/-- The pieces from a position on; so many characters still belong to the last placeholder. -/
def piecesFrom : Nat → CodePoints → List Piece
  | _, [] => []
  | n + 1, _ :: s => piecesFrom n s
  | 0, c :: s =>
      if placeholder true <+: c :: s then
        .file true :: piecesFrom ((placeholder true).length - 1) s
      else if placeholder false <+: c :: s then
        .file false :: piecesFrom ((placeholder false).length - 1) s
      else .lit c :: piecesFrom 0 s

/-- The pieces of a template. -/
def templatePieces (template : CodePoints) : List Piece :=
  piecesFrom 0 template

theorem placeholder_ne_nil
    (dollar : Bool) :
    placeholder dollar ≠ [] := by
  cases dollar <;> decide

/-- What follows a placeholder. -/
theorem drop_of_placeholder
    {dollar : Bool}
    {c : CodePoint}
    {s : CodePoints}
    (h : placeholder dollar <+: c :: s) :
    placeholder dollar ++ s.drop ((placeholder dollar).length - 1) = c :: s := by
  obtain ⟨rest, hrest⟩ := h
  obtain ⟨d, w, hw⟩ := List.exists_cons_of_ne_nil (placeholder_ne_nil dollar)
  rw [hw, List.cons_append, List.cons_eq_cons] at hrest
  obtain ⟨rfl, rfl⟩ := hrest
  rw [hw, List.length_cons, Nat.add_sub_cancel, List.drop_left, List.cons_append]

/-- The pieces spell the template. -/
theorem piecesFrom_text
    (n : Nat)
    (s : CodePoints) :
    (piecesFrom n s).flatMap Piece.text = s.drop n := by
  induction s generalizing n with
  | nil => simp [piecesFrom]
  | cons c s ih =>
      cases n with
      | succ n => rw [piecesFrom, ih, List.drop_succ_cons]
      | zero =>
          rw [piecesFrom, List.drop_zero]
          split_ifs with hdollar hbrace
          · rw [List.flatMap_cons, ih]
            exact drop_of_placeholder hdollar
          · rw [List.flatMap_cons, ih]
            exact drop_of_placeholder hbrace
          · rw [List.flatMap_cons, ih]
            rfl

/-- No placeholder begins at a character. -/
def WellMarked : List Piece → Prop
  | [] => True
  | .lit c :: ps =>
      (∀ dollar, ¬ placeholder dollar <+: c :: ps.flatMap Piece.text) ∧ WellMarked ps
  | .file _ :: ps => WellMarked ps

theorem wellMarked_piecesFrom
    (n : Nat)
    (s : CodePoints) :
    WellMarked (piecesFrom n s) := by
  induction s generalizing n with
  | nil => simp [piecesFrom, WellMarked]
  | cons c s ih =>
      cases n with
      | succ n => exact ih n
      | zero =>
          rw [piecesFrom]
          split_ifs with hdollar hbrace
          · exact ih _
          · exact ih _
          · refine ⟨?_, ih 0⟩
            rw [piecesFrom_text, List.drop_zero]
            intro dollar
            cases dollar with
            | true => exact hdollar
            | false => exact hbrace

/-! ## The two replacements -/

/-- The value of each placeholder after the first replacement. -/
def afterDollar (quotedFile : CodePoints) (dollar : Bool) : CodePoints :=
  if dollar then quotedFile else placeholder false

/-- After the first replacement, no character of the template begins a placeholder in braces. -/
def BracesStay (quotedFile : CodePoints) : List Piece → Prop
  | [] => True
  | .lit c :: ps =>
      ¬ placeholder false <+: c :: ps.flatMap (Piece.textWith (afterDollar quotedFile)) ∧
        BracesStay quotedFile ps
  | .file _ :: ps => BracesStay quotedFile ps

instance decidableBracesStay
    (quotedFile : CodePoints) :
    ∀ ps : List Piece, Decidable (BracesStay quotedFile ps)
  | [] => isTrue trivial
  | .lit _ :: ps => @instDecidableAnd _ _ _ (decidableBracesStay quotedFile ps)
  | .file _ :: ps => decidableBracesStay quotedFile ps

/-- Replacing `$file` makes no placeholder in braces, neither within the path nor around it. -/
def NoNewPlaceholder (template fileArg : CodePoints) : Prop :=
  (Piece.file true ∈ templatePieces template → ¬ placeholder false <:+: fileArg) ∧
    BracesStay (policyQuoteArg fileArg) (templatePieces template)

instance (template fileArg : CodePoints) : Decidable (NoNewPlaceholder template fileArg) :=
  inferInstanceAs (Decidable (_ ∧ _))

/-- The first replacement. -/
theorem replaceAll_dollar
    {ps : List Piece}
    (hmarked : WellMarked ps)
    (quotedFile : CodePoints) :
    ReplacedBlockwise (placeholder true) quotedFile Piece.text
      (Piece.textWith (afterDollar quotedFile)) ps := by
  induction ps with
  | nil => trivial
  | cons p ps ih =>
      cases p with
      | lit c =>
          refine ⟨Or.inr ⟨rfl, ?_⟩, ih hmarked.2⟩
          intro i hi
          obtain rfl : i = 0 := Nat.lt_one_iff.mp hi
          exact hmarked.1 true
      | file dollar =>
          refine ⟨?_, ih hmarked⟩
          cases dollar with
          | true => exact Or.inl ⟨rfl, rfl⟩
          | false =>
              -- no character of the other placeholder is a dollar sign
              exact Or.inr ⟨rfl, not_prefix_of_not_mem (by decide) _⟩

/-- A pattern without quotes that begins between the quotes lies in the quoted text. -/
theorem prefix_of_prefix_quoted
    {pat s rest : CodePoints}
    (hpat : ∀ c ∈ pat, c ≠ chr '\'' ∧ c ≠ chr '"')
    (h : pat <+: s.flatMap quotedCode ++ chr '\'' :: rest) :
    pat <+: s := by
  induction s generalizing pat with
  | nil =>
      cases pat with
      | nil => exact List.nil_prefix
      | cons c pat =>
          rw [List.flatMap_nil, List.nil_append, List.cons_prefix_cons] at h
          exact absurd h.1 (hpat c List.mem_cons_self).1
  | cons d s ih =>
      cases pat with
      | nil => exact List.nil_prefix
      | cons c pat =>
          have hc := hpat c List.mem_cons_self
          rw [List.flatMap_cons, quotedCode] at h
          split_ifs at h with hd
          · have hquote : codePoints "'\"'\"'" = chr '\'' :: codePoints "\"'\"'" := rfl
            rw [hquote, List.cons_append, List.cons_append, List.cons_prefix_cons] at h
            exact absurd h.1 hc.1
          · rw [List.singleton_append, List.cons_append, List.cons_prefix_cons] at h
            rw [List.cons_prefix_cons]
            exact ⟨h.1, ih (fun e he => hpat e (List.mem_cons_of_mem _ he)) h.2⟩

/-- A pattern without quotes that begins in a quoted text occurs in the text. -/
theorem infix_of_prefix_drop_quoted
    {pat s rest : CodePoints}
    (hne : pat ≠ [])
    (hpat : ∀ c ∈ pat, c ≠ chr '\'' ∧ c ≠ chr '"')
    {i : Nat}
    (hi : i < (s.flatMap quotedCode).length)
    (h : pat <+: (s.flatMap quotedCode).drop i ++ chr '\'' :: rest) :
    pat <:+: s := by
  induction s generalizing i with
  | nil => simp at hi
  | cons d s ih =>
      have htail : ∀ j < (s.flatMap quotedCode).length,
          pat <+: (s.flatMap quotedCode).drop j ++ chr '\'' :: rest → pat <:+: d :: s :=
        fun j hj hpre => (ih hj hpre).trans (List.infix_cons (List.infix_refl s))
      rw [List.flatMap_cons] at hi h
      by_cases hin : i < (quotedCode d).length
      · obtain ⟨c, w, rfl⟩ := List.exists_cons_of_ne_nil hne
        have hc := hpat c List.mem_cons_self
        rw [List.drop_append_of_le_length hin.le, List.drop_eq_getElem_cons hin,
          List.cons_append, List.cons_append, List.cons_prefix_cons] at h
        by_cases hd : d = chr '\''
        · -- the spelling of a quote has only quotes
          have hcode : quotedCode d = [chr '\'', chr '"', chr '\'', chr '"', chr '\''] := by
            rw [hd, quotedCode, if_pos rfl]
            rfl
          have hall : ∀ e ∈ quotedCode d, e = chr '\'' ∨ e = chr '"' := by
            intro e he
            rw [hcode] at he
            simp only [List.mem_cons, List.not_mem_nil, or_false] at he
            tauto
          rcases hall _ (List.getElem_mem hin) with he | he
          · exact absurd (h.1.trans he) hc.1
          · exact absurd (h.1.trans he) hc.2
        · have hquoted : quotedCode d = [d] := if_neg hd
          have hzero : i = 0 := by
            rw [hquoted] at hin
            simpa using hin
          subst hzero
          simp only [hquoted, List.getElem_cons_zero, List.drop_succ_cons, List.drop_zero,
            List.nil_append] at h
          rw [h.1]
          have hpre := prefix_of_prefix_quoted
            (fun e he => hpat e (List.mem_cons_of_mem _ he)) h.2
          exact (List.cons_prefix_cons.mpr ⟨rfl, hpre⟩).isInfix
      · have hskip : (quotedCode d ++ s.flatMap quotedCode).drop i =
            (s.flatMap quotedCode).drop (i - (quotedCode d).length) := by
          rw [List.drop_append, List.drop_eq_nil_of_le (not_lt.mp hin), List.nil_append]
        rw [hskip] at h
        refine htail _ ?_ h
        rw [List.length_append] at hi
        omega

/-! ## Characters that need no quotes -/

theorem chr_val
    (c : Char) :
    (chr c).val = c.toNat := by
  have hlt : c.toNat < 0x110000 := by
    rcases c.valid with h | ⟨-, h⟩
    · exact lt_trans h (by decide)
    · exact h
  rw [chr, Fin.val_ofNat, Nat.mod_eq_of_lt hlt]

theorem eq_chr_iff
    {c : CodePoint}
    {d : Char} :
    c = chr d ↔ c.val = d.toNat := by
  rw [← chr_val d]
  exact Fin.ext_iff

theorem mem_codePoints_iff
    {c : CodePoint}
    {s : String} :
    c ∈ codePoints s ↔ c.val ∈ s.toList.map Char.toNat := by
  rw [codePoints, List.mem_map, List.mem_map]
  constructor
  · rintro ⟨d, hd, rfl⟩
    exact ⟨d, hd, (chr_val d).symm⟩
  · rintro ⟨d, hd, hval⟩
    exact ⟨d, hd, (eq_chr_iff.mpr hval.symm).symm⟩

/-- The numbers of the characters that need no quotes. -/
theorem safe_val
    {c : CodePoint}
    (h : isSafeCode c = true) :
    (0x30 ≤ c.val ∧ c.val ≤ 0x39) ∨ (0x41 ≤ c.val ∧ c.val ≤ 0x5A) ∨
      (0x61 ≤ c.val ∧ c.val ≤ 0x7A) ∨
      c.val ∈ [0x5F, 0x40, 0x25, 0x2B, 0x3D, 0x3A, 0x2C, 0x2E, 0x2F, 0x2D] := by
  have hlist : ("_@%+=:,./-".toList.map Char.toNat) =
      [0x5F, 0x40, 0x25, 0x2B, 0x3D, 0x3A, 0x2C, 0x2E, 0x2F, 0x2D] := rfl
  rw [← hlist, ← mem_codePoints_iff]
  simpa [isSafeCode, or_assoc] using h

/-- A character that the shell takes as it is. -/
structure QuietCode (c : CodePoint) : Prop where
  plain : shellKind some c = .plain
  notOperator : c ∉ codePoints "|;&<>"
  notSpace : isSpaceCode c = false

theorem quiet_of_safe
    {c : CodePoint}
    (h : isSafeCode c = true) :
    QuietCode c ∧ c ≠ chr '\x7b' := by
  have hval := safe_val h
  simp only [List.mem_cons, List.not_mem_nil, or_false] at hval
  have hspaces : c ∉ codePoints " \t\r\n" := by
    rw [mem_codePoints_iff, show (" \t\r\n".toList.map Char.toNat) = [32, 9, 13, 10] from rfl]
    simp only [List.mem_cons, List.not_mem_nil, or_false]
    omega
  have hoperators : c ∉ codePoints "|;&<>" := by
    rw [mem_codePoints_iff, show ("|;&<>".toList.map Char.toNat) = [124, 59, 38, 60, 62] from rfl]
    simp only [List.mem_cons, List.not_mem_nil, or_false]
    omega
  have hchar : ∀ n, c.val = n → n ≠ 92 ∧ n ≠ 39 ∧ n ≠ 34 ∧ n ≠ 123 := by
    rintro n rfl
    omega
  have hne : ∀ d : Char, d.toNat = 92 ∨ d.toNat = 39 ∨ d.toNat = 34 ∨ d.toNat = 123 →
      c ≠ chr d := by
    intro d hd heq
    have := hchar _ (eq_chr_iff.mp heq)
    omega
  refine ⟨⟨?_, hoperators, ?_⟩, hne _ (by decide)⟩
  · simp only [shellKind]
    rw [if_neg hspaces, if_neg (hne _ (by decide)), if_neg (hne _ (by decide)),
      if_neg (hne _ (by decide))]
  · rw [isSpaceCode]
    simp only [Bool.or_eq_false_iff, Bool.and_eq_false_iff, decide_eq_false_iff_not,
      beq_eq_false_iff_ne]
    omega

theorem placeholder_no_quote
    (dollar : Bool) :
    ∀ c ∈ placeholder dollar, c ≠ chr '\'' ∧ c ≠ chr '"' := by
  have hsingle : chr '\'' ∉ placeholder dollar := by
    cases dollar <;> decide
  have hdouble : chr '"' ∉ placeholder dollar := by
    cases dollar <;> decide
  intro c hc
  exact ⟨fun h => hsingle (h ▸ hc), fun h => hdouble (h ▸ hc)⟩

/-- No placeholder in braces begins in the quoted path, when the path has none. -/
theorem not_prefix_in_quoted
    {fileArg : CodePoints}
    (h : ¬ placeholder false <:+: fileArg)
    (rest : CodePoints) :
    ∀ i < (policyQuoteArg fileArg).length,
      ¬ placeholder false <+: (policyQuoteArg fileArg).drop i ++ rest := by
  rw [policyQuoteArg]
  split_ifs with hempty hsafe
  · exact not_prefix_of_not_mem (by decide) rest
  · refine not_prefix_of_not_mem ?_ rest
    intro hbrace
    exact (quiet_of_safe (List.all_eq_true.mp hsafe _ hbrace)).2 rfl
  · intro i hi hpre
    cases i with
    | zero =>
        rw [List.drop_zero, List.cons_append, List.cons_append] at hpre
        exact absurd (List.cons_prefix_cons.mp hpre).1 (by decide)
    | succ i =>
        rw [List.cons_append, List.drop_succ_cons] at hpre
        by_cases hin : i < (fileArg.flatMap quotedCode).length
        · rw [List.drop_append_of_le_length hin.le, List.append_assoc] at hpre
          exact h (infix_of_prefix_drop_quoted (placeholder_ne_nil false)
            (placeholder_no_quote false) hin hpre)
        · rw [List.drop_append, List.drop_eq_nil_of_le (not_lt.mp hin), List.nil_append] at hpre
          have hlast : i - (fileArg.flatMap quotedCode).length = 0 := by
            rw [List.cons_append, List.length_cons, List.length_append,
              List.length_singleton] at hi
            omega
          rw [hlast, List.drop_zero, List.singleton_append] at hpre
          exact absurd (List.cons_prefix_cons.mp hpre).1 (by decide)

/-- The second replacement. -/
theorem replaceAll_brace
    {ps : List Piece}
    {fileArg : CodePoints}
    (hpath : Piece.file true ∈ ps → ¬ placeholder false <:+: fileArg)
    (hbraces : BracesStay (policyQuoteArg fileArg) ps) :
    ReplacedBlockwise (placeholder false) (policyQuoteArg fileArg)
      (Piece.textWith (afterDollar (policyQuoteArg fileArg)))
      (Piece.fill (policyQuoteArg fileArg)) ps := by
  induction ps with
  | nil => trivial
  | cons p ps ih =>
      have hrest : Piece.file true ∈ ps → ¬ placeholder false <:+: fileArg :=
        fun hmem => hpath (List.mem_cons_of_mem _ hmem)
      cases p with
      | lit c =>
          refine ⟨Or.inr ⟨rfl, ?_⟩, ih hrest hbraces.2⟩
          intro i hi
          obtain rfl : i = 0 := Nat.lt_one_iff.mp hi
          exact hbraces.1
      | file dollar =>
          refine ⟨?_, ih hrest hbraces⟩
          cases dollar with
          | false => exact Or.inl ⟨rfl, rfl⟩
          | true => exact Or.inr ⟨rfl, not_prefix_in_quoted (hpath List.mem_cons_self) _⟩

/-- Expanding a template replaces its placeholders and nothing else. -/
theorem expandPolicyCommand_eq
    {template fileArg : CodePoints}
    (h : NoNewPlaceholder template fileArg) :
    expandPolicyCommand template fileArg =
      (templatePieces template).flatMap (Piece.fill (policyQuoteArg fileArg)) := by
  have hfirst := replaceAll_flatMap (placeholder_ne_nil true)
    (replaceAll_dollar (wellMarked_piecesFrom 0 template) (policyQuoteArg fileArg))
  have hsecond := replaceAll_flatMap (placeholder_ne_nil false)
    (replaceAll_brace h.1 h.2)
  rw [piecesFrom_text, List.drop_zero] at hfirst
  rw [← hsecond, templatePieces, ← hfirst]
  rfl

end Policy
end TensorGrep
