import TensorGrep.Kernel.LastMatch
import TensorGrep.RepoMap.GitMatching
import TensorGrep.RepoMap.MemoTables

/-!
# The walk and git

Git keeps a file if neither the file nor a directory above it is excluded, where the
last pattern that matches a path decides about the path.  The walk decides by the
last pattern that matches the path or a directory above it.  It yields every file
that git keeps, and others: a pattern that includes a directory again includes the
files in it as well, which patterns in front of it may ignore
(`walk_ignores_what_git_ignores_iff`).
-/

namespace TensorGrep
namespace RepoMap

open Kernel

/-! ## `.gitignore` files -/

/-- A line of a `.gitignore`. -/
inductive GitLine where
  | pattern (P : GitPattern)
  | comment (text : Text) (plain : ∀ c ∈ text, c ∉ lineBoundaries)
  | blank (count : ℕ)

namespace GitLine

/-- The line as it is written. -/
def text : GitLine → Text
  | pattern P => P.line
  | comment text _ => '#' :: text
  | blank count => List.replicate count ' '

/-- The pattern in a line. -/
def pattern? : GitLine → Option GitPattern
  | pattern P => some P
  | _ => none

end GitLine

/-- The text of a `.gitignore`. -/
def gitignoreText (lines : List GitLine) : Text :=
  lines.flatMap fun line => line.text ++ ['\n']

/-- A directory has a `.gitignore` with these lines, where the last one may lack its end, or none
and no lines. -/
def HasLines
    (entries : RepoEntries)
    (lines : List GitLine) : Prop :=
  match entries.find? gitignoreName with
  | some (.file contents _) =>
      ∃ text, contents = utf8 text ∧
        (text = gitignoreText lines ∨ text ++ ['\n'] = gitignoreText lines)
  | some (.dir _) => lines = []
  | none => lines = []
  | _ => False

section Lines

theorem forall_mem_levelsText
    {P : Char → Prop}
    {levels : List GlobLevel}
    (hslash : P '/')
    (h : ∀ level ∈ levels, ∀ c ∈ level.text, P c) :
    ∀ c ∈ levelsText levels, P c := by
  induction levels with
  | nil => exact fun c hc => nomatch hc
  | cons level rest ih =>
      have hlevel := h level List.mem_cons_self
      have hrest := ih fun l hl => h l (List.mem_cons_of_mem _ hl)
      cases rest with
      | nil => exact hlevel
      | cons second rest =>
          rw [levelsText_cons (List.cons_ne_nil _ _)]
          intro c hc
          rcases List.mem_append.mp hc with hc | hc
          · exact hlevel c hc
          · rcases List.mem_cons.mp hc with rfl | hc
            · exact hslash
            · exact hrest c hc

/-- The line of a pattern is one line. -/
theorem GitPattern.not_mem_lineBoundaries
    (P : GitPattern) :
    ∀ c ∈ P.line, c ∉ lineBoundaries := by
  have hlevels : ∀ c ∈ levelsText P.levels, c ∉ lineBoundaries := by
    refine forall_mem_levelsText (by decide) fun level hlevel c hc => ?_
    have hplain := P.plain level hlevel
    cases level with
    | stars =>
        have hstar : c = '*' := by simpa [GlobLevel.text] using hc
        exact hstar ▸ by decide
    | segment chars =>
        obtain ⟨d, hd, rfl⟩ := List.mem_map.mp hc
        have := hplain.2.1 d hd
        cases d with
        | literal d => exact this.2
        | anyChar => decide
        | star => decide
  have hbody : ∀ c ∈ P.body, c ∉ lineBoundaries := by
    rw [GitPattern.body, bodyText]
    split
    · exact List.forall_mem_cons.mpr ⟨by decide, hlevels⟩
    · exact hlevels
  have htail : ∀ c ∈ P.tail, c ∉ lineBoundaries := by
    rw [GitPattern.tail]
    split
    · intro c hc
      rcases List.mem_append.mp hc with hc | hc
      · exact hbody c hc
      · exact List.mem_singleton.mp hc ▸ by decide
    · exact hbody
  rw [GitPattern.line]
  split
  · exact List.forall_mem_cons.mpr ⟨by decide, htail⟩
  · exact htail

theorem GitLine.not_mem_lineBoundaries
    (line : GitLine) :
    ∀ c ∈ line.text, c ∉ lineBoundaries := by
  cases line with
  | pattern P => exact P.not_mem_lineBoundaries
  | comment text plain => exact List.forall_mem_cons.mpr ⟨by decide, plain⟩
  | blank count =>
      intro c hc
      exact (List.mem_replicate.mp hc).2 ▸ by decide

/-- What is read from a line. -/
theorem parseGitignoreLine_text
    (line : GitLine) :
    parseGitignoreLine line.text = line.pattern?.map GitPattern.rule := by
  cases line with
  | pattern P => exact P.parseGitignoreLine_line
  | comment text plain =>
      have hcut : (('#' :: text).rdropWhile (· = '\n')) = '#' :: text := by
        refine List.rdropWhile_eq_self_iff.mpr fun hne => ?_
        have hlast := (GitLine.comment text plain).not_mem_lineBoundaries _
          (List.getLast_mem hne)
        rw [decide_eq_true_iff]
        intro heq
        exact hlast (heq ▸ by decide)
      have hhead : ('#' :: text).dropWhile isSpaceChar = '#' :: text :=
        List.dropWhile_cons_of_neg (by decide)
      rw [GitLine.text, parseGitignoreLine]
      simp [hcut, hhead, GitLine.pattern?]
  | blank count =>
      have hcut : (List.replicate count ' ').rdropWhile (· = '\n') = List.replicate count ' ' := by
        refine List.rdropWhile_eq_self_iff.mpr fun hne => ?_
        rw [List.getLast_replicate]
        decide
      have hblank : (List.replicate count ' ').all isSpaceChar = true := by
        rw [List.all_eq_true]
        intro c hc
        exact (List.mem_replicate.mp hc).2 ▸ by decide
      rw [GitLine.text, parseGitignoreLine]
      simp only [hcut, hblank, Bool.true_or, if_true]
      rfl

/-- What is read of whole lines and of another one without its end. -/
theorem read_gitignoreText_append
    (lines : List GitLine)
    {last : Text}
    (hlast : ∀ c ∈ last, c ∉ lineBoundaries) :
    (splitlines (universalNewlines (gitignoreText lines ++ last))).map
        (fun line => line.rdropWhile (· ∈ lineBoundaries)) =
      lines.map GitLine.text ++ if last = [] then [] else [last] := by
  have hboundary : ∀ c ∈ gitignoreText lines ++ last, c ∈ lineBoundaries → c = '\n' := by
    intro c hc hmem
    rcases List.mem_append.mp hc with hc | hc
    · obtain ⟨line, -, hc⟩ := List.mem_flatMap.mp hc
      rcases List.mem_append.mp hc with hc | hc
      · exact absurd hmem (line.not_mem_lineBoundaries c hc)
      · exact List.mem_singleton.mp hc
    · exact absurd hmem (hlast c hc)
  have hcr : '\r' ∉ gitignoreText lines ++ last :=
    fun hm => absurd (hboundary _ hm (by decide)) (by decide)
  have hself : ∀ t : Text, (∀ c ∈ t, c ∉ lineBoundaries) →
      t.rdropWhile (· ∈ lineBoundaries) = t := by
    intro t ht
    refine List.rdropWhile_eq_self_iff.mpr fun hne => ?_
    rw [decide_eq_true_iff]
    exact ht _ (List.getLast_mem hne)
  rw [universalNewlines_of_not_mem hcr, splitlines_of_newlines hboundary]
  clear hboundary hcr
  induction lines with
  | nil =>
      rw [gitignoreText, List.flatMap_nil, List.nil_append,
        linesOf_of_not_mem fun hm => hlast _ hm (by decide), List.map_nil, List.nil_append]
      split
      · rfl
      · rw [List.map_singleton, hself last hlast]
  | cons line lines ih =>
      have hone := linesOf_concat_of_not_mem fun hm : '\n' ∈ line.text =>
        line.not_mem_lineBoundaries _ hm (by decide)
      rw [gitignoreText, List.flatMap_cons, List.append_assoc, linesOf_append (Or.inr (by simp)),
        hone, List.map_append, ← gitignoreText, ih, List.map_singleton,
        List.rdropWhile_concat_pos _ _ _ (by decide), hself _ line.not_mem_lineBoundaries]
      rfl

/-- The rules that are read from a `.gitignore` are those of its patterns. -/
theorem rules_of_hasLines
    {entries : RepoEntries}
    {lines : List GitLine}
    (h : HasLines entries lines) :
    (gitignoreLines entries).filterMap parseGitignoreLine =
      (lines.filterMap GitLine.pattern?).map GitPattern.rule := by
  have hparse : ∀ lines : List GitLine, (lines.map GitLine.text).filterMap parseGitignoreLine =
      (lines.filterMap GitLine.pattern?).map GitPattern.rule := by
    intro lines
    rw [List.filterMap_map, List.map_filterMap]
    exact List.filterMap_congr fun line _ => parseGitignoreLine_text line
  rw [HasLines] at h
  rw [gitignoreLines]
  split at h
  next contents mtimeNs hfind =>
      obtain ⟨text, rfl, hwhole | hcut⟩ := h
      · have hread := read_gitignoreText_append lines fun c (hc : c ∈ []) => nomatch hc
        rw [List.append_nil, if_pos rfl, List.append_nil, ← hwhole] at hread
        rw [hfind, Option.bind_some, fromUtf8_utf8]
        exact (congrArg (List.filterMap parseGitignoreLine) hread).trans (hparse lines)
      · -- the last line is cut off at its end
        rcases List.eq_nil_or_concat lines with rfl | ⟨lines, last, rfl⟩
        · exact absurd (congrArg List.length hcut) (by simp [gitignoreText])
        · rw [List.concat_eq_append, gitignoreText, List.flatMap_append, List.flatMap_singleton,
            ← List.append_assoc] at hcut
          obtain ⟨rfl, -⟩ := List.append_inj' hcut rfl
          have hread := read_gitignoreText_append lines last.not_mem_lineBoundaries
          rw [hfind, Option.bind_some, fromUtf8_utf8]
          refine (congrArg (List.filterMap parseGitignoreLine) hread).trans ?_
          rw [List.concat_eq_append, List.filterMap_append, hparse, List.filterMap_append,
            List.map_append]
          refine congrArg _ ?_
          have hlast := parseGitignoreLine_text last
          split
          next hnil =>
              rw [hnil] at hlast
              have hnone : last.pattern? = none := by
                rw [← Option.map_eq_none_iff, ← hlast]
                decide
              simp [hnone]
          next =>
              cases hpattern : last.pattern? with
              | none => simp [hlast, hpattern]
              | some P => simp [hlast, hpattern]
  next entries' hfind => rw [hfind, h]; rfl
  next hfind => rw [hfind, h]; rfl
  next => exact h.elim

end Lines

/-! ## The way to a file -/

section Way

variable {root : RepoRoot} {load : MatcherLoader}

/-- A node that is not left out. -/
def NotLeftOut
    (root : RepoRoot)
    (stack : List GitignoreMatcher)
    (path : RepoPath)
    (name : FileName) : RepoNode → Prop
  | .dir _ =>
      shouldSkipRepoDir root path name = false ∧ stackIgnored stack (path ++ [name]) true = false
  | .file _ _ => stackIgnored stack (path ++ [name]) false = false
  | .failing => True
  | .link _ => False

theorem mem_scanEntries_iff
    {stack : List GitignoreMatcher}
    {path : RepoPath}
    {entries : List (FileName × RepoNode)}
    {entry : ScannedEntry} :
    entry ∈ scanEntries root load stack path entries ↔
      ∃ name node, (name, node) ∈ entries ∧ NotLeftOut root stack path name node ∧
        entry = scannedEntry root load stack path name node := by
  induction entries with
  | nil => simp [scanEntries]
  | cons first rest ih =>
      obtain ⟨name, node⟩ := first
      have hcons : entry ∈ scanEntries root load stack path ((name, node) :: rest) ↔
          (NotLeftOut root stack path name node ∧
            entry = scannedEntry root load stack path name node) ∨
              entry ∈ scanEntries root load stack path rest := by
        cases node with
        | file contents mtimeNs =>
            rw [scanEntries, NotLeftOut]
            split <;> simp_all [scannedEntry]
        | link target => simp [scanEntries, NotLeftOut]
        | failing => simp [scanEntries, NotLeftOut, scannedEntry]
        | dir entries =>
            rw [scanEntries, NotLeftOut]
            split
            · simp_all
            · split <;> simp_all [scannedEntry]
      rw [hcons, ih]
      constructor
      · rintro (⟨hopen, heq⟩ | ⟨name', node', hmem, hopen, heq⟩)
        · exact ⟨name, node, List.mem_cons_self, hopen, heq⟩
        · exact ⟨name', node', List.mem_cons_of_mem _ hmem, hopen, heq⟩
      · rintro ⟨name', node', hmem, hopen, heq⟩
        rcases List.mem_cons.mp hmem with hfirst | hmem
        · cases hfirst
          exact Or.inl ⟨hopen, heq⟩
        · exact Or.inr ⟨name', node', hmem, hopen, heq⟩

/-- What the walk below a directory yields is a file of the directory, or is yielded below a
directory in it. -/
theorem mem_bucketFiles_cons_iff
    {stack : List GitignoreMatcher}
    {path : RepoPath}
    {entries : List (FileName × RepoNode)}
    (hdistinct : entriesDistinct entries)
    {name : FileName}
    {rest : RepoPath} :
    path ++ name :: rest ∈ walkedFiles (iterRepoBucketFiles root load stack path
        (.dir (some entries))) ↔
      ∃ node, (name, node) ∈ entries ∧
        NotLeftOut root (pushMatcher stack (load path entries)) path name node ∧
          ((∃ contents mtimeNs, node = .file contents mtimeNs) ∧ rest = [] ∨
            ∃ inner, node = .dir inner ∧ path ++ [name] ++ rest ∈ walkedFiles
              (iterRepoBucketFiles root load (pushMatcher stack (load path entries))
                (path ++ [name]) (.dir inner))) := by
  rw [iterRepoBucketFiles, mem_walkedFiles_arrange_iff]
  simp only [mem_scanEntries_iff]
  constructor
  · rintro ⟨_, ⟨name', node, hmem, hopen, rfl⟩, hp⟩
    cases node with
    | file contents mtimeNs =>
        have heq := List.append_cancel_left (List.mem_singleton.mp hp)
        obtain ⟨rfl, rfl⟩ := List.cons.inj heq
        exact ⟨_, hmem, hopen, Or.inl ⟨⟨contents, mtimeNs, rfl⟩, rfl⟩⟩
    | link target => exact hopen.elim
    | failing => cases hp
    | dir inner =>
        obtain ⟨rest', heq, -⟩ := fileAt_of_mem_bucketFiles (.dir inner) (nodeDistinct_of_mem hdistinct hmem) hp
        rw [List.append_assoc] at heq
        obtain ⟨rfl, rfl⟩ := List.cons.inj (List.append_cancel_left heq)
        refine ⟨_, hmem, hopen, Or.inr ⟨inner, rfl, ?_⟩⟩
        rw [List.append_assoc]
        exact hp
  · rintro ⟨node, hmem, hopen, ⟨⟨contents, mtimeNs, rfl⟩, rfl⟩ | ⟨inner, rfl, hp⟩⟩
    · exact ⟨_, ⟨name, _, hmem, hopen, rfl⟩, List.mem_singleton_self _⟩
    · rw [List.append_assoc] at hp
      exact ⟨_, ⟨name, _, hmem, hopen, rfl⟩, hp⟩

/-- The matchers of a directory and those above it. -/
def matchersAt
    (matcherOf : RepoPath → GitignoreMatcher)
    (path : RepoPath) : List GitignoreMatcher :=
  path.inits.map matcherOf

theorem matchersAt_concat
    (matcherOf : RepoPath → GitignoreMatcher)
    (path : RepoPath)
    (name : FileName) :
    matchersAt matcherOf (path ++ [name]) = matchersAt matcherOf path ++ [matcherOf (path ++ [name])] := by
  simp [matchersAt, List.inits_append]

theorem isSome_entriesFile_iff
    {entries : List (FileName × RepoNode)}
    (hnodup : (entries.map Prod.fst).Nodup)
    {name : FileName}
    {rest : RepoPath} :
    (entriesFile entries name rest).isSome = true ↔
      ∃ node, (name, node) ∈ entries ∧ (nodeFile node rest).isSome = true := by
  constructor
  · intro h
    clear hnodup
    induction entries with
    | nil => exact absurd h Bool.false_ne_true
    | cons first entries ih =>
        obtain ⟨name', node⟩ := first
        rw [entriesFile] at h
        split at h
        · next heq => exact ⟨node, heq ▸ List.mem_cons_self, h⟩
        · obtain ⟨node', hmem, hsome⟩ := ih h
          exact ⟨node', List.mem_cons_of_mem _ hmem, hsome⟩
  · rintro ⟨node, hmem, hsome⟩
    rw [entriesFile_of_mem hnodup hmem]
    exact hsome

theorem forall_prefix_cons_iff
    {P : RepoPath → Prop}
    {name : FileName}
    {rest : RepoPath} :
    (∀ u, u ≠ [] → u <+: name :: rest → P u) ↔
      P [name] ∧ ∀ u, u ≠ [] → u <+: rest → P (name :: u) := by
  constructor
  · intro h
    refine ⟨h [name] (List.cons_ne_nil _ _) ⟨rest, rfl⟩, fun u _ hu => ?_⟩
    exact h (name :: u) (List.cons_ne_nil _ _) ((List.prefix_cons_inj name).mpr hu)
  · rintro ⟨hone, hmore⟩ u hne hu
    cases u with
    | nil => exact absurd rfl hne
    | cons name' u =>
        obtain ⟨rfl, hrest⟩ := List.cons_prefix_cons.mp hu
        by_cases hnil : u = []
        · exact hnil ▸ hone
        · exact hmore u hnil hrest

/-- The walk yields a file if and only if nothing on the way to it is ignored. -/
theorem mem_walkedFiles_bucket_iff
    {matcherOf : RepoPath → GitignoreMatcher}
    {stack : List GitignoreMatcher}
    {path rest : RepoPath}
    {entries : List (FileName × RepoNode)}
    (hstack : DecideAlike (pushMatcher stack (matcherOf path)) (matchersAt matcherOf path))
    (hdistinct : nodeDistinct (.dir (some entries)))
    (hskip : ∀ q name, q ++ [name] <+: path ++ rest → q ++ [name] ≠ path ++ rest →
      shouldSkipRepoDir root q name = false) :
    path ++ rest ∈ walkedFiles (iterRepoBucketFiles root (fun d _ => matcherOf d) stack path
        (.dir (some entries))) ↔
      (nodeFile (.dir (some entries)) rest).isSome = true ∧
        ∀ u, u ≠ [] → u <+: rest →
          stackIgnored (matchersAt matcherOf (path ++ u).dropLast) (path ++ u) (u ≠ rest) = false := by
  induction rest generalizing path stack entries with
  | nil =>
      refine iff_of_false (fun hmem => ?_) fun h => Bool.false_ne_true h.1
      obtain ⟨rest, heq, hsome⟩ := fileAt_of_mem_bucketFiles _ hdistinct hmem
      obtain rfl := List.append_cancel_left heq
      exact Bool.false_ne_true hsome
  | cons name rest ih =>
      rw [nodeDistinct] at hdistinct
      have hdrop : ∀ u : RepoPath, (path ++ name :: u).dropLast =
          if u = [] then path else (path ++ [name] ++ u).dropLast := by
        intro u
        split
        next hnil => rw [hnil, List.dropLast_concat]
        next => rw [List.append_assoc, List.singleton_append]
      rw [mem_bucketFiles_cons_iff hdistinct.2, nodeFile, isSome_entriesFile_iff hdistinct.1,
        forall_prefix_cons_iff, hdrop, if_pos rfl]
      -- below a directory the stack has one more matcher
      have hpush : DecideAlike
          (pushMatcher (pushMatcher stack (matcherOf path)) (matcherOf (path ++ [name])))
          (matchersAt matcherOf (path ++ [name])) := by
        intro q isDir
        rw [decideAlike_pushMatcher, matchersAt_concat, stackIgnored_append, stackIgnored_append,
          hstack]
      have hbelow : ∀ inner, nodeDistinct (.dir (some inner)) →
          (path ++ [name] ++ rest ∈ walkedFiles (iterRepoBucketFiles root (fun d _ => matcherOf d)
              (pushMatcher stack (matcherOf path)) (path ++ [name]) (.dir (some inner))) ↔
            (nodeFile (.dir (some inner)) rest).isSome = true ∧
              ∀ u, u ≠ [] → u <+: rest → stackIgnored (matchersAt matcherOf
                (path ++ name :: u).dropLast) (path ++ name :: u) (name :: u ≠ name :: rest) =
                  false) := by
        intro inner hinner
        rw [ih hpush hinner (by simpa using hskip)]
        simp
      constructor
      · rintro ⟨node, hmem, hopen, ⟨⟨contents, mtimeNs, rfl⟩, rfl⟩ | ⟨inner, rfl, hp⟩⟩
        · refine ⟨⟨_, hmem, rfl⟩, ?_, fun u hne hu => absurd (List.prefix_nil.mp hu) hne⟩
          rw [NotLeftOut, hstack] at hopen
          simpa using hopen
        · cases inner with
          | none => cases hp
          | some inner =>
              obtain ⟨hsome, hway⟩ := (hbelow inner (nodeDistinct_of_mem hdistinct.2 hmem)).mp hp
              refine ⟨⟨_, hmem, hsome⟩, ?_, hway⟩
              have hrest : rest ≠ [] := by
                rintro rfl
                exact Bool.false_ne_true hsome
              rw [NotLeftOut, hstack] at hopen
              simpa [hrest] using hopen.2
      · rintro ⟨⟨node, hmem, hsome⟩, hhere, hway⟩
        refine ⟨node, hmem, ?_⟩
        cases node with
        | file contents mtimeNs =>
            cases rest with
            | nil =>
                refine ⟨?_, Or.inl ⟨⟨contents, mtimeNs, rfl⟩, rfl⟩⟩
                rw [NotLeftOut, hstack]
                simpa using hhere
            | cons second rest => exact absurd hsome Bool.false_ne_true
        | link target => exact absurd hsome Bool.false_ne_true
        | failing => exact absurd hsome Bool.false_ne_true
        | dir inner =>
            cases inner with
            | none => exact absurd hsome Bool.false_ne_true
            | some inner =>
                have hrest : rest ≠ [] := by
                  rintro rfl
                  exact Bool.false_ne_true hsome
                have hp := (hbelow inner (nodeDistinct_of_mem hdistinct.2 hmem)).mpr ⟨hsome, hway⟩
                refine ⟨⟨hskip path name ?_ ?_, ?_⟩, Or.inr ⟨_, rfl, hp⟩⟩
                · exact ⟨rest, by simp⟩
                · simpa using hrest
                · rw [hstack]
                  simpa [hrest] using hhere

end Way

/-! ## Patterns in place -/

/-- A pattern in the `.gitignore` of a directory. -/
abbrev PlacedPattern := RepoPath × GitPattern

section Placed

variable (linesAt : RepoPath → List GitLine)

/-- The patterns of a directory. -/
def patternsAt (path : RepoPath) : List GitPattern :=
  (linesAt path).filterMap GitLine.pattern?

/-- The patterns for a path, those of the deepest directory last. -/
def placedFor (path : RepoPath) : List PlacedPattern :=
  path.dropLast.inits.flatMap fun base => (patternsAt linesAt base).map fun P => (base, P)

/-- The matcher of a directory. -/
def matcherAt (path : RepoPath) : GitignoreMatcher :=
  ⟨path, (patternsAt linesAt path).map GitPattern.rule⟩

end Placed

namespace PlacedPattern

/-- The pattern is not negated. -/
def ignores (r : PlacedPattern) : Bool :=
  !r.2.negated

/-- The pattern matches a path. -/
def matchesAt
    (r : PlacedPattern)
    (path : RepoPath)
    (isDir : Bool) : Bool :=
  r.2.matches (path.drop r.1.length) isDir

end PlacedPattern

section Decisions

variable {linesAt : RepoPath → List GitLine}

theorem mem_placedFor_iff
    {path : RepoPath}
    {r : PlacedPattern} :
    r ∈ placedFor linesAt path ↔ r.1 <+: path.dropLast ∧ r.2 ∈ patternsAt linesAt r.1 := by
  rw [placedFor, List.mem_flatMap]
  simp only [List.mem_inits, List.mem_map]
  constructor
  · rintro ⟨base, hbase, P, hP, rfl⟩
    exact ⟨hbase, hP⟩
  · rintro ⟨hbase, hP⟩
    exact ⟨r.1, hbase, r.2, hP, rfl⟩

/-- A path has the patterns of the directories above it, and others behind them. -/
theorem inherits_placedFor :
    Inherits (· <+: ·) (placedFor linesAt) := by
  intro p q hpq
  obtain ⟨below, hbelow⟩ : p.dropLast <+: q.dropLast := by
    rw [List.dropLast_eq_take, List.dropLast_eq_take]
    obtain ⟨t, rfl⟩ := hpq
    refine ⟨((p ++ t).take ((p ++ t).length - 1)).drop (p.length - 1), ?_⟩
    have htake : p.take (p.length - 1) = ((p ++ t).take ((p ++ t).length - 1)).take (p.length - 1) := by
      rw [List.take_take, min_eq_left (by rw [List.length_append]; omega),
        List.take_append_of_le_length (Nat.sub_le _ _)]
    rw [htake, List.take_append_drop]
  refine ⟨(below.inits.tail.map (p.dropLast ++ ·)).flatMap fun base =>
    (patternsAt linesAt base).map fun P => (base, P), ?_, ?_⟩
  · rw [placedFor, ← hbelow, List.inits_append, List.flatMap_append, placedFor]
  · intro r hr hmem
    obtain ⟨hbase, -⟩ := mem_placedFor_iff.mp hmem
    rw [List.mem_flatMap] at hr
    obtain ⟨base, hnew, hr⟩ := hr
    obtain ⟨P, -, rfl⟩ := List.mem_map.mp hr
    obtain ⟨u, hu, rfl⟩ := List.mem_map.mp hnew
    have hlength := hbase.length_le
    have hu_nil : u = [] := by
      rw [List.length_append] at hlength
      exact List.length_eq_zero_iff.mp (by omega)
    subst hu_nil
    cases below with
    | nil => simp at hu
    | cons name below => simp at hu

theorem lastDecision_rules
    (applies : GitignoreRule → Bool)
    (patterns : List GitPattern) :
    lastDecision applies (patterns.map GitPattern.rule) =
      (lastMatch (fun P => applies (GitPattern.rule P)) patterns).map fun P => !P.negated := by
  induction patterns using List.reverseRecOn with
  | nil => rfl
  | append_singleton patterns P ih =>
      rw [List.map_append, lastDecision, List.foldl_append, ← lastDecision, ih, lastMatch_append]
      simp only [lastMatch, List.map_cons, List.map_nil, List.foldl_cons, List.foldl_nil]
      by_cases h : applies P.rule = true
      · rw [if_pos h, if_pos h]
        rfl
      · rw [if_neg h, if_neg h]
        rfl

/-- The walk decides by the last pattern whose rule has a say. -/
theorem stackIgnored_matchersAt
    {path : RepoPath}
    (hpath : path ≠ [])
    (isDir : Bool) :
    stackIgnored (matchersAt (matcherAt linesAt) path.dropLast) path isDir =
      (lastMatch (fun r => r.2.rule.applies (path.drop r.1.length) isDir)
        (placedFor linesAt path)).any PlacedPattern.ignores := by
  have hcheck : ∀ base : RepoPath, base <+: path.dropLast →
      (matcherAt linesAt base).check path isDir =
        (lastMatch (fun r : PlacedPattern => r.2.rule.applies (path.drop r.1.length) isDir)
          ((patternsAt linesAt base).map fun P => (base, P))).map PlacedPattern.ignores := by
    intro base hbase
    have hshort : base.length < path.length := by
      have hlength := hbase.length_le
      rw [List.length_dropLast] at hlength
      have hpos := List.length_pos_of_ne_nil hpath
      omega
    have hdrop : path.drop base.length ≠ [] := by
      rw [Ne, List.drop_eq_nil_iff]
      omega
    have hrel : relativeTo base path = some (path.drop base.length) :=
      if_pos (hbase.trans (List.dropLast_prefix path))
    rw [GitignoreMatcher.check, matcherAt, hrel, lastMatch_map]
    obtain ⟨name, rest, hcons⟩ := List.exists_cons_of_ne_nil hdrop
    simp only [hcons]
    rw [lastDecision_rules, Option.map_map]
    rfl
  rw [placedFor, lastMatch_flatMap, matchersAt, stackIgnored, List.foldl_map]
  have hfold : ∀ (bases : List RepoPath) (found : Option PlacedPattern),
      (∀ base ∈ bases, base <+: path.dropLast) →
      bases.foldl (fun decision base => ((matcherAt linesAt base).check path isDir).or decision)
          (found.map PlacedPattern.ignores) =
        (bases.foldl (fun found base =>
          (lastMatch (fun r : PlacedPattern => r.2.rule.applies (path.drop r.1.length) isDir)
            ((patternsAt linesAt base).map fun P => (base, P))).or found) found).map
          PlacedPattern.ignores := by
    intro bases
    induction bases with
    | nil => exact fun _ _ => rfl
    | cons base bases ih =>
        intro found h
        rw [List.foldl_cons, List.foldl_cons, hcheck base (h base List.mem_cons_self),
          ← Option.map_or, ih _ fun b hb => h b (List.mem_cons_of_mem _ hb)]
  have hall := hfold path.dropLast.inits none fun base hbase => (List.mem_inits _ _).mp hbase
  rw [Option.map_none] at hall
  rw [hall]
  cases path.dropLast.inits.foldl _ none <;> rfl

end Decisions

/-! ## What git keeps -/

section Keeps

variable (linesAt : RepoPath → List GitLine)

/-- The last pattern that matches the path ignores it. -/
def gitExcludes
    (path : RepoPath)
    (isDir : Bool) : Bool :=
  (lastMatch (fun r => PlacedPattern.matchesAt r path isDir) (placedFor linesAt path)).any
    PlacedPattern.ignores

/-- Git keeps a file if no directory above it is excluded, and the file is not. -/
def GitKeeps (file : RepoPath) : Prop :=
  (∀ d, d <+: file → d ≠ file → gitExcludes linesAt d true = false) ∧
    gitExcludes linesAt file false = false

/-- The pattern matches a path on the way to a file. -/
def MatchesOnWay
    (file : RepoPath)
    (r : PlacedPattern)
    (path : RepoPath) : Prop :=
  PlacedPattern.matchesAt r path (path ≠ file) = true

/-- On the way to a file a pattern ignores the path or a directory above it, and no pattern after it
matches the path or a directory above it. -/
def IgnoredForGood
    (file path : RepoPath) : Prop :=
  Excludes (fun r => PlacedPattern.ignores r = true)
    (fun r => Covers (· <+: ·) (placedFor linesAt) (MatchesOnWay file) r path)
    (placedFor linesAt path)

/-- On the way to a file the last pattern that matches the path ignores it, and a negated pattern
after it matches a directory above the path. -/
def IncludedAgain
    (file path : RepoPath) : Prop :=
  Reincludes (· <+: ·) (placedFor linesAt) (MatchesOnWay file)
    (fun r => PlacedPattern.ignores r = true) path

variable {linesAt} {file : RepoPath}

theorem gitKeeps_iff :
    GitKeeps linesAt file ↔
      ∀ q, q <+: file → ¬ Excludes (fun r => PlacedPattern.ignores r = true)
        (fun r => MatchesOnWay file r q) (placedFor linesAt q) := by
  have hflag : ∀ q, Excludes (fun r => PlacedPattern.ignores r = true)
      (fun r => MatchesOnWay file r q) (placedFor linesAt q) ↔
        gitExcludes linesAt q (q ≠ file) = true :=
    fun q => any_lastMatch_iff.symm
  simp only [hflag, Bool.not_eq_true]
  constructor
  · rintro ⟨habove, hself⟩ q hq
    by_cases heq : q = file
    · simpa [heq] using hself
    · simpa [heq] using habove q hq heq
  · intro h
    refine ⟨fun d hd hne => ?_, ?_⟩
    · simpa [hne] using h d hd
    · simpa using h file (List.prefix_refl file)

/-- What is above a path on the way to a file is a directory, and so is the path unless it is the
file. -/
theorem ne_file_iff
    {p q : RepoPath}
    (hp : p <+: q)
    (hq : q <+: file) :
    p ≠ file ↔ q ≠ file ∨ p ≠ q := by
  rw [← not_and_or, not_iff_not]
  constructor
  · rintro rfl
    have heq := hp.eq_of_length_le hq.length_le
    exact ⟨heq.symm, heq⟩
  · rintro ⟨hfile, heq⟩
    exact heq.trans hfile

/-- A rule has a say about a path if and only if its pattern matches the path or a directory above
it. -/
theorem applies_iff_covers
    {q : RepoPath}
    (hq : q <+: file)
    (hne : q ≠ [])
    (hnewlines : NoNewlines q)
    {r : PlacedPattern}
    (hr : r ∈ placedFor linesAt q) :
    r.2.rule.applies (q.drop r.1.length) (q ≠ file) = true ↔
      Covers (· <+: ·) (placedFor linesAt) (MatchesOnWay file) r q := by
  obtain ⟨base, P⟩ := r
  obtain ⟨⟨names, hnames⟩, hP⟩ := mem_placedFor_iff.mp hr
  have hwhole := List.dropLast_concat_getLast hne
  rw [← hnames, List.append_assoc] at hwhole
  obtain ⟨rest, hrest, hcut⟩ : ∃ rest, rest ≠ [] ∧ base ++ rest = q :=
    ⟨_, by simp, hwhole⟩
  subst hcut
  have hflag : ∀ p, p <+: rest → P.matches p (base ++ rest ≠ file || p ≠ rest) =
      P.matches p (base ++ p ≠ file) := by
    intro p hp
    have hiff := ne_file_iff ((List.prefix_append_right_inj base).mpr hp) hq
    simp only [Ne, List.append_cancel_left_eq] at hiff
    simp [hiff]
  rw [List.drop_left, applies_rule_iff P hrest (hnewlines.of_sublist (List.sublist_append_right _ _))]
  constructor
  · rintro ⟨p, hp, hmatch⟩
    have hpne := P.ne_nil_of_matches hmatch
    have hbelow : base ++ p <+: base ++ rest := (List.prefix_append_right_inj base).mpr hp
    refine ⟨base ++ p, hbelow, mem_placedFor_iff.mpr ⟨?_, hP⟩, ?_⟩
    · exact ⟨p.dropLast, (List.dropLast_append_of_ne_nil hpne).symm⟩
    · rw [MatchesOnWay, PlacedPattern.matchesAt, List.drop_left, ← hflag p hp]
      exact hmatch
  · rintro ⟨p, hp, hmem, hmatch⟩
    obtain ⟨p, rfl⟩ : base <+: p :=
      (mem_placedFor_iff.mp hmem).1.trans (List.dropLast_prefix p)
    have hp' := (List.prefix_append_right_inj base).mp hp
    rw [MatchesOnWay, PlacedPattern.matchesAt, List.drop_left, ← hflag p hp'] at hmatch
    exact ⟨p, hp', hmatch⟩

/-- A pattern matches nothing at the root. -/
theorem not_matchesOnWay_nil
    {r : PlacedPattern} :
    ¬ MatchesOnWay file r [] := by
  intro h
  rw [MatchesOnWay, PlacedPattern.matchesAt, List.drop_nil] at h
  exact r.2.ne_nil_of_matches h rfl

theorem stackIgnored_iff_ignoredForGood
    {q : RepoPath}
    (hq : q <+: file)
    (hne : q ≠ [])
    (hnewlines : NoNewlines q) :
    stackIgnored (matchersAt (matcherAt linesAt) q.dropLast) q (q ≠ file) = true ↔
      IgnoredForGood linesAt file q := by
  rw [stackIgnored_matchersAt hne, any_lastMatch_iff, IgnoredForGood]
  exact Excludes.congr fun r hr => applies_iff_covers hq hne hnewlines hr

theorem not_ignoredForGood_nil :
    ¬ IgnoredForGood linesAt file [] := by
  rintro ⟨before, r, after, -, -, ⟨p, hp, -, hmatch⟩, -⟩
  rw [List.prefix_nil.mp hp] at hmatch
  exact not_matchesOnWay_nil hmatch

end Keeps

section GitWalk

variable {root : RepoRoot} {entries : RepoEntries} {linesAt : RepoPath → List GitLine}
  {file : RepoPath}

/-- The walk has the matchers of the lines. -/
theorem bucketFiles_eq_of_hasLines
    (hlines : ∀ d inner, (d, inner) ∈ (RepoTree.directory (some entries)).directories →
      HasLines inner (linesAt d)) :
    iterRepoBucketFiles root loadGitignoreMatcher [] [] (.dir (some entries)) =
      iterRepoBucketFiles root (fun d _ => matcherAt linesAt d) [] [] (.dir (some entries)) := by
  refine iterRepoBucketFiles_congr_load _ _ fun d inner hmem => ?_
  rw [loadGitignoreMatcher, gitignoreMatcher, rules_of_hasLines (hlines d inner hmem)]
  rfl

/-- A file is yielded if and only if nothing on the way to it is ignored for good. -/
theorem mem_walk_iff
    (hdistinct : (RepoTree.directory (some entries)).DistinctNames)
    (hlines : ∀ d inner, (d, inner) ∈ (RepoTree.directory (some entries)).directories →
      HasLines inner (linesAt d))
    (hfile : ((RepoTree.directory (some entries)).fileAt file).isSome = true)
    (hskip : ∀ d name, d ++ [name] <+: file → d ++ [name] ≠ file →
      shouldSkipRepoDir root d name = false)
    (hnewlines : NoNewlines file) :
    file ∈ walkedFiles (iterRepoBucketFiles root loadGitignoreMatcher [] []
        (.dir (some entries))) ↔
      ∀ q, q <+: file → ¬ IgnoredForGood linesAt file q := by
  have hstack : DecideAlike (pushMatcher [] (matcherAt linesAt []))
      (matchersAt (matcherAt linesAt) []) := decideAlike_pushMatcher [] _
  have hbelow : ∀ d name, d ++ [name] <+: [] ++ file → d ++ [name] ≠ [] ++ file →
      shouldSkipRepoDir root d name = false := hskip
  have hway := mem_walkedFiles_bucket_iff hstack hdistinct hbelow
  rw [List.nil_append] at hway
  have hthere : (nodeFile (.dir (some entries)) file).isSome = true := hfile
  rw [bucketFiles_eq_of_hasLines hlines, hway, and_iff_right hthere]
  constructor
  · intro h q hq hexcluded
    have hne : q ≠ [] := by
      rintro rfl
      exact not_ignoredForGood_nil hexcluded
    have hdecide := (stackIgnored_iff_ignoredForGood hq hne (hnewlines.of_sublist hq.sublist)).mpr
      hexcluded
    exact Bool.false_ne_true ((h q hne hq).symm.trans hdecide)
  · intro h q hne hq
    rw [← Bool.not_eq_true, List.nil_append,
      stackIgnored_iff_ignoredForGood hq hne (hnewlines.of_sublist hq.sublist)]
    exact h q hq

/-- A file is yielded if and only if git keeps it, exactly where something on the way to it is
ignored for good or nothing on the way is included again. -/
theorem walk_ignores_what_git_ignores_iff
    (hdistinct : (RepoTree.directory (some entries)).DistinctNames)
    (hlines : ∀ d inner, (d, inner) ∈ (RepoTree.directory (some entries)).directories →
      HasLines inner (linesAt d))
    (hfile : ((RepoTree.directory (some entries)).fileAt file).isSome = true)
    (hskip : ∀ d name, d ++ [name] <+: file → d ++ [name] ≠ file →
      shouldSkipRepoDir root d name = false)
    (hnewlines : NoNewlines file) :
    (file ∈ walkedFiles (iterRepoBucketFiles root loadGitignoreMatcher [] []
        (.dir (some entries))) ↔ GitKeeps linesAt file) ↔
      (∃ q, q <+: file ∧ IgnoredForGood linesAt file q) ∨
        ∀ q, q <+: file → ¬ IncludedAgain linesAt file q := by
  rw [mem_walk_iff hdistinct hlines hfile hskip hnewlines, gitKeeps_iff]
  exact keeps_iff_keeps_iff List.prefix_refl (fun _ _ _ hpq hqr => hpq.trans hqr)
    inherits_placedFor file

end GitWalk

/-! ## A directory that is included again -/

/-- `*.log` -/
def logsPattern : GitPattern where
  negated := false
  leadingSlash := false
  levels := [.segment [.star, .literal '.', .literal 'l', .literal 'o', .literal 'g']]
  dirOnly := false
  ne_nil := List.cons_ne_nil _ _
  plain := by simp [GlobLevel.IsPlain, GlobChar.IsPlain, lineBoundaries]
  ne_stars := by simp
  opens := by decide
  closes := by
    intro c hc _
    have hg : 'g' = c := Option.some.inj hc
    exact hg ▸ by decide

/-- `!logs/` -/
def notLogsPattern : GitPattern where
  negated := true
  leadingSlash := false
  levels := [.segment [.literal 'l', .literal 'o', .literal 'g', .literal 's']]
  dirOnly := true
  ne_nil := List.cons_ne_nil _ _
  plain := by simp [GlobLevel.IsPlain, GlobChar.IsPlain, lineBoundaries]
  ne_stars := by simp
  opens := by simp
  closes := by simp

/-- The lines of the `.gitignore` at the root, and none elsewhere. -/
def logsLines (path : RepoPath) : List GitLine :=
  if path = [] then [.pattern logsPattern, .pattern notLogsPattern] else []

/-- The name `logs`. -/
def logsName : FileName :=
  ⟨['l', 'o', 'g', 's'], by decide, by decide⟩

/-- The name `x.log`. -/
def logName : FileName :=
  ⟨['x', '.', 'l', 'o', 'g'], by decide, by decide⟩

/-- The file `x.log` in the directory `logs`, below that `.gitignore`. -/
def logsEntries : RepoEntries :=
  [(gitignoreName, .file (utf8 (gitignoreText (logsLines []))) 0),
    (logsName, .dir (some [(logName, .file [] 0)]))]

theorem hasLines_logsEntries :
    ∀ d inner, (d, inner) ∈ (RepoTree.directory (some logsEntries)).directories →
      HasLines inner (logsLines d) := by
  intro d inner hmem
  have hcases : (d, inner) = ([], logsEntries) ∨ (d, inner) = ([logsName], [(logName, .file [] 0)]) := by
    simpa [RepoTree.directories, nodeDirectories, entriesDirectories, logsEntries] using hmem
  rcases hcases with heq | heq
  · cases heq
    exact ⟨_, rfl, Or.inl rfl⟩
  · cases heq
    rfl

theorem distinctNames_logsEntries :
    (RepoTree.directory (some logsEntries)).DistinctNames := by
  have hnames : [gitignoreName, logsName].Nodup := by decide
  have hinner : nodeDistinct (.dir (some [(logName, .file [] 0)])) :=
    ⟨List.nodup_singleton _, trivial, trivial⟩
  exact ⟨hnames, trivial, hinner, trivial⟩

theorem not_skipped_logsFile :
    ∀ d name, d ++ [name] <+: [logsName, logName] → d ++ [name] ≠ [logsName, logName] →
      shouldSkipRepoDir plainRoot d name = false := by
  intro d name hprefix hne
  cases d with
  | nil =>
      obtain ⟨rfl, -⟩ := List.cons_prefix_cons.mp hprefix
      have hword : isWord skipDirNames (plainRoot.lower logsName.text) = false := by
        rw [← Bool.not_eq_true, isWord_iff]
        change "logs" ∉ skipDirNames
        simp [skipDirNames]
      rw [shouldSkipRepoDir, hword]
      decide
  | cons first d =>
      obtain ⟨rfl, hrest⟩ := List.cons_prefix_cons.mp hprefix
      cases d with
      | nil =>
          obtain ⟨rfl, -⟩ := List.cons_prefix_cons.mp hrest
          exact absurd rfl hne
      | cons second d =>
          obtain ⟨-, hnil⟩ := List.cons_prefix_cons.mp hrest
          exact absurd (List.prefix_nil.mp hnil) (by simp)

theorem noNewlines_logsFile :
    NoNewlines [logsName, logName] := by
  unfold NoNewlines
  decide

/-- For `logs/x.log` below a `.gitignore` of `*.log` and `!logs/`. -/
theorem walk_ignores_what_git_ignores_iff_logs :
    ([logsName, logName] ∈ walkedFiles (iterRepoBucketFiles plainRoot loadGitignoreMatcher [] []
        (.dir (some logsEntries))) ↔ GitKeeps logsLines [logsName, logName]) ↔
      (∃ q, q <+: [logsName, logName] ∧ IgnoredForGood logsLines [logsName, logName] q) ∨
        ∀ q, q <+: [logsName, logName] → ¬ IncludedAgain logsLines [logsName, logName] q :=
  walk_ignores_what_git_ignores_iff distinctNames_logsEntries hasLines_logsEntries rfl
    not_skipped_logsFile noNewlines_logsFile

/-- The walk yields `logs/x.log`, which git ignores. -/
theorem walk_yields_what_git_ignores :
    (RepoTree.directory (some logsEntries)).DistinctNames ∧
      (∀ d inner, (d, inner) ∈ (RepoTree.directory (some logsEntries)).directories →
        HasLines inner (logsLines d)) ∧
      (∀ d name, d ++ [name] <+: [logsName, logName] → d ++ [name] ≠ [logsName, logName] →
        shouldSkipRepoDir plainRoot d name = false) ∧
      [logsName, logName] ∈ walkedFiles (iterRepoBucketFiles plainRoot loadGitignoreMatcher [] []
        (.dir (some logsEntries))) ∧
      ¬ GitKeeps logsLines [logsName, logName] := by
  refine ⟨distinctNames_logsEntries, hasLines_logsEntries, not_skipped_logsFile, ?_, ?_⟩
  · rw [bucketFiles_eq_of_hasLines hasLines_logsEntries]
    have hstack : DecideAlike (pushMatcher [] (matcherAt logsLines []))
        (matchersAt (matcherAt logsLines) []) := decideAlike_pushMatcher [] _
    refine (mem_walkedFiles_bucket_iff hstack distinctNames_logsEntries
      not_skipped_logsFile).mpr ⟨rfl, ?_⟩
    intro u hne hu
    have hcases : u = [] ∨ ∃ t, u = logsName :: t ∧ (t = [] ∨ t = [logName]) := by
      simpa [List.prefix_cons_iff] using hu
    rcases hcases with rfl | ⟨t, rfl, rfl | rfl⟩
    · exact absurd rfl hne
    · decide
    · decide
  rintro ⟨-, hfile⟩
  revert hfile
  decide

end RepoMap
end TensorGrep
