import TensorGrep.Kernel.JoinedFields
import TensorGrep.RepoMap.ContextPacking

/-!
# The identity of a dirty worktree

`git status -z` ends every field with a NUL character.  The fields are read back as pairs of
a status and a path, the pairs in excluded directories are dropped, and the identity is a
digest of the sorted lines that the other pairs make.

The lines are joined by line feeds although a path may contain one, the output is read in
text mode, and a path above an excluded directory is dropped even if it is not an untracked
directory.  `dirtyIdentity_separates` says that otherwise the digest tells worktrees apart.
-/

namespace TensorGrep
namespace Evidence

open Kernel
open RepoMap (stripSpace)

/-! ## Reading the output of git -/

/-- The character behind every field. -/
def nul : Char := '\x00'

/-- What is in front of the first occurrence of a text. -/
def beforeFirst (separator : Text) : Text → Text
  | [] => []
  | c :: rest => if separator.isPrefixOf (c :: rest) then [] else c :: beforeFirst separator rest

/-- `_parse_branch_header`. -/
def parseBranchHeader (headerText : Text) : Option Text :=
  let text := stripSpace headerText
  if "No commits yet on ".toList.isPrefixOf text then
    let branch := stripSpace (text.drop "No commits yet on ".toList.length)
    if branch = [] then none else some branch
  else if text = "HEAD (no branch)".toList then none
  else
    let localName := stripSpace (beforeFirst [' '] (beforeFirst "...".toList text))
    if localName = [] then none else some localName

/-- A status of a rename or of a copy: the field behind it is the original path. -/
def hasOrigPath (status : Text) : Bool :=
  status.any fun c => c = 'R' ∨ c = 'C'

/-- The loop of `_parse_porcelain_z` over the tokens, with the branch so far; the token behind that
of a rename or of a copy is skipped. -/
def parseTokens : Option Text → Bool → List Text → Option Text × List (Text × Text)
  | branch, _, [] => (branch, [])
  | branch, true, _ :: rest => parseTokens branch false rest
  | branch, false, token :: rest =>
      if token = [] then parseTokens branch false rest
      else if "## ".toList.isPrefixOf token then
        parseTokens (parseBranchHeader (token.drop 3)) false rest
      else if token.length < 3 then parseTokens branch false rest
      else
        let later := parseTokens branch (hasOrigPath (token.take 2)) rest
        (later.1, (token.take 2, token.drop 3) :: later.2)

/-- `_parse_porcelain_z`. -/
def parsePorcelainZ (raw : Text) : Option Text × List (Text × Text) :=
  let tokens := raw.splitOn nul
  parseTokens none false (if tokens.getLast? = some [] then tokens.dropLast else tokens)

/-- `str.strip("/")`. -/
def stripSlashes (path : Text) : Text :=
  (path.dropWhile fun c => c = '/').rdropWhile fun c => c = '/'

/-- A path is equal to an excluded one or below it. -/
def belowExcluded (path excluded : Text) : Bool :=
  path = excluded || (excluded ++ ['/']).isPrefixOf path

/-- `_path_excluded`. -/
def pathExcluded
    (path : Text)
    (excludePrefixes : List Text) : Bool :=
  excludePrefixes.any fun p =>
    stripSlashes p ≠ [] &&
      (belowExcluded (stripSlashes path) (stripSlashes p) ||
        (stripSlashes path ++ ['/']).isPrefixOf (stripSlashes p))

/-! ## The identity -/

/-- What comes of running git. -/
inductive GitRun where
  | couldNotRun (exc : Text)
  | ended (returncode : ℤ) (stdout stderr : Text)

/-- The status half of `_repo_revision_identity`. -/
inductive RevisionIdentity where
  | unavailable (reason : Text)
  | present (commitSha : Text) (branch : Option Text) (dirty : Bool) (dirtyTreeSha256 : Text)
      (dirtyFileCount : ℕ)
deriving DecidableEq

/-- `_last_stderr_line`. -/
def lastStderrLine (stderr : Text) : Text :=
  ((splitlines (stripSpace stderr)).getLast?).getD
    "git exited non-zero with no stderr output".toList

/-- The line that a pair of a status and a path makes. -/
def dirtyLine (entry : Text × Text) : Text :=
  entry.1 ++ ' ' :: entry.2

/-- The text that is digested. -/
def dirtyText (dirtyLines : List Text) : Text :=
  ['\n'].intercalate (sortByKey id dirtyLines)

/-- `_repo_revision_identity_excluding`, where `sha256` is the digest in hex and git's output is
read in text mode. -/
def repoRevisionIdentityExcluding
    (sha256 : Bytes → Text)
    (commitSha : Text)
    (statusResult : GitRun)
    (excludePrefixes : List Text) : RevisionIdentity :=
  match statusResult with
  | .couldNotRun exc => .unavailable ("git status could not run: ".toList ++ exc)
  | .ended returncode stdout stderr =>
      if returncode ≠ 0 then .unavailable (lastStderrLine (universalNewlines stderr))
      else
        let parsed := parsePorcelainZ (universalNewlines stdout)
        let dirtyLines :=
          (parsed.2.filter fun entry => !pathExcluded entry.2 excludePrefixes).map dirtyLine
        .present commitSha parsed.1 (!dirtyLines.isEmpty) (sha256 (utf8 (dirtyText dirtyLines)))
          dirtyLines.length

/-- The digest of an identity that is known. -/
def RevisionIdentity.dirtyTreeSha256? : RevisionIdentity → Option Text
  | .unavailable _ => none
  | .present _ _ _ dirtyTreeSha256 _ => some dirtyTreeSha256

/-! ## What git writes -/

/-- The letters of a status. -/
def statusLetters : List Char :=
  " MTADRCU?!".toList

/-- A record of a status.  The original path is written for renames and copies only. -/
structure StatusRecord where
  index : Char
  worktree : Char
  path : Text
  origPath : Text
  index_mem : index ∈ statusLetters
  worktree_mem : worktree ∈ statusLetters
  path_noNul : nul ∉ path
  origPath_noNul : nul ∉ origPath

namespace StatusRecord

variable (r : StatusRecord)

/-- The two letters. -/
def status : Text :=
  [r.index, r.worktree]

/-- The pair of the status and the path. -/
def pair : Text × Text :=
  (r.status, r.path)

/-- The fields that are written for a record. -/
def tokens : List Text :=
  (r.status ++ ' ' :: r.path) :: if hasOrigPath r.status then [r.origPath] else []

end StatusRecord

/-- What `git status -b -z` writes. -/
def encodeStatus
    (header : Text)
    (records : List StatusRecord) : Text :=
  (("## ".toList ++ header) :: records.flatMap StatusRecord.tokens).flatMap (· ++ [nul])

/-! ## The records are read back -/

section Parsing

theorem letter_ne
    {c : Char}
    (h : c ∈ statusLetters) :
    c ≠ '#' ∧ c ≠ nul ∧ c ≠ '\r' ∧ c ≠ '\n' := by
  have hall : (statusLetters.all fun c => c ≠ '#' ∧ c ≠ nul ∧ c ≠ '\r' ∧ c ≠ '\n') = true := by
    decide
  simpa using List.all_eq_true.mp hall c h

theorem StatusRecord.nul_notMem_tokens
    (r : StatusRecord) :
    ∀ token ∈ r.tokens, nul ∉ token := by
  have hpath : nul ∉ r.status ++ ' ' :: r.path := by
    have hindex := (letter_ne r.index_mem).2.1.symm
    have hworktree := (letter_ne r.worktree_mem).2.1.symm
    have hspace : nul ≠ ' ' := by decide
    simp [StatusRecord.status, hindex, hworktree, hspace, r.path_noNul]
  intro token htoken
  rw [StatusRecord.tokens] at htoken
  rcases List.mem_cons.mp htoken with rfl | htoken
  · exact hpath
  · split_ifs at htoken with horig
    · rw [List.mem_singleton.mp htoken]
      exact r.origPath_noNul
    · cases htoken

/-- The fields of a record are read as its pair. -/
theorem parseTokens_record
    (branch : Option Text)
    (r : StatusRecord)
    (rest : List Text) :
    parseTokens branch false (r.tokens ++ rest) =
      ((parseTokens branch false rest).1, r.pair :: (parseTokens branch false rest).2) := by
  have hheader : "## ".toList.isPrefixOf (r.status ++ ' ' :: r.path) = false := by
    rw [Bool.eq_false_iff, Ne, List.isPrefixOf_iff_prefix]
    intro hprefix
    exact (letter_ne r.index_mem).1 (List.cons_prefix_cons.mp hprefix).1.symm
  have hlong : ¬ (r.status ++ ' ' :: r.path).length < 3 := by
    simp [StatusRecord.status]
  have hempty : r.status ++ ' ' :: r.path ≠ [] := by
    simp
  have hstatus : (r.status ++ ' ' :: r.path).take 2 = r.status := rfl
  have hpath : (r.status ++ ' ' :: r.path).drop 3 = r.path := rfl
  rw [StatusRecord.tokens, List.cons_append, parseTokens, if_neg hempty, hheader,
    if_neg Bool.false_ne_true, if_neg hlong, hstatus, hpath]
  cases horig : hasOrigPath r.status with
  | true => rfl
  | false => rfl

theorem parseTokens_records
    (branch : Option Text)
    (records : List StatusRecord) :
    parseTokens branch false (records.flatMap StatusRecord.tokens) =
      (branch, records.map StatusRecord.pair) := by
  induction records with
  | nil => rfl
  | cons r records ih => rw [List.flatMap_cons, parseTokens_record, ih, List.map_cons]

/-- The records are read back, and so is the branch. -/
theorem parsePorcelainZ_encodeStatus
    {header : Text}
    (hheader : nul ∉ header)
    (records : List StatusRecord) :
    parsePorcelainZ (encodeStatus header records) =
      (parseBranchHeader header, records.map StatusRecord.pair) := by
  have htokens : ∀ token ∈ ("## ".toList ++ header) :: records.flatMap StatusRecord.tokens,
      nul ∉ token := by
    intro token htoken
    rcases List.mem_cons.mp htoken with rfl | htoken
    · have hmark : nul ∉ "## ".toList := by decide
      exact fun hmem => (List.mem_append.mp hmem).elim hmark hheader
    · obtain ⟨r, -, htoken⟩ := List.mem_flatMap.mp htoken
      exact r.nul_notMem_tokens token htoken
  have hmarked : "## ".toList.isPrefixOf ("## ".toList ++ header) = true :=
    List.isPrefixOf_iff_prefix.mpr (List.prefix_append _ _)
  have hnonempty : "## ".toList ++ header ≠ [] := by
    simp
  have hcut : ("## ".toList ++ header).drop 3 = header := rfl
  rw [parsePorcelainZ, encodeStatus, splitOn_flatMap_concat htokens]
  simp only [List.getLast?_concat, if_true, List.dropLast_concat]
  rw [parseTokens, if_neg hnonempty, if_pos hmarked, hcut, parseTokens_records]

end Parsing

/-! ## Which entries are left out -/

/-- An untracked directory stands for everything below it. -/
def UntrackedDirectory (entry : Text × Text) : Prop :=
  entry.1 = "??".toList ∧ entry.2.getLast? = some '/'

instance : DecidablePred UntrackedDirectory := fun entry =>
  inferInstanceAs (Decidable (entry.1 = "??".toList ∧ entry.2.getLast? = some '/'))

/-- The path of an entry is equal to an excluded one or below it, or the entry is an untracked
directory above an excluded path. -/
def Excluded
    (excludePrefixes : List Text)
    (entry : Text × Text) : Prop :=
  ∃ p ∈ excludePrefixes, stripSlashes p ≠ [] ∧
    (belowExcluded (stripSlashes entry.2) (stripSlashes p) = true ∨
      UntrackedDirectory entry ∧ stripSlashes entry.2 ++ ['/'] <+: stripSlashes p)

instance (excludePrefixes : List Text) : DecidablePred (Excluded excludePrefixes) := fun entry =>
  inferInstanceAs (Decidable (∃ p ∈ excludePrefixes, stripSlashes p ≠ [] ∧
    (belowExcluded (stripSlashes entry.2) (stripSlashes p) = true ∨
      UntrackedDirectory entry ∧ stripSlashes entry.2 ++ ['/'] <+: stripSlashes p)))

/-- The entries that are not excluded. -/
def keptPairs
    (excludePrefixes : List Text)
    (records : List StatusRecord) : List (Text × Text) :=
  (records.map StatusRecord.pair).filter fun entry => ¬ Excluded excludePrefixes entry

/-- The code leaves a record out, by its path as read, if and only if it is excluded, and the path
of a record that is kept has no line end. -/
def Separable
    (excludePrefixes : List Text)
    (r : StatusRecord) : Prop :=
  (pathExcluded (universalNewlines r.path) excludePrefixes = true ↔
      Excluded excludePrefixes r.pair) ∧
    (¬ Excluded excludePrefixes r.pair → '\n' ∉ r.path ∧ '\r' ∉ r.path)

/-- A commit and what `git status` writes there. -/
structure Worktree where
  commitSha : Text
  header : Text
  records : List StatusRecord
  stderr : Text
  header_noNul : nul ∉ header

/-- The digest of the worktree's identity. -/
def Worktree.digest
    (sha256 : Bytes → Text)
    (excludePrefixes : List Text)
    (w : Worktree) : Option Text :=
  (repoRevisionIdentityExcluding sha256 w.commitSha
    (.ended 0 (encodeStatus w.header w.records) w.stderr) excludePrefixes).dirtyTreeSha256?

/-! ## What is digested -/

/-- A record as it is read in text mode. -/
def StatusRecord.read (r : StatusRecord) : StatusRecord where
  index := r.index
  worktree := r.worktree
  path := universalNewlines r.path
  origPath := universalNewlines r.origPath
  index_mem := r.index_mem
  worktree_mem := r.worktree_mem
  path_noNul := fun h => r.path_noNul ((mem_universalNewlines_iff (by decide)).mp h).1
  origPath_noNul := fun h => r.origPath_noNul ((mem_universalNewlines_iff (by decide)).mp h).1

/-- The lines of the records that the code keeps. -/
def keptLines
    (excludePrefixes : List Text)
    (records : List StatusRecord) : List Text :=
  ((records.map fun r => r.read.pair).filter fun entry =>
    !pathExcluded entry.2 excludePrefixes).map dirtyLine

section Digested

variable {excludePrefixes : List Text}

theorem universalNewlines_fields
    (fields : List Text) :
    universalNewlines (fields.flatMap (· ++ [nul])) =
      (fields.map universalNewlines).flatMap (· ++ [nul]) := by
  induction fields with
  | nil => rfl
  | cons field rest ih =>
      rw [List.flatMap_cons, List.append_assoc, List.singleton_append,
        universalNewlines_append_cons (by decide) (by decide), ih, List.map_cons, List.flatMap_cons,
        List.append_assoc, List.singleton_append]

theorem universalNewlines_status_append
    (r : StatusRecord)
    (t : Text) :
    universalNewlines (r.status ++ ' ' :: t) = r.status ++ ' ' :: universalNewlines t := by
  have hindex := (letter_ne r.index_mem).2.2.1
  have hworktree := (letter_ne r.worktree_mem).2.2.1
  rw [StatusRecord.status, List.cons_append, List.cons_append, List.nil_append,
    universalNewlines_cons_of_ne hindex, universalNewlines_cons_of_ne hworktree,
    universalNewlines_cons_of_ne (by decide)]
  rfl

theorem map_universalNewlines_tokens
    (r : StatusRecord) :
    r.tokens.map universalNewlines = r.read.tokens := by
  have hstatus : r.read.status = r.status := rfl
  rw [StatusRecord.tokens, StatusRecord.tokens, hstatus, List.map_cons,
    universalNewlines_status_append]
  split_ifs <;> rfl

/-- In text mode the records are read one by one. -/
theorem universalNewlines_encodeStatus
    (header : Text)
    (records : List StatusRecord) :
    universalNewlines (encodeStatus header records) =
      encodeStatus (universalNewlines header) (records.map StatusRecord.read) := by
  have hmark : universalNewlines ("## ".toList ++ header) =
      "## ".toList ++ universalNewlines header := by
    have hcons : "## ".toList = ['#', '#', ' '] := rfl
    rw [hcons, List.cons_append, List.cons_append, List.cons_append,
      universalNewlines_cons_of_ne (by decide), universalNewlines_cons_of_ne (by decide),
      universalNewlines_cons_of_ne (by decide)]
    rfl
  have htokens : (records.flatMap StatusRecord.tokens).map universalNewlines =
      (records.map StatusRecord.read).flatMap StatusRecord.tokens := by
    rw [List.map_flatMap, List.flatMap_map]
    exact List.flatMap_congr fun r _ => map_universalNewlines_tokens r
  rw [encodeStatus, encodeStatus, universalNewlines_fields, List.map_cons, hmark, htokens]

/-- The digest is that of the lines. -/
theorem digest_eq
    (sha256 : Bytes → Text)
    (w : Worktree) :
    w.digest sha256 excludePrefixes =
      some (sha256 (utf8 (dirtyText (keptLines excludePrefixes w.records)))) := by
  have hheader : nul ∉ universalNewlines w.header := fun h =>
    w.header_noNul ((mem_universalNewlines_iff (by decide)).mp h).1
  rw [Worktree.digest, repoRevisionIdentityExcluding]
  simp only [ne_eq, not_true_eq_false, if_false, universalNewlines_encodeStatus,
    parsePorcelainZ_encodeStatus hheader, List.map_map]
  rfl

/-- Lines that are not empty and have no line feed tell the lists apart, up to their order. -/
theorem dirtyText_eq_iff
    {lines lines' : List Text}
    (h : ∀ line ∈ lines, line ≠ [] ∧ '\n' ∉ line)
    (h' : ∀ line ∈ lines', line ≠ [] ∧ '\n' ∉ line) :
    dirtyText lines = dirtyText lines' ↔ lines.Perm lines' := by
  rw [dirtyText, dirtyText, intercalate_eq_iff (fun line hline => h line (mem_sortByKey.mp hline))
    fun line hline => h' line (mem_sortByKey.mp hline)]
  constructor
  · intro heq
    exact (perm_sortByKey id lines).symm.trans (heq ▸ perm_sortByKey id lines')
  · exact sortByKey_eq_of_perm Function.injective_id

/-- One more line makes the text longer. -/
theorem dirtyText_cons_ne
    {line : Text}
    (hline : line ≠ [])
    {lines lines' : List Text}
    (hperm : lines.Perm (line :: lines')) :
    dirtyText lines ≠ dirtyText lines' := by
  have hpos := List.length_pos_of_ne_nil hline
  have hlong := (@length_intercalate _ '\n' (sortByKey id lines)).2
  have hshort := (@length_intercalate _ '\n' (sortByKey id lines')).1
  have hsum := (((perm_sortByKey id lines).trans hperm).map
    fun field : List Char => field.length + 1).sum_eq
  have hsum' := ((perm_sortByKey id lines').map fun field : List Char => field.length + 1).sum_eq
  rw [List.map_cons, List.sum_cons] at hsum
  intro heq
  have hlength := congrArg List.length heq
  rw [dirtyText, dirtyText] at hlength
  omega

end Digested

/-! ## Which worktrees the digest tells apart -/

section Separation

variable {excludePrefixes : List Text}

theorem StatusRecord.read_eq_self
    {r : StatusRecord}
    (h : '\r' ∉ r.path) :
    r.read.pair = r.pair := by
  rw [StatusRecord.pair, StatusRecord.pair]
  exact congrArg _ (universalNewlines_of_not_mem h)

/-- Separable records give the lines of the entries that are not excluded. -/
theorem keptLines_of_separable
    {records : List StatusRecord}
    (h : ∀ r ∈ records, Separable excludePrefixes r) :
    keptLines excludePrefixes records = (keptPairs excludePrefixes records).map dirtyLine := by
  induction records with
  | nil => rfl
  | cons r records ih =>
      have hrest := ih fun r' hr' => h r' (List.mem_cons_of_mem r hr')
      obtain ⟨hexact, hplain⟩ := h r List.mem_cons_self
      rw [keptLines, keptPairs] at hrest ⊢
      rw [List.map_cons, List.map_cons, List.filter_cons, List.filter_cons]
      by_cases hexcluded : Excluded excludePrefixes r.pair
      · have hleft : pathExcluded r.read.pair.2 excludePrefixes = true := hexact.mpr hexcluded
        rw [hleft, if_neg (by simp), if_neg (by simpa using hexcluded), hrest]
      · have hkept : pathExcluded r.read.pair.2 excludePrefixes = false :=
          Bool.eq_false_iff.mpr fun hleft => hexcluded (hexact.mp hleft)
        rw [hkept, if_pos (by rfl), if_pos (by simpa using hexcluded), List.map_cons, List.map_cons,
          hrest, StatusRecord.read_eq_self (hplain hexcluded).2]

theorem mem_keptPairs_iff
    {records : List StatusRecord}
    {entry : Text × Text} :
    entry ∈ keptPairs excludePrefixes records ↔
      (∃ r ∈ records, r.pair = entry) ∧ ¬ Excluded excludePrefixes entry := by
  rw [keptPairs, List.mem_filter, List.mem_map, decide_eq_true_iff]

/-- The lines of separable records are not empty and have no line feed. -/
theorem line_of_separable
    {records : List StatusRecord}
    (h : ∀ r ∈ records, Separable excludePrefixes r) :
    ∀ line ∈ (keptPairs excludePrefixes records).map dirtyLine, line ≠ [] ∧ '\n' ∉ line := by
  intro line hline
  obtain ⟨entry, hentry, rfl⟩ := List.mem_map.mp hline
  obtain ⟨⟨r, hr, rfl⟩, hkept⟩ := mem_keptPairs_iff.mp hentry
  have hindex := (letter_ne r.index_mem).2.2.2.symm
  have hworktree := (letter_ne r.worktree_mem).2.2.2.symm
  have hspace : '\n' ≠ ' ' := by decide
  have hpath := ((h r hr).2 hkept).1
  constructor
  · simp [dirtyLine]
  · simp [dirtyLine, StatusRecord.pair, StatusRecord.status, hindex, hworktree, hspace, hpath]

/-- The lines of entries tell the entries apart. -/
theorem map_dirtyLine_perm_iff
    {records records' : List StatusRecord} :
    ((keptPairs excludePrefixes records).map dirtyLine).Perm
        ((keptPairs excludePrefixes records').map dirtyLine) ↔
      (keptPairs excludePrefixes records).Perm (keptPairs excludePrefixes records') := by
  have hback : ∀ records : List StatusRecord,
      ((keptPairs excludePrefixes records).map dirtyLine).map
        (fun line => (line.take 2, line.drop 3)) = keptPairs excludePrefixes records := by
    intro records
    rw [List.map_map]
    refine (List.map_congr_left fun entry hentry => ?_).trans (List.map_id _)
    obtain ⟨⟨r, -, rfl⟩, -⟩ := mem_keptPairs_iff.mp hentry
    rfl
  refine ⟨fun hperm => ?_, fun hperm => hperm.map dirtyLine⟩
  have hperm' := hperm.map fun line => (line.take 2, line.drop 3)
  rwa [hback, hback] at hperm'

/-- The digests of separable records agree if and only if the entries outside the excluded
directories do. -/
theorem digest_eq_iff_of_separable
    {sha256 : Bytes → Text}
    (hsha : Function.Injective fun t : Text => sha256 (utf8 t))
    {w w' : Worktree}
    (h : ∀ r ∈ w.records, Separable excludePrefixes r)
    (h' : ∀ r ∈ w'.records, Separable excludePrefixes r) :
    w.digest sha256 excludePrefixes = w'.digest sha256 excludePrefixes ↔
      (keptPairs excludePrefixes w.records).Perm (keptPairs excludePrefixes w'.records) := by
  rw [digest_eq, digest_eq, Option.some_inj, keptLines_of_separable h, keptLines_of_separable h',
    ← map_dirtyLine_perm_iff, ← dirtyText_eq_iff (line_of_separable h) (line_of_separable h')]
  exact hsha.eq_iff

/-! ### A record that is not separable -/

/-- The worktree with other records. -/
def Worktree.withRecords
    (w : Worktree)
    (records : List StatusRecord) : Worktree :=
  { w with records := records }

theorem keptPairs_perm
    {records records' : List StatusRecord}
    (h : records.Perm records') :
    (keptPairs excludePrefixes records).Perm (keptPairs excludePrefixes records') :=
  (h.map _).filter _

theorem keptPairs_cons
    (r : StatusRecord)
    (records : List StatusRecord) :
    keptPairs excludePrefixes (r :: records) =
      if Excluded excludePrefixes r.pair then keptPairs excludePrefixes records
      else r.pair :: keptPairs excludePrefixes records := by
  rw [keptPairs, List.map_cons, List.filter_cons]
  by_cases h : Excluded excludePrefixes r.pair
  · rw [if_neg (by simpa using h), if_pos h, keptPairs]
  · rw [if_pos (by simpa using h), if_neg h, keptPairs]

theorem keptLines_cons
    (r : StatusRecord)
    (records : List StatusRecord) :
    keptLines excludePrefixes (r :: records) =
      if pathExcluded (universalNewlines r.path) excludePrefixes then
        keptLines excludePrefixes records
      else dirtyLine r.read.pair :: keptLines excludePrefixes records := by
  have hpath : r.read.pair.2 = universalNewlines r.path := rfl
  rw [keptLines, List.map_cons, List.filter_cons, hpath]
  cases pathExcluded (universalNewlines r.path) excludePrefixes <;> rfl

/-- The order of the records does not matter to the digest. -/
theorem digest_of_perm
    {w w' : Worktree}
    (h : w.records.Perm w'.records)
    (sha256 : Bytes → Text) :
    w.digest sha256 excludePrefixes = w'.digest sha256 excludePrefixes := by
  have hlines : (keptLines excludePrefixes w.records).Perm
      (keptLines excludePrefixes w'.records) :=
    ((h.map _).filter _).map _
  rw [digest_eq, digest_eq, dirtyText, dirtyText,
    sortByKey_eq_of_perm Function.injective_id hlines]

/-- A worktree with a record that is not separable is taken for another one, or is told apart from
one with the same entries. -/
theorem exists_confused
    {sha256 : Bytes → Text}
    (hsha : Function.Injective fun t : Text => sha256 (utf8 t))
    {w : Worktree}
    {r : StatusRecord}
    (hr : r ∈ w.records)
    (h : ¬ Separable excludePrefixes r) :
    ∃ w' : Worktree, ¬ (w.digest sha256 excludePrefixes = w'.digest sha256 excludePrefixes ↔
      (keptPairs excludePrefixes w.records).Perm (keptPairs excludePrefixes w'.records)) := by
  obtain ⟨before, after, hrecords⟩ := List.append_of_mem hr
  have hperm : w.records.Perm (r :: (before ++ after)) := hrecords ▸ List.perm_middle
  have hpairs := @keptPairs_perm excludePrefixes _ _ hperm
  have hdigest := @digest_of_perm excludePrefixes w (w.withRecords (r :: (before ++ after))) hperm
    sha256
  have hlines := @keptLines_cons excludePrefixes r (before ++ after)
  rw [keptPairs_cons] at hpairs
  by_cases hleft : pathExcluded (universalNewlines r.path) excludePrefixes = true
  · by_cases hexcluded : Excluded excludePrefixes r.pair
    · exact absurd ⟨iff_of_true hleft hexcluded, fun hkept => absurd hexcluded hkept⟩ h
    · -- the record is lost, so the worktree without it has the same digest
      refine ⟨w.withRecords (before ++ after), fun hiff => ?_⟩
      rw [if_neg hexcluded] at hpairs
      rw [if_pos hleft] at hlines
      have hsame := hiff.mp (hdigest.trans (by
        rw [digest_eq, digest_eq, Worktree.withRecords, Worktree.withRecords, hlines]))
      exact absurd (hpairs.symm.trans hsame).length_eq (Nat.succ_ne_self _)
  · by_cases hexcluded : Excluded excludePrefixes r.pair
    · -- the record is excluded, but it makes a line
      refine ⟨w.withRecords (before ++ after), fun hiff => ?_⟩
      rw [if_pos hexcluded] at hpairs
      rw [if_neg hleft] at hlines
      have hsame := hdigest.symm.trans (hiff.mpr hpairs)
      rw [digest_eq, digest_eq, Worktree.withRecords, Worktree.withRecords, hlines,
        Option.some_inj] at hsame
      exact dirtyText_cons_ne (List.append_ne_nil_of_right_ne_nil _ (List.cons_ne_nil _ _))
        (List.Perm.refl _) (hsha hsame)
    · -- another path is read as the same one
      have hfeed : '\n' ∈ r.path ∨ '\r' ∈ r.path := by
        by_contra hplain
        rw [not_or] at hplain
        exact h ⟨iff_of_false hleft hexcluded, fun _ => hplain⟩
      obtain ⟨path, hne, hread, hmem⟩ := exists_ne_of_newline hfeed
      have hnoNul : nul ∉ path := by
        intro hc
        rcases hmem nul hc with hc | hc | hc
        · exact r.path_noNul hc
        · exact absurd hc (by decide)
        · exact absurd hc (by decide)
      let r' : StatusRecord := { r with path := path, path_noNul := hnoNul }
      refine ⟨w.withRecords (r' :: (before ++ after)), fun hiff => ?_⟩
      have hlines' := @keptLines_cons excludePrefixes r' (before ++ after)
      have hpair : r'.read.pair = r.read.pair := congrArg (Prod.mk r.status) hread
      have hpath : universalNewlines r'.path = universalNewlines r.path := hread
      rw [hpath, hpair, ← hlines] at hlines'
      have hsame := hpairs.symm.trans (hiff.mp (hdigest.trans (by
        rw [digest_eq, digest_eq, Worktree.withRecords, Worktree.withRecords, hlines'])))
      have hcount := hsame.count_eq r.pair
      have hother : r'.pair ≠ r.pair := fun heq => hne (congrArg Prod.snd heq)
      rw [if_neg hexcluded, Worktree.withRecords, keptPairs_cons, List.count_cons_self] at hcount
      split_ifs at hcount with hexcluded'
      · exact absurd hcount (Nat.succ_ne_self _)
      · rw [List.count_cons_of_ne hother] at hcount
        exact absurd hcount (Nat.succ_ne_self _)

/-- The records and the branch are read back.  Where every record is separable, the digests agree if
and only if the entries outside the excluded directories do; a worktree with another record is
confused with some other worktree. -/
theorem dirtyIdentity_separates
    {sha256 : Bytes → Text}
    (hsha : Function.Injective fun t : Text => sha256 (utf8 t))
    (excludePrefixes : List Text) :
    (∀ (header : Text) (records : List StatusRecord), nul ∉ header →
      parsePorcelainZ (encodeStatus header records) =
        (parseBranchHeader header, records.map StatusRecord.pair)) ∧
      (∀ w w' : Worktree, (∀ r ∈ w.records, Separable excludePrefixes r) →
        (∀ r ∈ w'.records, Separable excludePrefixes r) →
        (w.digest sha256 excludePrefixes = w'.digest sha256 excludePrefixes ↔
          (keptPairs excludePrefixes w.records).Perm (keptPairs excludePrefixes w'.records))) ∧
      ∀ w : Worktree, (∃ r ∈ w.records, ¬ Separable excludePrefixes r) →
        ∃ w' : Worktree, ¬ (w.digest sha256 excludePrefixes = w'.digest sha256 excludePrefixes ↔
          (keptPairs excludePrefixes w.records).Perm
            (keptPairs excludePrefixes w'.records)) := by
  refine ⟨fun header records hheader => parsePorcelainZ_encodeStatus hheader records,
    fun w w' h h' => digest_eq_iff_of_separable hsha h h', ?_⟩
  rintro w ⟨r, hr, h⟩
  exact exists_confused hsha hr h

/-- The record of an untracked path. -/
def untracked
    (path : Text)
    (h : nul ∉ path) : StatusRecord where
  index := '?'
  worktree := '?'
  path := path
  origPath := []
  index_mem := by decide
  worktree_mem := by decide
  path_noNul := h
  origPath_noNul := List.not_mem_nil

/-- A worktree on the branch `main`. -/
def onMain (records : List StatusRecord) : Worktree where
  commitSha := "c0ffee".toList
  header := "main".toList
  records := records
  stderr := []
  header_noNul := by decide

/-- The untracked path `a`. -/
def untrackedA : StatusRecord :=
  untracked ['a'] (by decide)

/-- The untracked path `b`. -/
def untrackedB : StatusRecord :=
  untracked ['b'] (by decide)

/-- An untracked path with a line feed in it. -/
def untrackedLines : StatusRecord :=
  untracked "a\n?? b".toList (by decide)

/-- The order in which two paths are listed does not matter. -/
theorem dirtyIdentity_separates_two :
    (onMain [untrackedA, untrackedB]).digest (fun bytes => (fromUtf8 bytes).getD [])
        ["docs/code-map".toList] =
      (onMain [untrackedB, untrackedA]).digest (fun bytes => (fromUtf8 bytes).getD [])
        ["docs/code-map".toList] := by
  have hback : Function.Injective fun t : Text => (fromUtf8 (utf8 t)).getD [] := by
    intro t t' heq
    simpa [fromUtf8_utf8] using heq
  have hA : Separable ["docs/code-map".toList] untrackedA := ⟨by decide, by decide⟩
  have hB : Separable ["docs/code-map".toList] untrackedB := ⟨by decide, by decide⟩
  refine ((dirtyIdentity_separates hback ["docs/code-map".toList]).2.1 _ _ ?_ ?_).mpr
    (keptPairs_perm (List.Perm.swap _ _ _))
  · exact List.forall_mem_cons.mpr ⟨hA, List.forall_mem_singleton.mpr hB⟩
  · exact List.forall_mem_cons.mpr ⟨hB, List.forall_mem_singleton.mpr hA⟩

/-- One path with a line feed in it has the digest of two paths. -/
theorem newline_in_path_confused :
    (∀ sha256 : Bytes → Text, (onMain [untrackedLines]).digest sha256 [] =
        (onMain [untrackedA, untrackedB]).digest sha256 []) ∧
      ¬ (keptPairs [] [untrackedLines]).Perm (keptPairs [] [untrackedA, untrackedB]) := by
  have htext : dirtyText (keptLines [] [untrackedLines]) =
      dirtyText (keptLines [] [untrackedA, untrackedB]) := by
    decide
  constructor
  · intro sha256
    rw [digest_eq, digest_eq]
    exact congrArg (fun t => some (sha256 (utf8 t))) htext
  · intro hperm
    exact absurd hperm.length_eq (by decide)

end Separation

end Evidence
end TensorGrep
