import TensorGrep.Rewrite.Apply

/-!
# Planning rewrites

A plan comes from matching patterns against the source files of a language.
The parser and the matcher are not part of this repository: `AstGrep` stands
for them.  What is here is everything around them: which files are collected,
how a file is loaded, how matches become edits, how plans are assembled, and the
one-shot mode, which writes each file as soon as it has planned it.
-/

namespace TensorGrep
namespace Rewrite

open Kernel

variable {File : Type} [LinearOrder File]

/-! ## Languages and files -/

/-- The languages of the parser, as far as they are told apart. -/
inductive SupportLang where
  | python
  | javaScript
  | typeScript
  | rust
  | other (name : String)
deriving DecidableEq

/-- A match: its range in the source that was searched, its text, and the bytes that
`replace_by` inserts for a replacement. -/
structure AstMatch where
  range : ByteRange
  text : Text
  inserted : Text → Bytes

/-- The parser and the matcher.  `parseLang` reads the name of a language, `tryNew`
compiles a pattern unless it has an error, `findAll` searches a source. -/
structure AstGrep where
  Pattern : Type
  parseLang : String → Option SupportLang
  tryNew : String → SupportLang → Option Pattern
  findAll : SupportLang → Text → Pattern → List AstMatch

/-- The path that is searched: whether it exists, whether it is a file, and otherwise the
regular files below it that are neither hidden nor ignored, each once.  `extension` and
`fileName` are what the path functions of the standard library answer. -/
structure SearchRoot (File : Type) where
  present : Bool
  asFile : Option File
  walked : List File
  nodup : walked.Nodup
  extension : File → Option String
  fileName : File → Option String

/-- `resolve_language`. -/
def resolveLanguage
    (ag : AstGrep)
    (lang : String) : Except (RewriteError File) SupportLang :=
  match ag.parseLang lang with
  | some .python => .ok .python
  | some .javaScript => .ok .javaScript
  | some .typeScript => .ok .typeScript
  | some .rust => .ok .rust
  | _ => .error (.unsupportedLanguage lang)

/-- Compile a pattern; a parse error is an error. -/
def compilePattern
    (ag : AstGrep)
    (pattern : String)
    (language : SupportLang) : Except (RewriteError File) ag.Pattern :=
  match ag.tryNew pattern language with
  | some p => .ok p
  | none => .error .invalidPattern

/-- `file_matches_language`. -/
def fileMatchesLanguage
    (extension : Option String)
    (lang : SupportLang) : Bool :=
  match lang, extension with
  | .python, some ext => ext ∈ ["py", "py3", "pyi", "bzl"]
  | .javaScript, some ext => ext ∈ ["js", "jsx", "cjs", "mjs"]
  | .typeScript, some ext => ext ∈ ["ts", "cts", "mts"]
  | .rust, some ext => ext = "rs"
  | _, _ => false

/-- `collect_source_files`. -/
def collectSourceFiles
    (root : SearchRoot File)
    (lang : SupportLang) : Except (RewriteError File) (List File) :=
  if root.present then
    match root.asFile with
    | some file => .ok [file]
    | none => .ok (root.walked.filter (fun f => fileMatchesLanguage (root.extension f) lang))
  else .error .pathNotFound

/-- `collect_batch_source_files`. -/
def collectBatchSourceFiles
    (root : SearchRoot File)
    (lang : SupportLang) : Except (RewriteError File) (List File) :=
  if root.present then
    match root.asFile with
    | some file =>
        .ok (if fileMatchesLanguage (root.extension file) lang then [file] else [])
    | none => collectSourceFiles root lang
  else .error .pathNotFound

/-! ## Loading a file -/

/-- `MAX_REWRITE_FILE_BYTES`. -/
def maxRewriteFileBytes : Nat := 100 * 1024 * 1024

/-- `BINARY_SCAN_BYTES`. -/
def binaryScanBytes : Nat := 8192

/-- `has_binary_bytes`. -/
def hasBinaryBytes (bytes : Bytes) : Bool :=
  (bytes.take binaryScanBytes).contains 0

/-- A loaded source. -/
structure RewriteSource where
  originalSource : Text
  plannedMtimeNs : Nat

/-- The length of the byte order mark that the source starts with. -/
def RewriteSource.bomLen (s : RewriteSource) : Nat :=
  if s.originalSource.head? = some '\uFEFF' then 3 else 0

/-- `ast_source`: the source without its byte order mark. -/
def RewriteSource.astSource (s : RewriteSource) : Text :=
  if s.originalSource.head? = some '\uFEFF' then s.originalSource.tail else s.originalSource

/-- `load_rewrite_source`: nothing for a file that is too large or binary. -/
def loadRewriteSource
    (file : File)
    (node : Option SourceFile) : Except (RewriteError File) (Option RewriteSource) := do
  let plannedMtimeNs ← fileMtimeNs file node
  if maxRewriteFileBytes < (node.map (fun n => n.content.length)).getD 0 then
    .ok none
  else
    match readBytes node with
    | none => .error (.unreadable file)
    | some bytes =>
        if hasBinaryBytes bytes then .ok none
        else
          match fromUtf8 bytes with
          | none => .error (.invalidUtf8 file)
          | some originalSource => .ok (some ⟨originalSource, plannedMtimeNs⟩)

/-! ## From matches to edits -/

/-- `line_number_for_byte` over the line starts of the source. -/
def lineNumberForByte
    (source : Text)
    (byteOffset : Nat) : Nat :=
  ((utf8 source).take byteOffset).count 10 + 1

/-- The inserted bytes as text, ill-formed sequences replaced. -/
def insertedText (bytes : Bytes) : Text :=
  ((fromUtf8 bytes).or (fromUtf8 (toStringLossy bytes))).getD []

/-- A pattern and what replaces its matches. -/
structure CompiledRewrite (ag : AstGrep) where
  pattern : ag.Pattern
  replacement : Text

/-- The edit of one match. -/
def editOfMatch
    (source : RewriteSource)
    (file : File)
    (replacement : Text)
    (m : AstMatch) : Except (RewriteError File) (RewriteEdit File) := do
  ensureValidUtf8Range source.astSource file m.range
  .ok {
    id := ""
    file := file
    plannedMtimeNs := source.plannedMtimeNs
    line := lineNumberForByte source.astSource m.range.start
    byteRange := ⟨m.range.start + source.bomLen, m.range.stop + source.bomLen⟩
    originalText := m.text
    replacementText := insertedText (m.inserted replacement) }

/-- A file with the edits planned for it. -/
structure PreparedRewriteFile (File : Type) where
  file : File
  originalSource : Text
  edits : List (RewriteEdit File)

/-- `plan_file_batch_rewrites_prepared`: the edits of all rules, rule by rule. -/
def planFileBatchRewritesPrepared
    (ag : AstGrep)
    (rewrites : List (CompiledRewrite ag))
    (lang : SupportLang)
    (file : File)
    (node : Option SourceFile) :
    Except (RewriteError File) (Option (PreparedRewriteFile File)) := do
  match ← loadRewriteSource file node with
  | none => .ok none
  | some source =>
      if source.astSource = [] then .ok none
      else
        let edits ← rewrites.mapM fun r =>
          (ag.findAll lang source.astSource r.pattern).mapM
            (editOfMatch source file r.replacement)
        if edits.flatten = [] then .ok none
        else .ok (some ⟨file, source.originalSource, edits.flatten⟩)

/-- `plan_file_rewrites_prepared`: the same with one rule. -/
def planFileRewritesPrepared
    (ag : AstGrep)
    (pattern : ag.Pattern)
    (replacement : Text)
    (lang : SupportLang)
    (file : File)
    (node : Option SourceFile) :
    Except (RewriteError File) (Option (PreparedRewriteFile File)) :=
  planFileBatchRewritesPrepared ag [⟨pattern, replacement⟩] lang file node

/-! ## Plans -/

/-- A number with at least four digits. -/
def fourDigits (n : Nat) : String :=
  let digits := toString n
  String.ofList (List.replicate (4 - digits.length) '0') ++ digits

/-- `assign_edit_ids`. -/
def assignEditIds
    (root : SearchRoot File)
    (edits : List (RewriteEdit File)) : List (RewriteEdit File) :=
  edits.zipIdx.map fun e =>
    { e.1 with
      id := "e" ++ fourDigits e.2 ++ ":" ++ (root.fileName e.1.file).getD "unknown" ++ ":" ++
        toString e.1.byteRange.start ++ "-" ++ toString e.1.byteRange.stop }

/-- A plan: its edits, and the pairs of edits that overlap. -/
structure RewritePlan (File : Type) where
  totalFilesScanned : Nat
  edits : List (RewriteEdit File)
  rejectedOverlaps : List (OverlapRejection File)

/-- `total_edits`. -/
def RewritePlan.totalEdits (plan : RewritePlan File) : Nat :=
  plan.edits.length

/-- `plan_rewrites`. -/
def planRewrites
    (ag : AstGrep)
    (root : SearchRoot File)
    (T : SourceTree File)
    (pattern : String)
    (replacement : Text)
    (lang : String) : Except (RewriteError File) (RewritePlan File) := do
  let language ← resolveLanguage ag lang
  let compiled ← compilePattern ag pattern language
  let files ← collectSourceFiles root language
  let prepared ← files.mapM fun file =>
    planFileRewritesPrepared ag compiled replacement language file (T file)
  let edits := (prepared.flatMap Option.toList).flatMap PreparedRewriteFile.edits
  let kept := validateNoOverlaps (assignEditIds root (sortRewriteEdits edits))
  .ok ⟨files.length, kept.1, kept.2⟩

/-- `apply_rewrites`. -/
def applyRewrites
    (now : UInt64)
    (T : SourceTree File)
    (plan : RewritePlan File) : Outcome (RewriteError File) Nat × SourceTree File :=
  applyEditSet now T plan.edits

/-! ## The one-shot mode -/

/-- What became of one file. -/
structure PerFileRewriteOutcome (File : Type) where
  edits : List (RewriteEdit File)
  rejectedOverlaps : List (OverlapRejection File)

/-- `apply_prepared_rewrite_file` with direct writes. -/
def applyPreparedRewriteFile
    (now : UInt64)
    (file : File)
    (originalSource : Text)
    (validEdits : List (RewriteEdit File))
    (rejectedOverlaps : List (OverlapRejection File))
    (node : Option SourceFile) :
    Outcome (RewriteError File) (Option (PerFileRewriteOutcome File)) × Option SourceFile :=
  if validEdits = [] ∧ rejectedOverlaps = [] then (.ok none, node)
  else if validEdits = [] then (.ok (some ⟨validEdits, rejectedOverlaps⟩), node)
  else
    match ensureFileNotStale file validEdits node with
    | .error e => (.error e, node)
    | .ok _ =>
        let written := applyEditsToFileWithWriter (directWriteFile now) file validEdits
          (some originalSource) node
        (written.1.bind fun _ => .ok (some ⟨validEdits, rejectedOverlaps⟩), written.2)

/-- Plan a file, then write it: the common part of `plan_and_apply_single_file_rewrite` and
`plan_and_apply_single_batch_rewrite`, which differ in how overlaps are treated. -/
def planAndApplySingle
    (now : UInt64)
    (validate : List (RewriteEdit File) →
      List (RewriteEdit File) × List (OverlapRejection File))
    (planned : Except (RewriteError File) (Option (PreparedRewriteFile File)))
    (node : Option SourceFile) :
    Outcome (RewriteError File) (Option (PerFileRewriteOutcome File)) × Option SourceFile :=
  match planned with
  | .error e => (.error e, node)
  | .ok none => (.ok none, node)
  | .ok (some prepared) =>
      let kept := validate (sortRewriteEdits prepared.edits)
      applyPreparedRewriteFile now prepared.file prepared.originalSource kept.1 kept.2 node

/-- `plan_and_apply_single_file_rewrite`. -/
def planAndApplySingleFileRewrite
    (now : UInt64)
    (ag : AstGrep)
    (pattern : ag.Pattern)
    (replacement : Text)
    (lang : SupportLang)
    (file : File)
    (node : Option SourceFile) :
    Outcome (RewriteError File) (Option (PerFileRewriteOutcome File)) × Option SourceFile :=
  planAndApplySingle now validateNoOverlaps
    (planFileRewritesPrepared ag pattern replacement lang file node) node

/-- `sort_overlap_rejections`. -/
def sortOverlapRejections
    (rejections : List (OverlapRejection File)) : List (OverlapRejection File) :=
  sortByKey (fun r => toLex (r.file, toLex (r.editA.start, r.editB.start))) rejections

/-- `plan_and_apply`: every file is planned and written in one parallel pass, and the results
are looked at afterwards. -/
def planAndApply
    (now : UInt64)
    (ag : AstGrep)
    (root : SearchRoot File)
    (T : SourceTree File)
    (pattern : String)
    (replacement : Text)
    (lang : String) : Outcome (RewriteError File) (RewritePlan File) × SourceTree File :=
  match (do
      let language ← resolveLanguage ag lang
      let compiled ← compilePattern ag pattern language
      let files ← collectSourceFiles root language
      .ok (language, compiled, files) :
        Except (RewriteError File) (SupportLang × ag.Pattern × List File)) with
  | .error e => (.error e, T)
  | .ok (language, compiled, files) =>
      let run := runTasks id
        (fun file => planAndApplySingleFileRewrite now ag compiled replacement language file)
        T files
      ((joinAll run.1).bind fun outcomes =>
        let done := outcomes.flatMap Option.toList
        .ok ⟨files.length,
          assignEditIds root (sortRewriteEdits (done.flatMap PerFileRewriteOutcome.edits)),
          sortOverlapRejections (done.flatMap PerFileRewriteOutcome.rejectedOverlaps)⟩,
        run.2)

end Rewrite
end TensorGrep
