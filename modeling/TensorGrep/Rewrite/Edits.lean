import TensorGrep.Kernel.CharBoundary
import TensorGrep.Kernel.Outcome
import TensorGrep.Kernel.SortedKeys
import TensorGrep.Kernel.Splice

/-!
# Rewrite edits

An edit replaces a byte range of a file.  This module holds what the rewriter
does with a list of edits before and while it writes: sort them, drop those
that overlap, and splice the others into the source.

Files are ordered paths; nothing here looks inside a path.
-/

namespace TensorGrep
namespace Rewrite

open Kernel

variable {File : Type} [LinearOrder File]

/-- `Range<usize>`. -/
structure ByteRange where
  start : Nat
  stop : Nat
deriving DecidableEq

/-- `{:?}` of a range. -/
def ByteRange.debug (r : ByteRange) : String :=
  toString r.start ++ ".." ++ toString r.stop

/-- One planned replacement. -/
structure RewriteEdit (File : Type) where
  id : String
  file : File
  plannedMtimeNs : Nat
  line : Nat
  byteRange : ByteRange
  originalText : Text
  replacementText : Text
deriving DecidableEq

/-- Two edits of which only the first can be applied. -/
structure OverlapRejection (File : Type) where
  file : File
  editA : ByteRange
  editB : ByteRange
  reason : String
deriving DecidableEq

/-- Why a rewrite fails. -/
inductive RewriteError (File : Type) where
  | outOfBounds (file : File) (range : ByteRange) (len : Nat)
  | notAligned (file : File) (range : ByteRange)
  | overlappingEdit (file : File) (start cursor : Nat)
  | noEdits (file : File)
  | inconsistentMtime (file : File)
  | noMetadata (file : File)
  | mtimeBeforeEpoch (file : File)
  | mtimeTooLarge (file : File)
  | stale (file : File) (planned current : Nat)
  | unreadable (file : File)
  | invalidUtf8 (file : File)
  | notReplaceable (file : File)
  | notWritable (file : File)
  | verifyUnreadable (file : File)
  | unsupportedLanguage (lang : String)
  | invalidPattern
  | noRules
  | pathNotFound
deriving DecidableEq

/-- The text of an error, up to the texts of the causes that the system reports. -/
def RewriteError.message
    (display : File → String) : RewriteError File → String
  | .outOfBounds file range len =>
      "rewrite byte range " ++ range.debug ++ " is out of bounds for " ++ display file ++
        " (len " ++ toString len ++ ")"
  | .notAligned file range =>
      "rewrite byte range " ++ range.debug ++ " does not align to UTF-8 boundaries in " ++
        display file
  | .overlappingEdit file start cursor =>
      "overlapping edit in " ++ display file ++ ": byte " ++ toString start ++ " < cursor " ++
        toString cursor
  | .noEdits file => "no edits supplied for " ++ display file
  | .inconsistentMtime file => "inconsistent planned mtime metadata for " ++ display file
  | .noMetadata file => "failed to read metadata for " ++ display file
  | .mtimeBeforeEpoch file =>
      "file modified time for " ++ display file ++ " predates the Unix epoch"
  | .mtimeTooLarge file =>
      "file modified time for " ++ display file ++ " exceeds supported nanosecond range"
  | .stale file planned current =>
      "stale file modified since planning: " ++ display file ++ " (planned mtime ns " ++
        toString planned ++ ", current mtime ns " ++ toString current ++ ")"
  | .unreadable file => "failed to read source file " ++ display file
  | .invalidUtf8 file => "invalid UTF-8 in " ++ display file
  | .notReplaceable file => "failed to create temp file alongside " ++ display file
  | .notWritable file => "failed to overwrite " ++ display file
  | .verifyUnreadable file => "verify: failed to read " ++ display file
  | .unsupportedLanguage lang => "Unsupported language: " ++ lang
  | .invalidPattern => "Invalid pattern: parse error"
  | .noRules => "batch rewrite config requires at least one rewrite rule"
  | .pathNotFound => "Path not found"

/-- `sort_rewrite_edits`: a stable sort by file and start. -/
def sortRewriteEdits (edits : List (RewriteEdit File)) : List (RewriteEdit File) :=
  sortByKey (fun e => toLex (e.file, e.byteRange.start)) edits

/-! ## Overlaps -/

/-- The state of the loop of `validate_no_overlaps`. -/
structure OverlapScan (File : Type) where
  prevRange : File → Option ByteRange
  valid : List (RewriteEdit File)
  rejected : List (OverlapRejection File)

/-- What is recorded about an edit that starts before the previous one ends. -/
def overlapRejection
    (prev : ByteRange)
    (e : RewriteEdit File) : OverlapRejection File where
  file := e.file
  editA := prev
  editB := e.byteRange
  reason := "edit at byte " ++ toString e.byteRange.start ++
    " overlaps with previous edit ending at byte " ++ toString prev.stop

/-- One round of the loop of `validate_no_overlaps`. -/
def OverlapScan.step
    (s : OverlapScan File)
    (e : RewriteEdit File) : OverlapScan File :=
  match (s.prevRange e.file).filter (fun prev => e.byteRange.start < prev.stop) with
  | some prev => { s with rejected := s.rejected ++ [overlapRejection prev e] }
  | none =>
      { s with
        prevRange := Function.update s.prevRange e.file (some e.byteRange)
        valid := s.valid ++ [e] }

/-- The loop of `validate_no_overlaps`. -/
def scanOverlaps (edits : List (RewriteEdit File)) : OverlapScan File :=
  edits.foldl OverlapScan.step ⟨fun _ => none, [], []⟩

/-- `validate_no_overlaps`. -/
def validateNoOverlaps
    (edits : List (RewriteEdit File)) :
    List (RewriteEdit File) × List (OverlapRejection File) :=
  ((scanOverlaps edits).valid, (scanOverlaps edits).rejected)

/-! ## Splicing -/

/-- `ensure_valid_utf8_range`. -/
def ensureValidUtf8Range
    (source : Text)
    (file : File)
    (range : ByteRange) : Except (RewriteError File) Unit :=
  if range.stop < range.start ∨ (utf8 source).length < range.stop then
    .error (.outOfBounds file range (utf8 source).length)
  else if isCharBoundary (utf8 source) range.start ∧
      isCharBoundary (utf8 source) range.stop then
    .ok ⟨⟩
  else .error (.notAligned file range)

/-- The loop of `rewrite_source_with_edits`. -/
def rewriteFrom
    (file : File)
    (original : Text) :
    Nat → Text → List (RewriteEdit File) → Outcome (RewriteError File) Text
  | cursor, result, [] =>
      (Outcome.ofSlice (sliceStr original cursor (utf8 original).length)).bind fun tail =>
        .ok (result ++ tail)
  | cursor, result, e :: es =>
      (Outcome.ofExcept (ensureValidUtf8Range original file e.byteRange)).bind fun _ =>
        if e.byteRange.start < cursor then
          .error (.overlappingEdit file e.byteRange.start cursor)
        else
          (Outcome.ofSlice (sliceStr original cursor e.byteRange.start)).bind fun gap =>
            rewriteFrom file original e.byteRange.stop
              (result ++ gap ++ e.replacementText) es

/-- `rewrite_source_with_edits`. -/
def rewriteSourceWithEdits
    (file : File)
    (original : Text)
    (edits : List (RewriteEdit File)) : Outcome (RewriteError File) Text :=
  rewriteFrom file original 0 [] edits

end Rewrite
end TensorGrep
