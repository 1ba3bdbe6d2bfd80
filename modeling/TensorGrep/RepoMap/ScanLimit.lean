import TensorGrep.RepoMap.Builders
import TensorGrep.RepoMap.WalkOrder

/-!
# A scan that is reported complete

A map with a limit says whether its scan may be truncated.  The flag is inferred
from the number of files that were returned and from whether all of them look
vendored; the incremental builder counts after it has dropped the files that are
not context files.  So a scan can be reported complete although its limit cut off
files of the project, and `reported_scan_complete_iff` says when.
-/

namespace TensorGrep
namespace RepoMap

open Kernel

section Completeness

variable {δ : Type}

/-- The payload reports that nothing is missing. -/
def ReportsComplete (payload : RepoMapPayload δ) : Prop :=
  (∀ limit, payload.scanLimit = some limit → limit.possiblyTruncated = false) ∧
    payload.unreadablePaths = none

/-- The payload has the context files of the tree. -/
def HasContextFiles
    (root : RepoRoot)
    (tree : RepoTree)
    (payload : RepoMapPayload δ) : Prop :=
  ∀ path, path ∈ payload.files ∨ path ∈ payload.tests ↔
    path ∈ (iterRepoFiles root none tree).files ∧ isRepoContextFile root path = true

/-- No context file comes after the first ones in the order of the walk. -/
def ContextFilesFirst
    (root : RepoRoot)
    (tree : RepoTree)
    (n : ℕ) : Prop :=
  ∀ path ∈ walkOrder root tree, isRepoContextFile root path = true →
    path ∈ (walkOrder root tree).take n

/-- The first files of the walk are all in vendored directories. -/
def VendoredFirst
    (root : RepoRoot)
    (tree : RepoTree)
    (n : ℕ) : Prop :=
  ∀ path ∈ (walkOrder root tree).take n, pathHasVendorComponent root path = true

/-- Every file that can be read was read. -/
def NothingUnreadable
    (root : RepoRoot)
    (tree : RepoTree)
    (n : ℕ) : Prop :=
  (iterRepoFiles root (some n) tree).unreadable = []

end Completeness

section ScanLimits

variable {root : RepoRoot} {δ : Type} {parser : SourceParser δ} {tree : RepoTree}

theorem scanLimitCause_eq_project_iff
    {files : List RepoPath}
    {count n : ℕ} :
    scanLimitCause root files count n = "project-files" ↔
      count < n ∨ ∃ path ∈ files, pathHasVendorComponent root path = false := by
  rw [scanLimitCause]
  split
  case isTrue hlt => exact iff_of_true rfl (Or.inl hlt)
  case isFalse hle =>
      split
      case isTrue hany =>
          refine iff_of_true rfl (Or.inr ?_)
          simpa using hany
      case isFalse hnone =>
          refine iff_of_false (by decide) ?_
          rintro (hlt | ⟨path, hpath, hproject⟩)
          · exact hle hlt
          · exact hnone (List.any_eq_true.mpr ⟨path, hpath, by simp [hproject]⟩)

/-- The flag is off if the count is below the limit, or if all files are vendored. -/
theorem possiblyTruncated_scanLimitOf_iff
    {files : List RepoPath}
    {count n : ℕ} :
    (scanLimitOf root files count n).possiblyTruncated = false ↔
      count < n ∨ ∀ path ∈ files, pathHasVendorComponent root path = true := by
  rw [← not_iff_not, Bool.not_eq_false, scanLimitOf]
  simp only [Bool.and_eq_true, decide_eq_true_eq, scanLimitCause_eq_project_iff, not_or, not_lt,
    not_forall, Bool.not_eq_true, exists_prop]
  constructor
  · rintro ⟨hle, hlt | hproject⟩
    · exact absurd hlt (not_lt.mpr hle)
    · exact ⟨hle, hproject⟩
  · exact fun h => ⟨h.1, Or.inr h.2⟩

theorem unreadablePathsOf_eq_none_iff
    {unreadable : List RepoPath} :
    unreadablePathsOf unreadable = none ↔ unreadable = [] := by
  rw [unreadablePathsOf]
  split
  case isTrue hnil => exact iff_of_true rfl hnil
  case isFalse hne => exact iff_of_false (fun h => nomatch h) hne

/-- A map with the context files of a walk with a limit has those of the tree if and only if they
come first. -/
theorem hasContextFiles_iff
    {payload : RepoMapPayload δ}
    {n : ℕ}
    (hfiles : ∀ path, path ∈ payload.files ∨ path ∈ payload.tests ↔
      path ∈ (walkOrder root tree).take n ∧ isRepoContextFile root path = true) :
    HasContextFiles root tree payload ↔ ContextFilesFirst root tree n := by
  constructor
  · intro hall path hpath hcontext
    exact ((hfiles path).mp ((hall path).mpr ⟨mem_walkOrder_iff.mp hpath, hcontext⟩)).1
  · intro hfirst path
    rw [hfiles, ← mem_walkOrder_iff]
    constructor
    · exact fun h => ⟨List.mem_of_mem_take h.1, h.2⟩
    · exact fun h => ⟨hfirst path h.1 h.2, h.2⟩

theorem contextFilesFirst_of_length_lt
    {n : ℕ}
    (h : ((walkOrder root tree).take n).length < n) :
    ContextFilesFirst root tree n := by
  intro path hpath _
  rw [List.length_take] at h
  rwa [List.take_of_length_le (by omega)]

/-- The files of a walk with a limit are the first ones of the order. -/
theorem iterRepoFiles_max
    (n : ℕ) :
    (iterRepoFiles root (some (max 1 n)) tree).files = (walkOrder root tree).take (max 1 n) := by
  rw [iterRepoFiles_some, ← max_assoc, max_self]

/-- A full map is reported complete if its walk ended before the limit, or found vendored files
only. -/
theorem reportsComplete_buildRepoMap_iff
    {n : ℕ} :
    ReportsComplete (buildRepoMap root parser tree (some n) none) ↔
      (((walkOrder root tree).take (max 1 n)).length < max 1 n ∨
        VendoredFirst root tree (max 1 n)) ∧ NothingUnreadable root tree (max 1 n) := by
  refine and_congr ?_ unreadablePathsOf_eq_none_iff
  rw [buildRepoMap, mapOfWalk]
  simp only [normalizedMaxRepoFiles, Option.map_some, iterRepoFiles_max, Option.some.injEq,
    forall_eq', possiblyTruncated_scanLimitOf_iff]
  rfl

/-- An incremental map counts and looks at the context files only. -/
theorem reportsComplete_buildRepoMapIncremental_iff
    {n : ℕ}
    {previous : RepoMapPayload δ}
    {changeset : Changeset} :
    ReportsComplete (buildRepoMapIncremental root parser tree previous changeset (some n) none) ↔
      ((((walkOrder root tree).take (max 1 n)).filter (isRepoContextFile root)).length <
          max 1 n ∨
        ∀ path ∈ ((walkOrder root tree).take (max 1 n)).filter (isRepoContextFile root),
          pathHasVendorComponent root path = true) ∧ NothingUnreadable root tree (max 1 n) := by
  refine and_congr ?_ unreadablePathsOf_eq_none_iff
  rw [buildRepoMapIncremental]
  simp only [normalizedMaxRepoFiles, Option.map_some, iterRepoFiles_max, Option.some.injEq,
    forall_eq', possiblyTruncated_scanLimitOf_iff]

/-- The count of the incremental map is below the limit if the walk ended before it, or found
another file. -/
theorem length_filter_take_lt_iff
    {files : List RepoPath}
    {n : ℕ} :
    ((files.take n).filter (isRepoContextFile root)).length < n ↔
      (files.take n).length < n ∨ ∃ path ∈ files.take n, isRepoContextFile root path = false := by
  have hlength := List.length_filter_lt_length_iff_exists (l := files.take n)
    (p := isRepoContextFile root)
  simp only [Bool.not_eq_true] at hlength
  rw [← hlength]
  have hle := List.length_take_le n files
  have hfilter := List.length_filter_le (isRepoContextFile root) (files.take n)
  omega

/-- A full map that is reported complete is complete if and only if, where the first files of the
walk are all vendored, no context file comes after them. -/
theorem reported_full_scan_complete_iff
    (n : ℕ) :
    (ReportsComplete (buildRepoMap root parser tree (some n) none) →
        HasContextFiles root tree (buildRepoMap root parser tree (some n) none)) ↔
      (NothingUnreadable root tree (max 1 n) → VendoredFirst root tree (max 1 n) →
        ContextFilesFirst root tree (max 1 n)) := by
  have hfiles : HasContextFiles root tree (buildRepoMap root parser tree (some n) none) ↔
      ContextFilesFirst root tree (max 1 n) := by
    refine hasContextFiles_iff fun path => ?_
    rw [mem_buildRepoMap_iff, ← iterRepoFiles_max]
    rfl
  rw [hfiles, reportsComplete_buildRepoMap_iff]
  constructor
  · exact fun h hread hvendored => h ⟨Or.inr hvendored, hread⟩
  · rintro h ⟨hshort | hvendored, hread⟩
    · exact contextFilesFirst_of_length_lt hshort
    · exact h hread hvendored

/-- An incremental map that is reported complete is complete if and only if, where the first files
of the walk are all vendored or one of them is not a context file, no context file comes after
them. -/
theorem reported_incremental_scan_complete_iff
    (n : ℕ)
    (previous : RepoMapPayload δ)
    (changeset : Changeset) :
    (ReportsComplete (buildRepoMapIncremental root parser tree previous changeset (some n) none) →
        HasContextFiles root tree
          (buildRepoMapIncremental root parser tree previous changeset (some n) none)) ↔
      (NothingUnreadable root tree (max 1 n) →
        (VendoredFirst root tree (max 1 n) ∨
          ∃ path ∈ (walkOrder root tree).take (max 1 n), isRepoContextFile root path = false) →
        ContextFilesFirst root tree (max 1 n)) := by
  have hfiles : HasContextFiles root tree
        (buildRepoMapIncremental root parser tree previous changeset (some n) none) ↔
      ContextFilesFirst root tree (max 1 n) := by
    refine hasContextFiles_iff fun path => ?_
    rw [mem_buildRepoMapIncremental_iff, ← iterRepoFiles_max]
    rfl
  rw [hfiles, reportsComplete_buildRepoMapIncremental_iff, length_filter_take_lt_iff]
  constructor
  · rintro h hread (hvendored | hother)
    · refine h ⟨Or.inr fun path hpath => ?_, hread⟩
      exact hvendored path (List.mem_filter.mp hpath).1
    · exact h ⟨Or.inl (Or.inr hother), hread⟩
  · rintro h ⟨(hshort | hother) | hvendored, hread⟩
    · exact contextFilesFirst_of_length_lt hshort
    · exact h hread (Or.inr hother)
    · by_cases hother : ∃ path ∈ (walkOrder root tree).take (max 1 n),
          isRepoContextFile root path = false
      · exact h hread (Or.inr hother)
      · refine h hread (Or.inl fun path hpath => hvendored path ?_)
        refine List.mem_filter.mpr ⟨hpath, ?_⟩
        by_contra hcontext
        exact hother ⟨path, hpath, Bool.eq_false_iff.mpr hcontext⟩

end ScanLimits

/-- A scan with a limit that is reported complete is complete: for a full map if and only if, where
the first files of the walk are all vendored, no context file comes after them; for an
incremental map if and only if this holds also where one of the first files is not a context
file. -/
theorem reported_scan_complete_iff
    {δ : Type}
    (root : RepoRoot)
    (parser : SourceParser δ)
    (tree : RepoTree)
    (n : ℕ) :
    ((ReportsComplete (buildRepoMap root parser tree (some n) none) →
        HasContextFiles root tree (buildRepoMap root parser tree (some n) none)) ↔
      (NothingUnreadable root tree (max 1 n) → VendoredFirst root tree (max 1 n) →
        ContextFilesFirst root tree (max 1 n))) ∧
    ∀ previous changeset,
      ((ReportsComplete
            (buildRepoMapIncremental root parser tree previous changeset (some n) none) →
          HasContextFiles root tree
            (buildRepoMapIncremental root parser tree previous changeset (some n) none)) ↔
        (NothingUnreadable root tree (max 1 n) →
          (VendoredFirst root tree (max 1 n) ∨
            ∃ path ∈ (walkOrder root tree).take (max 1 n),
              isRepoContextFile root path = false) →
          ContextFilesFirst root tree (max 1 n))) :=
  ⟨reported_full_scan_complete_iff n, reported_incremental_scan_complete_iff n⟩

/-- `a.bin` and `main.py`. -/
def binaryFirstTree : RepoTree :=
  .directory (some
    [(⟨"a.bin".toList, by decide, by decide⟩, .file [] 0),
      (mainName, .file [] 0)])

/-- With a limit of one file the walk stops at `a.bin`; the incremental builder drops it, counts no
file and reports a complete scan, without `main.py`. -/
theorem binaryFile_hides_truncation :
    ¬ ∀ (tree : RepoTree) (n : ℕ) (previous : RepoMapPayload Unit) (changeset : Changeset), 1 ≤ n →
      ReportsComplete
          (buildRepoMapIncremental plainRoot emptyParser tree previous changeset (some n) none) →
        HasContextFiles plainRoot tree
          (buildRepoMapIncremental plainRoot emptyParser tree previous changeset (some n) none) := by
  intro hall
  have hone := hall binaryFirstTree 1 ⟨[], [], [], [], [], none, none, none⟩ ⟨[], [], []⟩ (le_refl 1)
  have hfirst := (reported_incremental_scan_complete_iff 1 _ _).mp hone ?_ (Or.inr ?_)
  · have hmain := hfirst [mainName] (by decide) (by decide)
    revert hmain
    decide
  · rw [NothingUnreadable, binaryFirstTree, iterRepoFiles, iterRepoFilesWith, iterCappedFiles,
      show sortDedup id _ = [2] from by decide, drainGroups,
      drainGroup_eq_of_full (by decide) (by decide) (by decide), if_pos (by decide)]
    decide
  · exact ⟨[⟨"a.bin".toList, by decide, by decide⟩], by decide, by decide⟩

end RepoMap
end TensorGrep
