import TensorGrep.Index.Limits
import TensorGrep.Index.Agreement
import TensorGrep.Rewrite.Rollback
import TensorGrep.Rewrite.BatchOneShot
import TensorGrep.Ledger.Eviction
import TensorGrep.Checkpoint.Latest
import TensorGrep.Checkpoint.TwoWriters
import TensorGrep.Audit.EvidenceGate
import TensorGrep.Audit.HistoryRuns
import TensorGrep.Lock.Exclusion
import TensorGrep.Ledger.FindingRuns
import TensorGrep.Ledger.Listing
import TensorGrep.Checkpoint.Retention
import TensorGrep.Policy.FileArguments
import TensorGrep.Daemon.Lifecycle
import TensorGrep.Daemon.Metadata
import TensorGrep.Session.Stream
import TensorGrep.Session.Index
import TensorGrep.CpuSearch.Locality
import TensorGrep.CpuSearch.PrefilterSoundness
import TensorGrep.CpuSearch.LiteralCache
import TensorGrep.RepoMap.ScanLimit
import TensorGrep.RepoMap.GitWalk
import TensorGrep.AstRules.Readers
import TensorGrep.Scan.Members
import TensorGrep.Scan.Completeness
import TensorGrep.Scan.InlineSuppressions
import TensorGrep.Scan.TestVerdicts
import TensorGrep.Index.LegacyJson
import TensorGrep.CpuBackend.InPlace
import TensorGrep.CodeMap.Written
import TensorGrep.Audit.DiffCompleteness
import TensorGrep.Rewrite.DiffPatch
import TensorGrep.Evidence.Isolation
import TensorGrep.NativeSearch.MultiPatternAgreement
import TensorGrep.Rewrite.BatchOverlaps
import TensorGrep.Result.Routing
import TensorGrep.Ranking.LateRerank
import TensorGrep.Ranking.StructuralChunks
import TensorGrep.RepoMap.FairWalk
import TensorGrep.Rewrite.ValidationCommands
import TensorGrep.Audit.HistoryStamps
import TensorGrep.RepoMap.GraphRank
import TensorGrep.Scan.Suppressions
import TensorGrep.AstRules.WrapperCommand
import TensorGrep.Audit.CivilDates
import TensorGrep.Ranking.CorpusCap
import TensorGrep.CpuSearch.SequenceSearch
import TensorGrep.RepoMap.CallerScanOrder
import TensorGrep.DirectoryScanner.GlobFilters
import TensorGrep.Evidence.DirtyIdentity
import TensorGrep.RepoMap.RustUseTrees
import TensorGrep.CpuSearch.BoundaryQueries
import TensorGrep.RepoMap.ExportedSymbols
import TensorGrep.Policy.ExecutableConfinement
import TensorGrep.Lsp.Framing
