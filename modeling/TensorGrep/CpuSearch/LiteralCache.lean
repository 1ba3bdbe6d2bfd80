import TensorGrep.CpuSearch.LiteralIndexFile
import TensorGrep.CpuSearch.PythonRegexes
import TensorGrep.Kernel.StepSystem

/-!
# The cache of the literal prefilter

A process searches one file again and again.  A search that uses the prefilter
takes the signature of the file and looks for lines and an index under it, in
memory and then in the cache file.  If there are none it reads the file, takes the
signature once more, and stores what it has read under this second signature, in
memory first.

Between any two of these steps the file can be edited, the cache file can be
replaced and the entry in memory can be evicted.
-/

namespace TensorGrep
namespace CpuSearch

open Kernel
open Result

/-- What a search is asked for. -/
structure SearchRequest where
  config : SearchConfig
  pattern : Text

/-- Lines and their index under a signature. -/
structure CacheEntry where
  signature : FileSignature
  lines : List Text
  index : TrigramIndex

/-- Where a search stands.  `own` is what was in the file when the search last took its
signature. -/
inductive CachePhase where
  | idle
  | begun (request : SearchRequest)
  | loading (request : SearchRequest) (signature : FileSignature) (own : Bytes)
  | missed (request : SearchRequest)
  | read (request : SearchRequest) (contents : Bytes)
  | storing (request : SearchRequest) (contents : Bytes) (signature : FileSignature) (own : Bytes)
  | answered (request : SearchRequest) (own : Bytes) (result : Except SearchError SearchResult)

/-- The file, the caches by whether case is ignored, and the search that is under way. -/
structure CacheState where
  contents : Bytes
  mtimeNs : Int
  memory : Bool → Option CacheEntry
  disk : Bool → CacheFile
  phase : CachePhase

/-- The signature of the file. -/
def CacheState.signature (s : CacheState) : FileSignature :=
  ⟨s.mtimeNs, s.contents.length⟩

/-- What can happen. -/
inductive CacheEvent where
  | begin (request : SearchRequest)
  | searchPlain
  | statLoad
  | readCacheFile
  | readFile
  | statStore
  | writeCacheFile
  | writeFails (truncates : Bool)
  | edit (contents : Bytes) (mtimeNs : Int)
  | replace (ignoreCase : Bool) (file : CacheFile)
  | evict (ignoreCase : Bool)

section Steps

variable (host : Host) (conv : Conversions) (file : String) (persistent : Bool)

/-- Whether the request ignores case. -/
def SearchRequest.ignoreCase (request : SearchRequest) : Bool :=
  ignoresCase host request.config request.pattern

/-- The pattern compiles, and it has a literal by which lines are filtered. -/
def SearchRequest.UsesPrefilter (request : SearchRequest) : Prop :=
  (∃ re, host.compile request.pattern (request.ignoreCase host) request.config.fixedStrings =
      .ok re) ∧
    ∃ literal, prefilterLiteral request.config request.pattern = some literal

/-- The answer to a request from the contents of the file and what the cache gives. -/
def SearchRequest.answer
    (request : SearchRequest)
    (contents : Bytes)
    (cached : Except String (Option (List Text × TrigramIndex))) :
    Except SearchError SearchResult :=
  pythonSearch host request.config file request.pattern contents cached

/-- The entry for contents that were read. -/
def entryOf
    (ignoreCase : Bool)
    (signature : FileSignature)
    (contents : Bytes) : CacheEntry :=
  ⟨signature, readSourceLines contents, indexSourceLines host ignoreCase (readSourceLines contents)⟩

/-- What is written to the cache file. -/
def CacheEntry.toFile (entry : CacheEntry) : CacheFile :=
  .json (storedPayload entry.signature entry.lines entry.index)

/-- The effect of an event.  An edit changes the signature. -/
inductive CacheStep : CacheState → CacheEvent → CacheState → Prop
  | begin {s : CacheState} {request : SearchRequest} :
      (s.phase = .idle ∨ ∃ previous own result, s.phase = .answered previous own result) →
      CacheStep s (.begin request) { s with phase := .begun request }
  | searchPlain {s : CacheState} {request : SearchRequest} :
      s.phase = .begun request →
      ¬ request.UsesPrefilter host →
      CacheStep s .searchPlain
        { s with
          phase := .answered request s.contents
            (request.answer host file s.contents (.ok none)) }
  | statHit {s : CacheState} {request : SearchRequest} {entry : CacheEntry} :
      s.phase = .begun request →
      request.UsesPrefilter host →
      s.memory (request.ignoreCase host) = some entry →
      entry.signature = s.signature →
      CacheStep s .statLoad
        { s with
          phase := .answered request s.contents
            (request.answer host file s.contents (.ok (some (entry.lines, entry.index)))) }
  | statLoad {s : CacheState} {request : SearchRequest} :
      s.phase = .begun request →
      request.UsesPrefilter host →
      (∀ entry, s.memory (request.ignoreCase host) = some entry →
        entry.signature ≠ s.signature) →
      CacheStep s .statLoad
        { s with
          memory := Function.update s.memory (request.ignoreCase host) none
          phase := if persistent then .loading request s.signature s.contents
            else .missed request }
  | cacheFileHit {s : CacheState} {request : SearchRequest} {signature : FileSignature}
      {own : Bytes} {lines : List Text} {index : TrigramIndex} :
      s.phase = .loading request signature own →
      loadCacheFile conv signature (s.disk (request.ignoreCase host)) = .ok (some (lines, index)) →
      CacheStep s .readCacheFile
        { s with
          memory := Function.update s.memory (request.ignoreCase host)
            (some ⟨signature, lines, index⟩)
          phase := .answered request own
            (request.answer host file own (.ok (some (lines, index)))) }
  | cacheFileMiss {s : CacheState} {request : SearchRequest} {signature : FileSignature}
      {own : Bytes} :
      s.phase = .loading request signature own →
      loadCacheFile conv signature (s.disk (request.ignoreCase host)) = .ok none →
      CacheStep s .readCacheFile { s with phase := .missed request }
  | cacheFileRaises {s : CacheState} {request : SearchRequest} {signature : FileSignature}
      {own : Bytes} {exc : String} :
      s.phase = .loading request signature own →
      loadCacheFile conv signature (s.disk (request.ignoreCase host)) = .error exc →
      CacheStep s .readCacheFile
        { s with phase := .answered request own (request.answer host file own (.error exc)) }
  | readFile {s : CacheState} {request : SearchRequest} :
      s.phase = .missed request →
      CacheStep s .readFile { s with phase := .read request s.contents }
  | statStore {s : CacheState} {request : SearchRequest} {contents : Bytes} :
      s.phase = .read request contents →
      CacheStep s .statStore
        { s with
          memory := Function.update s.memory (request.ignoreCase host)
            (some (entryOf host (request.ignoreCase host) s.signature contents))
          phase :=
            if persistent then .storing request contents s.signature s.contents
            else .answered request s.contents (request.answer host file contents (.ok none)) }
  | writeCacheFile {s : CacheState} {request : SearchRequest} {contents own : Bytes}
      {signature : FileSignature} :
      s.phase = .storing request contents signature own →
      CacheStep s .writeCacheFile
        { s with
          disk := Function.update s.disk (request.ignoreCase host)
            (entryOf host (request.ignoreCase host) signature contents).toFile
          phase := .answered request own (request.answer host file contents (.ok none)) }
  | writeFails {s : CacheState} {request : SearchRequest} {contents own : Bytes}
      {signature : FileSignature} {truncates : Bool} :
      s.phase = .storing request contents signature own →
      CacheStep s (.writeFails truncates)
        { s with
          disk :=
            if truncates then Function.update s.disk (request.ignoreCase host) .notJson
            else s.disk
          phase := .answered request own (request.answer host file contents (.ok none)) }
  | edit {s : CacheState} {contents : Bytes} {mtimeNs : Int} :
      (⟨mtimeNs, contents.length⟩ : FileSignature) ≠ s.signature →
      CacheStep s (.edit contents mtimeNs) { s with contents := contents, mtimeNs := mtimeNs }
  | replace {s : CacheState} {ignoreCase : Bool} {cacheFile : CacheFile} :
      CacheStep s (.replace ignoreCase cacheFile)
        { s with disk := Function.update s.disk ignoreCase cacheFile }
  | evict {s : CacheState} {ignoreCase : Bool} :
      CacheStep s (.evict ignoreCase)
        { s with memory := Function.update s.memory ignoreCase none }

/-- A process that starts with empty caches. -/
def literalCache : StepSystem CacheState CacheEvent where
  init s := (∀ ignoreCase, s.memory ignoreCase = none) ∧
    (∀ ignoreCase, s.disk ignoreCase = .absent) ∧ s.phase = .idle
  step := CacheStep host conv file persistent

end Steps

/-! ## Lines and indexes that belong to contents -/

section Soundness

variable (host : Host) (conv : Conversions)

/-- The lines are those of the contents, and the index has them by their trigrams. -/
def IndexesContents
    (ignoreCase : Bool)
    (contents : Bytes)
    (lines : List Text)
    (index : TrigramIndex) : Prop :=
  lines = readSourceLines contents ∧
    ∀ trigram i, i ∈ index.get trigram ↔
      i ∈ (indexSourceLines host ignoreCase (readSourceLines contents)).get trigram

/-- Under the signature the cache file is a miss, or has the lines and the index of the
contents. -/
def FileSoundFor
    (ignoreCase : Bool)
    (cacheFile : CacheFile)
    (signature : FileSignature)
    (contents : Bytes) : Prop :=
  ∃ cached, loadCacheFile conv signature cacheFile = .ok cached ∧
    ∀ lines index, cached = some (lines, index) →
      IndexesContents host ignoreCase contents lines index

/-- The contents that the search under way remembers, or will remember, under a signature. -/
def CachePhase.Pending : CachePhase → FileSignature → Bytes → Prop
  | .loading _ signature own, signature', contents => signature = signature' ∧ own = contents
  | .storing _ old signature _, signature', contents => signature = signature' ∧ old = contents
  | _, _, _ => False

/-- No edit comes between a read of the lines and the signature under which they are stored,
unless it keeps the lines; no edit gives the file a signature under which a cache, or the search
under way, knows other lines; and under the signature of the file, and the one that the search under
way has taken, a new cache file is a miss or has the right lines. -/
def KeepsCacheSound
    (persistent : Bool)
    (s : CacheState) : CacheEvent → Prop
  | .edit contents mtimeNs =>
      (∀ request old, s.phase = .read request old →
        readSourceLines contents = readSourceLines old) ∧
      (∀ ignoreCase entry, s.memory ignoreCase = some entry →
        entry.signature = ⟨mtimeNs, contents.length⟩ →
        IndexesContents host ignoreCase contents entry.lines entry.index) ∧
      (persistent = true → ∀ ignoreCase,
        FileSoundFor host conv ignoreCase (s.disk ignoreCase) ⟨mtimeNs, contents.length⟩
          contents) ∧
      ∀ old, s.phase.Pending ⟨mtimeNs, contents.length⟩ old →
        readSourceLines contents = readSourceLines old
  | .replace ignoreCase cacheFile => persistent = true →
      FileSoundFor host conv ignoreCase cacheFile s.signature s.contents ∧
        ∀ request signature own, s.phase = .loading request signature own →
          request.ignoreCase host = ignoreCase →
          FileSoundFor host conv ignoreCase cacheFile signature own
  | _ => True

end Soundness

/-! ## Answers from the cache -/

section Answers

variable {host : Host} {file : String} {request : SearchRequest}

/-- What a search reports: lines or an error. -/
def reported (answer : Except SearchError SearchResult) : Except SearchError (List MatchLine) :=
  answer.map SearchResult.found

/-- Only which lines are candidates matters to the loop. -/
theorem lineLoop_congr
    {re : Regexes}
    {invertMatch : Bool}
    {maxCount : Option Nat}
    {candidates candidates' : List Int}
    (h : ∀ i, i ∈ candidates ↔ i ∈ candidates')
    (lineNumber count : Nat)
    (lines : List Bytes) :
    lineLoop file re invertMatch maxCount (some candidates) lineNumber count lines =
      lineLoop file re invertMatch maxCount (some candidates') lineNumber count lines := by
  induction lines generalizing lineNumber count with
  | nil => rfl
  | cons line lines ih =>
      rw [lineLoop, lineLoop, ih, ih]
      simp only [Option.any_some, h]

/-- Indexes with the same lines for each trigram have the same candidates. -/
theorem mem_candidateLineIndexes_congr
    {index index' : TrigramIndex}
    (h : ∀ trigram i, i ∈ index.get trigram ↔ i ∈ index'.get trigram)
    (literal : Text)
    (i : Int) :
    i ∈ candidateLineIndexes index literal ↔ i ∈ candidateLineIndexes index' literal := by
  by_cases hlong : 3 ≤ literal.length
  · rw [mem_candidateLineIndexes_iff hlong, mem_candidateLineIndexes_iff hlong]
    simp only [h]
  · have hnone := windows3_eq_nil_of_length_lt (not_le.mp hlong)
    simp [candidateLineIndexes, hnone]

/-- The answer of a search with the prefilter. -/
theorem reported_answer
    {re : Regexes}
    (hcompile : host.compile request.pattern (request.ignoreCase host)
      request.config.fixedStrings = .ok re)
    {literal : Text}
    (hliteral : prefilterLiteral request.config request.pattern = some literal)
    (contents : Bytes)
    (cached : Option (List Text × TrigramIndex)) :
    reported (request.answer host file contents (.ok cached)) =
      .ok (lineLoop file re request.config.invertMatch request.config.maxCount
        (some (candidatesFor host request.config request.pattern
          (prefilterIndex host request.config request.pattern contents cached).2 literal)) 1 0
        ((prefilterIndex host request.config request.pattern contents cached).1.map
          encodeSourceLine)) := by
  rw [SearchRequest.answer, pythonSearch_of_some hcompile hliteral]
  rfl

/-- Lines and an index of the contents are as good as the contents. -/
theorem reported_answer_of_indexes
    (h : request.UsesPrefilter host)
    {contents own : Bytes}
    {lines : List Text}
    {index : TrigramIndex}
    (hindexes : IndexesContents host (request.ignoreCase host) own lines index) :
    reported (request.answer host file contents (.ok (some (lines, index)))) =
      reported (request.answer host file own (.ok none)) := by
  obtain ⟨⟨re, hcompile⟩, literal, hliteral⟩ := h
  obtain ⟨rfl, hindex⟩ := hindexes
  rw [reported_answer hcompile hliteral, reported_answer hcompile hliteral]
  simp only [prefilterIndex, Option.getD_some, Option.getD_none]
  exact congrArg Except.ok (lineLoop_congr (mem_candidateLineIndexes_congr hindex _) 1 0 _)

/-- Only the lines of the contents matter. -/
theorem reported_answer_of_lines
    (h : request.UsesPrefilter host)
    {contents own : Bytes}
    (hlines : readSourceLines contents = readSourceLines own) :
    reported (request.answer host file contents (.ok none)) =
      reported (request.answer host file own (.ok none)) := by
  obtain ⟨⟨re, hcompile⟩, literal, hliteral⟩ := h
  rw [reported_answer hcompile hliteral, reported_answer hcompile hliteral]
  simp only [prefilterIndex, Option.getD_none, hlines]

/-- Without an error from the cache there is no such error. -/
theorem reported_ne_cacheError
    (contents : Bytes)
    (exc : String) :
    reported (request.answer host file contents (.ok none)) ≠ .error (.cacheError exc) := by
  rw [SearchRequest.answer, pythonSearch]
  split
  · simp [reported, Except.map]
  · split
    · simp [reported, Except.map]
    · simp [reported, Except.map]

end Answers

/-! ## The invariant -/

section Invariant

variable {host : Host} {conv : Conversions} {file : String} {persistent : Bool}

theorem indexesContents_entryOf
    {ignoreCase : Bool}
    {signature : FileSignature}
    {contents own : Bytes}
    (hlines : readSourceLines contents = readSourceLines own) :
    IndexesContents host ignoreCase own (entryOf host ignoreCase signature contents).lines
      (entryOf host ignoreCase signature contents).index := by
  refine ⟨hlines, fun trigram i => ?_⟩
  rw [entryOf, hlines]

theorem IndexesContents.congr
    {ignoreCase : Bool}
    {contents own : Bytes}
    {lines : List Text}
    {index : TrigramIndex}
    (h : IndexesContents host ignoreCase contents lines index)
    (hlines : readSourceLines contents = readSourceLines own) :
    IndexesContents host ignoreCase own lines index := by
  rw [IndexesContents, ← hlines]
  exact h

/-- A file that is always a miss is sound. -/
theorem fileSoundFor_of_miss
    {ignoreCase : Bool}
    {cacheFile : CacheFile}
    {signature : FileSignature}
    {contents : Bytes}
    (h : loadCacheFile conv signature cacheFile = .ok none) :
    FileSoundFor host conv ignoreCase cacheFile signature contents :=
  ⟨none, h, fun _ _ heq => nomatch heq⟩

/-- What a search writes is sound for every signature: for its own signature if it has the lines of
the contents, and for the others in any case. -/
theorem fileSoundFor_entryOf
    {ignoreCase : Bool}
    {signature signature' : FileSignature}
    {contents own : Bytes}
    (hlines : signature = signature' → readSourceLines contents = readSourceLines own) :
    FileSoundFor host conv ignoreCase (entryOf host ignoreCase signature contents).toFile signature'
      own := by
  have hload := @loadPayload_storedPayload conv signature' signature
    (entryOf host ignoreCase signature contents).lines
    (entryOf host ignoreCase signature contents).index
  by_cases hsame : signature = signature'
  · rw [if_pos hsame] at hload
    refine ⟨_, hload, fun lines index heq => ?_⟩
    cases heq
    have hindexes : IndexesContents host ignoreCase own
        (entryOf host ignoreCase signature contents).lines
        (entryOf host ignoreCase signature contents).index :=
      indexesContents_entryOf (hlines hsame)
    obtain ⟨hown, hindex⟩ := hindexes
    refine ⟨hown, fun trigram i => ?_⟩
    rw [get_toAList_of_perm (perm_sortByKey _ _)]
    exact hindex trigram i
  · rw [if_neg hsame] at hload
    exact fileSoundFor_of_miss hload

/-- What is known at each place of a search. -/
def PhaseSound
    (host : Host)
    (conv : Conversions)
    (file : String)
    (persistent : Bool)
    (s : CacheState) : CachePhase → Prop
  | .idle => True
  | .begun _ => True
  | .loading request signature own =>
      request.UsesPrefilter host ∧ persistent = true ∧
        (signature = s.signature → readSourceLines own = readSourceLines s.contents) ∧
        FileSoundFor host conv (request.ignoreCase host) (s.disk (request.ignoreCase host)) signature
          own
  | .missed request => request.UsesPrefilter host
  | .read request contents =>
      request.UsesPrefilter host ∧ readSourceLines contents = readSourceLines s.contents
  | .storing request contents signature own =>
      request.UsesPrefilter host ∧ readSourceLines contents = readSourceLines own ∧
        (signature = s.signature → readSourceLines contents = readSourceLines s.contents)
  | .answered request own result =>
      reported result = reported (request.answer host file own (.ok none))

/-- The caches know nothing else under the signature of the file. -/
structure CacheSound
    (host : Host)
    (conv : Conversions)
    (file : String)
    (persistent : Bool)
    (s : CacheState) : Prop where
  memory : ∀ ignoreCase entry, s.memory ignoreCase = some entry → entry.signature = s.signature →
    IndexesContents host ignoreCase s.contents entry.lines entry.index
  disk : persistent = true → ∀ ignoreCase,
    FileSoundFor host conv ignoreCase (s.disk ignoreCase) s.signature s.contents
  phase : PhaseSound host conv file persistent s s.phase

variable {s s' : CacheState}

/-- The search comes to another place. -/
theorem CacheSound.setPhase
    (h : CacheSound host conv file persistent s)
    {phase : CachePhase}
    (hphase : PhaseSound host conv file persistent s phase) :
    CacheSound host conv file persistent { s with phase := phase } :=
  ⟨h.memory, h.disk, hphase⟩

/-- An entry in memory is dropped or replaced. -/
theorem CacheSound.setMemory
    (h : CacheSound host conv file persistent s)
    {ignoreCase : Bool}
    {new : Option CacheEntry}
    (hnew : ∀ entry, new = some entry → entry.signature = s.signature →
      IndexesContents host ignoreCase s.contents entry.lines entry.index) :
    CacheSound host conv file persistent
      { s with memory := Function.update s.memory ignoreCase new } := by
  refine ⟨fun ignoreCase' entry hentry hsignature => ?_, h.disk, h.phase⟩
  rcases eq_or_of_update hentry with ⟨rfl, heq⟩ | ⟨-, hold⟩
  · exact hnew entry heq hsignature
  · exact h.memory ignoreCase' entry hold hsignature

/-- A cache file is replaced by a sound one. -/
theorem fileSoundFor_update
    {disk : Bool → CacheFile}
    {ignoreCase ignoreCase' : Bool}
    {cacheFile : CacheFile}
    {signature : FileSignature}
    {contents : Bytes}
    (hnew : ignoreCase' = ignoreCase →
      FileSoundFor host conv ignoreCase cacheFile signature contents)
    (hold : FileSoundFor host conv ignoreCase' (disk ignoreCase') signature contents) :
    FileSoundFor host conv ignoreCase' (Function.update disk ignoreCase cacheFile ignoreCase')
      signature contents := by
  have hupdate : Function.update disk ignoreCase cacheFile ignoreCase' = _ := rfl
  rcases eq_or_of_update hupdate with ⟨rfl, heq⟩ | ⟨-, heq⟩
  · rw [← heq]
    exact hnew rfl
  · rw [← heq]
    exact hold

/-- The search under way has written the cache file, or has failed to. -/
theorem CacheSound.setDisk
    (h : CacheSound host conv file persistent s)
    {ignoreCase : Bool}
    {cacheFile : CacheFile}
    (hnew : FileSoundFor host conv ignoreCase cacheFile s.signature s.contents)
    {request : SearchRequest}
    {own : Bytes}
    {result : Except SearchError SearchResult}
    (hresult : reported result = reported (request.answer host file own (.ok none))) :
    CacheSound host conv file persistent
      { s with
        disk := Function.update s.disk ignoreCase cacheFile
        phase := .answered request own result } :=
  ⟨h.memory, fun hpersistent ignoreCase' =>
    fileSoundFor_update (fun _ => hnew) (h.disk hpersistent ignoreCase'), hresult⟩

/-- A guarded edit. -/
theorem CacheSound.edit
    (h : CacheSound host conv file persistent s)
    {contents : Bytes}
    {mtimeNs : Int}
    (hguard : KeepsCacheSound host conv persistent s (.edit contents mtimeNs)) :
    CacheSound host conv file persistent { s with contents := contents, mtimeNs := mtimeNs } := by
  obtain ⟨hread, hmemory, hdisk, hpending⟩ := hguard
  refine ⟨hmemory, hdisk, ?_⟩
  have hold := h.phase
  dsimp only
  generalize hphase : s.phase = phase at hold hread hpending
  cases phase with
  | idle => trivial
  | begun request => trivial
  | missed request => exact hold
  | answered request own result => exact hold
  | loading request signature own =>
      obtain ⟨huses, hpersistent, -, hfile⟩ := hold
      refine ⟨huses, hpersistent, fun hsame => ?_, hfile⟩
      exact (hpending own ⟨hsame, rfl⟩).symm
  | read request old =>
      exact ⟨hold.1, (hread request old rfl).symm⟩
  | storing request old signature own =>
      obtain ⟨huses, hlines, -⟩ := hold
      refine ⟨huses, hlines, fun hsame => ?_⟩
      exact (hpending old ⟨hsame, rfl⟩).symm

/-- A guarded replacement of a cache file. -/
theorem CacheSound.replace
    (h : CacheSound host conv file persistent s)
    {ignoreCase : Bool}
    {cacheFile : CacheFile}
    (hguard : KeepsCacheSound host conv persistent s (.replace ignoreCase cacheFile)) :
    CacheSound host conv file persistent
      { s with disk := Function.update s.disk ignoreCase cacheFile } := by
  refine ⟨h.memory, fun hpersistent ignoreCase' =>
    fileSoundFor_update (fun _ => (hguard hpersistent).1) (h.disk hpersistent ignoreCase'), ?_⟩
  have hold := h.phase
  dsimp only
  cases hphase : s.phase with
  | loading request signature own =>
      rw [hphase] at hold
      obtain ⟨huses, hpersistent, hlines, hfile⟩ := hold
      refine ⟨huses, hpersistent, hlines, fileSoundFor_update (fun heq => ?_) hfile⟩
      exact (hguard hpersistent).2 request signature own hphase heq
  | idle => trivial
  | begun request => trivial
  | missed request => rwa [hphase] at hold
  | read request old => rwa [hphase] at hold
  | storing request old signature own => rwa [hphase] at hold
  | answered request own result => rwa [hphase] at hold

/-- A guarded step keeps the caches sound. -/
theorem CacheSound.step
    (h : CacheSound host conv file persistent s)
    {e : CacheEvent}
    (hguard : KeepsCacheSound host conv persistent s e)
    (hstep : CacheStep host conv file persistent s e s') :
    CacheSound host conv file persistent s' := by
  have hold := h.phase
  cases hstep with
  | begin _ => exact h.setPhase trivial
  | searchPlain _ _ => exact h.setPhase rfl
  | statHit _ huses hentry hsame =>
      exact h.setPhase (reported_answer_of_indexes huses (h.memory _ _ hentry hsame))
  | @statLoad request _ huses _ =>
      refine (h.setMemory fun entry heq => by cases heq).setPhase ?_
      cases persistent with
      | false => exact huses
      | true => exact ⟨huses, rfl, fun _ => rfl, h.disk rfl _⟩
  | cacheFileHit hphase hload =>
      rw [hphase] at hold
      obtain ⟨huses, -, hlines, cached, hcached, hindexes⟩ := hold
      rw [hload] at hcached
      cases hcached
      have hown := hindexes _ _ rfl
      refine (h.setMemory fun entry heq hsame => ?_).setPhase
        (reported_answer_of_indexes huses hown)
      cases heq
      exact hown.congr (hlines hsame)
  | cacheFileMiss hphase _ =>
      rw [hphase] at hold
      exact h.setPhase hold.1
  | cacheFileRaises hphase hload =>
      rw [hphase] at hold
      obtain ⟨-, -, -, cached, hcached, -⟩ := hold
      rw [hload] at hcached
      cases hcached
  | readFile hphase =>
      rw [hphase] at hold
      exact h.setPhase ⟨hold, rfl⟩
  | statStore hphase =>
      rw [hphase] at hold
      obtain ⟨huses, hlines⟩ := hold
      refine (h.setMemory fun entry heq _ => ?_).setPhase ?_
      · cases heq
        exact indexesContents_entryOf hlines
      · cases persistent with
        | false => exact reported_answer_of_lines huses hlines
        | true => exact ⟨huses, hlines, fun _ => hlines⟩
  | writeCacheFile hphase =>
      rw [hphase] at hold
      obtain ⟨huses, hlines, hsame⟩ := hold
      exact h.setDisk (fileSoundFor_entryOf hsame) (reported_answer_of_lines huses hlines)
  | @writeFails _ _ _ _ truncates hphase =>
      rw [hphase] at hold
      obtain ⟨huses, hlines, -⟩ := hold
      cases truncates with
      | false => exact h.setPhase (reported_answer_of_lines huses hlines)
      | true => exact h.setDisk (fileSoundFor_of_miss rfl) (reported_answer_of_lines huses hlines)
  | edit _ => exact h.edit hguard
  | replace => exact h.replace hguard
  | evict => exact h.setMemory fun entry heq => by cases heq

/-- In every state of a guarded run the caches are sound. -/
theorem cacheSound_of_reachable
    (h : (literalCache host conv file persistent).Reachable
      (KeepsCacheSound host conv persistent) s) :
    CacheSound host conv file persistent s := by
  refine h.invariant ?_ fun _ _ _ hsound hguard hstep => hsound.step hguard hstep
  rintro s ⟨hmemory, hdisk, hphase⟩
  refine ⟨fun ignoreCase entry hentry => ?_, fun _ ignoreCase => ?_, ?_⟩
  · rw [hmemory] at hentry
    cases hentry
  · rw [hdisk]
    exact fileSoundFor_of_miss rfl
  · rw [hphase]
    trivial

/-- In a guarded run every search reports what it reports without a cache on the contents that the
file had when the search last took its signature, and no cache file makes it raise. -/
theorem cache_keeps_answers
    (h : (literalCache host conv file persistent).Reachable
      (KeepsCacheSound host conv persistent) s)
    {request : SearchRequest}
    {own : Bytes}
    {result : Except SearchError SearchResult}
    (hanswered : s.phase = .answered request own result) :
    reported result = reported (request.answer host file own (.ok none)) ∧
      ∀ exc, result ≠ .error (.cacheError exc) := by
  have hsame := (cacheSound_of_reachable h).phase
  rw [hanswered] at hsame
  refine ⟨hsame, ?_⟩
  rintro exc rfl
  exact reported_ne_cacheError own exc hsame.symm

end Invariant

/-- Conversions for payloads of the cache itself. -/
def plainConversions : Conversions where
  floatIs := fun _ _ => false
  truncate := fun _ => 0
  parseInt := fun _ => .error "invalid literal for int() with base 10"
  display := fun _ => []

/-- A request for `abc`. -/
def abcRequest : SearchRequest where
  config :=
    { ignoreCase := false, smartCase := false, fixedStrings := false, invertMatch := false
      pcre2 := false, text := false, binary := false, maxCount := none }
  pattern := ['a', 'b', 'c']

theorem abcRequest_usesPrefilter :
    abcRequest.UsesPrefilter (pythonHost plainTables) :=
  ⟨⟨_, rfl⟩, ['a', 'b', 'c'], by decide⟩

/-- A file with the line `abc`, and nothing cached. -/
def abcFile : CacheState where
  contents := [97, 98, 99, 10]
  mtimeNs := 0
  memory := fun _ => none
  disk := fun _ => .absent
  phase := .idle

theorem abcFile_init :
    (literalCache (pythonHost plainTables) plainConversions "t" false).init abcFile :=
  ⟨fun _ => rfl, fun _ => rfl, rfl⟩

/-- A search that finds the entry of another search in memory. -/
theorem cache_keeps_answers_hit :
    reported (abcRequest.answer (pythonHost plainTables) "t" [97, 98, 99, 10]
        (.ok (some (readSourceLines [97, 98, 99, 10],
          indexSourceLines (pythonHost plainTables) false (readSourceLines [97, 98, 99, 10]))))) =
        reported (abcRequest.answer (pythonHost plainTables) "t" [97, 98, 99, 10] (.ok none)) ∧
      ∀ exc, abcRequest.answer (pythonHost plainTables) "t" [97, 98, 99, 10]
        (.ok (some (readSourceLines [97, 98, 99, 10],
          indexSourceLines (pythonHost plainTables) false
            (readSourceLines [97, 98, 99, 10])))) ≠ .error (.cacheError exc) := by
  have h0 : (literalCache (pythonHost plainTables) plainConversions "t" false).Reachable
      (KeepsCacheSound (pythonHost plainTables) plainConversions false) abcFile :=
    StepSystem.Reachable.start abcFile_init
  have h1 := h0.next (l := CacheEvent.begin abcRequest) trivial (CacheStep.begin (Or.inl rfl))
  have h2 := h1.next (l := CacheEvent.statLoad) trivial
    (CacheStep.statLoad rfl abcRequest_usesPrefilter fun _ heq => nomatch heq)
  have h3 := h2.next (l := CacheEvent.readFile) trivial (CacheStep.readFile rfl)
  have h4 := h3.next (l := CacheEvent.statStore) trivial (CacheStep.statStore rfl)
  have h5 := h4.next (l := CacheEvent.begin abcRequest) trivial
    (CacheStep.begin (Or.inr ⟨_, _, _, rfl⟩))
  have h6 := h5.next (l := CacheEvent.statLoad) trivial
    (CacheStep.statHit rfl abcRequest_usesPrefilter rfl rfl)
  exact cache_keeps_answers h6 rfl

/-- The file is edited after its lines were read and before they are stored: the next search for
`abc` still finds the line that is gone. -/
theorem edited_file_served_from_cache :
    ¬ ∀ s, (literalCache (pythonHost plainTables) plainConversions "t" false).Reachable
        (fun _ _ => True) s → ∀ request own result, s.phase = .answered request own result →
      reported result = reported (request.answer (pythonHost plainTables) "t" own (.ok none)) := by
  intro hall
  have h0 : (literalCache (pythonHost plainTables) plainConversions "t" false).Reachable
      (fun _ _ => True) abcFile :=
    StepSystem.Reachable.start abcFile_init
  have h1 := h0.next (l := CacheEvent.begin abcRequest) trivial (CacheStep.begin (Or.inl rfl))
  have h2 := h1.next trivial
    (CacheStep.statLoad rfl abcRequest_usesPrefilter fun _ heq => nomatch heq)
  have h3 := h2.next trivial (CacheStep.readFile rfl)
  have h4 := h3.next (l := CacheEvent.edit [120, 10] 1) trivial
    (CacheStep.edit fun heq => nomatch heq)
  have h5 := h4.next trivial (CacheStep.statStore rfl)
  have h6 := h5.next (l := CacheEvent.begin abcRequest) trivial
    (CacheStep.begin (Or.inr ⟨_, _, _, rfl⟩))
  have h7 := h6.next trivial (CacheStep.statHit rfl abcRequest_usesPrefilter rfl rfl)
  have hsame := hall _ h7 abcRequest [120, 10] _ rfl
  have hold : readSourceLines abcFile.contents = [['a', 'b', 'c']] := by
    have hdecoded : decodeReplace abcFile.contents = ['a', 'b', 'c', '\n'] := by
      simp [abcFile, decodeReplace, toStringLossy, continuationRanges, matchedContinuation]
      decide
    rw [readSourceLines, hdecoded]
    decide
  have hnew : readSourceLines [120, 10] = [['x']] := by
    have hdecoded : decodeReplace [120, 10] = ['x', '\n'] := by
      simp [decodeReplace, toStringLossy, continuationRanges, matchedContinuation]
      decide
    rw [readSourceLines, hdecoded]
    decide
  have hliteral : prefilterLiteral abcRequest.config abcRequest.pattern =
      some ['a', 'b', 'c'] := by decide
  rw [reported_answer rfl hliteral, reported_answer rfl hliteral] at hsame
  revert hsame
  simp only [prefilterIndex, Option.getD_some, Option.getD_none, entryOf, hold, hnew]
  exact fun hsame => absurd (Except.ok.inj hsame) (by decide)

end CpuSearch
end TensorGrep
