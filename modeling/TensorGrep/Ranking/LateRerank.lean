import TensorGrep.Kernel.ExceptList
import TensorGrep.Ranking.Fusion

/-!
# Late reranking

`rank_chunks` fuses the rankings of a query and may then let a late reranker
reorder the head of the fused order.  The reranker runs in a thread of its own:
it may not end in time, it may say that it is not available, or it may fail.

The encoder of the late reranker, the indexes and the splitting of texts into
terms are parameters.
-/

namespace TensorGrep
namespace Ranking

open Kernel

/-! ## The late reranker -/

/-- What an encoder makes of a text: rows of numbers, all of one length. -/
structure TokenMatrix where
  dim : Nat
  rows : List (List ℚ)
  length_of_mem : ∀ row ∈ rows, row.length = dim

/-- `LateRerankUnavailableError`, or any other error. -/
inductive RerankError where
  | unavailable (message : String)
  | fault (message : String)
deriving DecidableEq

/-- The scalar product of two rows. -/
def dot (a b : List ℚ) : ℚ :=
  (List.zipWith (· * ·) a b).sum

/-- One matrix against another: for every row of the first the greatest product with a row of
the second, all of them added up. -/
def maxsim
    (query doc : TokenMatrix) : ℚ :=
  (query.rows.map fun q => ((doc.rows.map (dot q)).max?).getD 0).sum

/-- `maxsim_scores`. -/
def maxsimScores
    (query : TokenMatrix)
    (docs : List TokenMatrix) : Except RerankError (List ℚ) :=
  docs.mapM fun doc =>
    if query.rows.length * query.dim = 0 ∨ doc.rows.length * doc.dim = 0 then .ok 0
    else if query.dim ≠ doc.dim then .error (.fault "matmul: mismatch in core dimension")
    else .ok (maxsim query doc)

/-- `rank_by_maxsim`. -/
def rankByMaxsim
    (scores : List ℚ)
    (indices : List Nat) : Except RerankError (List Nat) :=
  if scores.length ≠ indices.length then .error (.fault "zip() argument lengths differ")
  else .ok (rankedKeys (indices.zip scores))

/-- `LateReranker`. -/
structure LateReranker where
  encode : Text → Except RerankError TokenMatrix
  encodeQuery : Option (Text → Except RerankError TokenMatrix)

/-- `LateReranker.rerank`. -/
def LateReranker.rerank
    (reranker : LateReranker)
    (query : Text)
    (chunks : List Text)
    (indices : List Nat) : Except RerankError (List Nat) :=
  if indices = [] then .ok []
  else do
    let queryMatrix ← (reranker.encodeQuery.getD reranker.encode) query
    let docMatrices ← chunks.mapM reranker.encode
    let scores ← maxsimScores queryMatrix docMatrices
    rankByMaxsim scores indices

/-- Ranking the entries of a list keeps all of them. -/
theorem perm_rankedKeys
    {indices : List Nat}
    {scores : List ℚ}
    (h : scores.length = indices.length) :
    (rankedKeys (indices.zip scores)).Perm indices := by
  have hperm := (perm_sortByKey (fun e : Nat × ℚ => toLex (OrderDual.toDual e.2, e.1))
    (indices.zip scores)).map Prod.fst
  rwa [List.map_fst_zip h.ge] at hperm

/-- A reranker gives back what it is given, in another order. -/
theorem LateReranker.perm_rerank
    {reranker : LateReranker}
    {query : Text}
    {chunks : List Text}
    {indices order : List Nat}
    (h : reranker.rerank query chunks indices = .ok order) :
    order.Perm indices := by
  rw [LateReranker.rerank] at h
  split_ifs at h with hempty
  · cases h
    rw [hempty]
  · rw [bind_eq_ok_iff] at h
    obtain ⟨queryMatrix, -, h⟩ := h
    rw [bind_eq_ok_iff] at h
    obtain ⟨docMatrices, -, h⟩ := h
    rw [bind_eq_ok_iff] at h
    obtain ⟨scores, -, h⟩ := h
    rw [rankByMaxsim] at h
    split_ifs at h with hlength
    cases h
    exact perm_rankedKeys (not_not.mp hlength)

/-! ## Ranking chunks -/

/-- What `rank_chunks` is called with, and what it finds in the environment: `rerankPoolK` and
`rerankBudgetMs` are the values of `_int_env`.  `lateInTime` says whether the thread of the late
reranker has ended when its time is over. -/
structure RankInput where
  query : Text
  chunks : List Chunk
  bm25Index : Text → Nat → List (Nat × ℚ)
  denseIndex : Option (Text → Nat → List (Nat × ℚ))
  lateReranker : Option (Text → List Text → List Nat → Except RerankError (List Nat))
  k : ℤ
  denseWeight : ℚ
  combine : Combine
  channelsEnabled : Bool
  splitTerms : Text → List Text
  stem : String → Text
  rerankPoolK : ℤ
  rerankBudgetMs : ℤ
  lateInTime : Bool

/-- `PATH_CHANNEL_WEIGHT`. -/
def pathChannelWeight : ℚ := 3 / 2

/-- `_MAX_RERANK_POOL_K`. -/
def maxRerankPoolK : ℤ := 100

namespace RankInput

variable (input : RankInput)

/-- `_path_channel_ranking`. -/
def pathChannelRanking : List Nat :=
  let queryTerms := (input.splitTerms input.query).dedup
  if queryTerms = [] then []
  else
    rankedKeys ((input.chunks.zipIdx.map fun c =>
      (c.2, (queryTerms.filter
        (fun term => (input.splitTerms (input.stem c.1.filePath)).contains term)).length)).filter
      fun e => 0 < e.2)

/-- The rankings that are fused, and their weights. -/
def legs : List (List Nat) × Option (List ℚ) :=
  let total := max 1 input.chunks.length
  let rankings := (input.bm25Index input.query total).map Prod.fst ::
    (input.denseIndex.map fun index => (index input.query total).map Prod.fst).toList
  let weights :=
    if input.denseIndex.isSome ∧ input.denseWeight ≠ 1 then some [1, input.denseWeight] else none
  if input.channelsEnabled then
    let weights := weights.getD (rankings.map fun _ => 1)
    if input.pathChannelRanking = [] then (rankings, some weights)
    else (rankings ++ [input.pathChannelRanking], some (weights ++ [pathChannelWeight]))
  else (rankings, weights)

/-- The fused order before the late reranker has its turn. -/
def fusedOrder : Except String (List Nat) :=
  reciprocalRankFusion input.legs.1 input.k input.legs.2 input.combine

/-- How many chunks the late reranker is given. -/
def poolK : Nat :=
  (max 0 (min input.rerankPoolK maxRerankPoolK)).toNat

/-- `_run_late_rerank`. -/
def runLateRerank
    (rerank : Text → List Text → List Nat → Except RerankError (List Nat))
    (head : List Nat) : Except RerankError (List Nat) :=
  match head.mapM (fun i => input.chunks[i]?) with
  | none => .error (.fault "list index out of range")
  | some chunks => rerank input.query (chunks.map Chunk.text) head

/-- What is said when the late reranker does not end in time. -/
def budgetExceeded : String :=
  "late rerank unavailable: budget exceeded (>" ++ toString input.rerankBudgetMs ++
    "ms at pool_k=" ++ toString input.poolK ++ ")"

/-- The splice of the late reranker: the final order, and why it had no say in it. -/
def spliceLate (fused : List Nat) : Except String (List Nat × Option String) :=
  match input.lateReranker with
  | none => .ok (fused, none)
  | some rerank =>
      if input.lateInTime then
        match input.runLateRerank rerank (fused.take input.poolK) with
        | .ok order => .ok (order ++ fused.drop input.poolK, none)
        | .error (.unavailable message) => .ok (fused, some message)
        | .error (.fault message) => .error message
      else .ok (fused, some input.budgetExceeded)

/-- `rank_chunks`. -/
def rankChunks : Except String (List Nat × Option String) := do
  let fused ← input.fusedOrder
  input.spliceLate fused

/-- The late reranker reorders the head that it is given, fails and can be done without, or is
not done in time. -/
def LateOutcome (fused : List Nat) : Prop :=
  ∀ rerank, input.lateReranker = some rerank → input.lateInTime = true →
    (∃ order, input.runLateRerank rerank (fused.take input.poolK) = .ok order ∧
      order.Perm (fused.take input.poolK)) ∨
    ∃ message, input.runLateRerank rerank (fused.take input.poolK) =
      .error (.unavailable message)

end RankInput

/-- An order in which only the head of another one has been reordered. -/
def ReorderedHead
    (n : Nat)
    (fused order : List Nat) : Prop :=
  order.Perm fused ∧ (order.take n).Perm (fused.take n) ∧ order.drop n = fused.drop n

theorem reorderedHead_refl
    (n : Nat)
    (fused : List Nat) :
    ReorderedHead n fused fused :=
  ⟨List.Perm.refl _, List.Perm.refl _, rfl⟩

/-- Putting the reordered head before the tail. -/
theorem reorderedHead_of_perm
    {n : Nat}
    {fused head : List Nat}
    (h : head.Perm (fused.take n)) :
    ReorderedHead n fused (head ++ fused.drop n) := by
  have hperm : (head ++ fused.drop n).Perm fused := by
    have happend := h.append_right (fused.drop n)
    rwa [List.take_append_drop] at happend
  by_cases hn : n ≤ fused.length
  · have hlength : head.length = n := by
      rw [h.length_eq, List.length_take, min_eq_left hn]
    refine ⟨hperm, ?_, ?_⟩
    · rw [← hlength, List.take_left, hlength]
      exact h
    · conv_lhs => rw [← hlength, List.drop_left, hlength]
  · have hn' : fused.length ≤ n := (not_le.mp hn).le
    have hlength : head.length ≤ n := by
      rw [h.length_eq, List.length_take]
      exact min_le_left n fused.length
    rw [List.drop_eq_nil_of_le hn', List.append_nil] at hperm ⊢
    refine ⟨hperm, ?_, List.drop_eq_nil_of_le hlength |>.trans (List.drop_eq_nil_of_le hn').symm⟩
    rw [List.take_of_length_le hlength]
    exact h

/-- Whatever becomes of the late reranker, only the head of the fused order is reordered. -/
theorem rankChunks_reordersHead
    {input : RankInput}
    {fused : List Nat}
    (hfused : input.fusedOrder = .ok fused)
    (hlate : input.LateOutcome fused) :
    ∃ order reason, input.rankChunks = .ok (order, reason) ∧
      ReorderedHead input.poolK fused order ∧ (reason ≠ none → order = fused) := by
  have hsplice : input.rankChunks = input.spliceLate fused := by
    rw [RankInput.rankChunks, hfused]
    rfl
  rw [hsplice, RankInput.spliceLate]
  cases hreranker : input.lateReranker with
  | none => exact ⟨fused, none, rfl, reorderedHead_refl _ _, fun _ => rfl⟩
  | some rerank =>
      dsimp only
      by_cases htime : input.lateInTime = true
      · rw [if_pos htime]
        rcases hlate rerank hreranker htime with ⟨order, horder, hperm⟩ | ⟨message, hmessage⟩
        · rw [horder]
          exact ⟨_, none, rfl, reorderedHead_of_perm hperm, fun h => absurd rfl h⟩
        · rw [hmessage]
          exact ⟨fused, some message, rfl, reorderedHead_refl _ _, fun _ => rfl⟩
      · rw [if_neg htime]
        exact ⟨fused, _, rfl, reorderedHead_refl _ _, fun _ => rfl⟩

/-- Rank fusion: who is ranked, that the order of the legs does not matter, what the order is
without weights, that a further leg only helps its chunks; and that behind it the late reranker,
which gives back what it is given, reorders the head and nothing else. -/
theorem rankFusion_laws :
    (∀ (ι : Type) [LinearOrder ι] (legs : List (List ι × ℚ)) (k : ℤ), 1 ≤ k →
      FusionLaws legs k) ∧
    (∀ (input : RankInput) (fused : List Nat), input.fusedOrder = .ok fused →
      input.LateOutcome fused →
      ∃ order reason, input.rankChunks = .ok (order, reason) ∧
        ReorderedHead input.poolK fused order ∧ (reason ≠ none → order = fused)) ∧
    ∀ (reranker : LateReranker) (query : Text) (chunks : List Text) (indices order : List Nat),
      reranker.rerank query chunks indices = .ok order → order.Perm indices :=
  ⟨fun _ _ legs _ hk => fusionLaws legs hk,
    fun _ _ hfused hlate => rankChunks_reordersHead hfused hlate,
    fun _ _ _ _ _ h => LateReranker.perm_rerank h⟩

/-- A query that finds the second of two chunks before the first one, and a late reranker that
turns its head around. -/
def turnedHead : RankInput where
  query := []
  chunks := [⟨"a.py", 1, 1, []⟩, ⟨"b.py", 1, 1, []⟩]
  bm25Index := fun _ _ => [(1, 2), (0, 1)]
  denseIndex := none
  lateReranker := some fun _ _ head => .ok head.reverse
  k := 60
  denseWeight := 1
  combine := .max
  channelsEnabled := false
  splitTerms := fun _ => []
  stem := fun _ => []
  rerankPoolK := 50
  rerankBudgetMs := 2000
  lateInTime := true

/-- Both parts at work: two legs are fused, and the head of an order is turned around. -/
theorem rankFusion_laws_turned_head :
    FusionLaws [([2, 0], 1), ([0, 1], 2)] 60 ∧
      ∃ order reason, turnedHead.rankChunks = .ok (order, reason) ∧
        ReorderedHead turnedHead.poolK [1, 0] order ∧ (reason ≠ none → order = [1, 0]) := by
  refine ⟨rankFusion_laws.1 ℕ _ 60 (by decide), rankFusion_laws.2.1 turnedHead [1, 0] ?_ ?_⟩
  · decide +kernel
  · intro rerank hrerank _
    cases hrerank
    exact Or.inl ⟨[0, 1], rfl, List.Perm.swap 1 0 []⟩

end Ranking
end TensorGrep
