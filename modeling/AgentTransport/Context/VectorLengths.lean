import AgentTransport.Context.Selection
import AgentTransport.Context.Similarity

/-! Where vectors of different length are kept from the dot product, and where they are not. The
    guards compare the dimensions that the embeddings state:

        cosine_similarity    of both embeddings
        rank_by_similarity   of each candidate, unless the query is zero
        extract_msc          of the task and the configuration
        handle_request       nothing -/

namespace ATP
open F64 Collections
variable {F : Type} [F64 F]

/-- A computation that does not panic, and that reports a dimension mismatch when there is one. -/
def Guards {A : Type} (mismatched : Prop) (outcome : Option (Except (ContextError F) A)) : Prop :=
  outcome ≠ none ∧
    (mismatched → ∃ expected got, outcome = some (.error (.dimensionMismatch expected got)))

/-- A request that is answered, with no chunks when the vectors of the task and of a requested
    chunk differ in length. -/
def GuardsRequest (lib : External F) (p : ContextProvider F) (request : ContextRequestMsg F) :
    Prop :=
  p.handleRequest lib request ≠ none ∧
    ((∃ idx ∈ request.requestedChunkIndices, ∃ piece,
      (splitIntoChunks p.fullContext p.compressor.config.chunkSize)[idx.toNat]? = some piece ∧
      (embed lib piece p.compressor.config.dimensions).values.length ≠
        p.taskEmbedding.values.length) → p.handleRequest lib request = some [])

section Guarded
variable {lib : External F} {a b query task : ContextEmbedding F}
  {candidates : List (ContextEmbedding F)} {config : MscConfig F} {data : List UInt8}
  {p : ContextProvider F} {request : ContextRequestMsg F}

theorem guards_cosine_iff :
    Guards (a.values.length ≠ b.values.length) (cosineSimilarity lib a b) ↔
      a.dimensions ≠ b.dimensions ∨ a.values.length = b.values.length := by
  rw [cosineSimilarity_eq]
  by_cases hdims : a.dimensions ≠ b.dimensions
  · rw [if_pos hdims]
    exact iff_of_true ⟨by simp, fun _ => ⟨_, _, rfl⟩⟩ (Or.inl hdims)
  · rw [if_neg hdims, or_iff_right hdims]
    by_cases hlen : a.values.length = b.values.length
    · rw [if_pos hlen]
      exact iff_of_true ⟨by simp, fun h => absurd hlen h⟩ hlen
    · rw [if_neg hlen]
      exact iff_of_false (fun h => h.1 rfl) hlen

/-- A ranking of candidates that are of the length of the query, or that is stopped by a candidate
    of other stated dimensions before it compares a longer or shorter vector. -/
def Ranks (lib : External F) (query : ContextEmbedding F)
    (candidates : List (ContextEmbedding F)) : Prop :=
  (∀ c ∈ candidates, c.values.length = query.values.length) ∨
    ¬ l2Norm lib query.values < epsilon ∧
      ∃ pre c post, candidates = pre ++ c :: post ∧ c.dimensions ≠ query.dimensions ∧
        ∀ x ∈ pre, l2Norm lib x.values < epsilon ∨ x.values.length = query.values.length

/-- A failed ranking failed at a candidate of other stated dimensions. -/
theorem rank_error {e : ContextError F}
    (h : rankBySimilarity lib query candidates = some (.error e)) :
    ¬ l2Norm lib query.values < epsilon ∧
      ∃ pre c post, candidates = pre ++ c :: post ∧ (∀ x ∈ pre, Scorable lib query x) ∧
        c.dimensions ≠ query.dimensions ∧
        e = .dimensionMismatch query.dimensions c.dimensions := by
  obtain ⟨hzero, herror⟩ := rankBySimilarity_eq_error_iff.mp h
  obtain ⟨pre, x, post, hsplit, hpre, hx⟩ := collect_eq_error herror
  obtain ⟨hdims, rfl⟩ := (scoreCandidate_eq_error_iff x e).mp hx
  refine ⟨hzero, pre.map Prod.fst, x.1, post.map Prod.fst, ?_, ?_, hdims, rfl⟩
  · rw [← List.zipIdx_map_fst 0 candidates, hsplit, List.map_append, List.map_cons]
  · intro c hc
    obtain ⟨y, hy, rfl⟩ := List.mem_map.mp hc
    obtain ⟨r, hr⟩ := hpre y hy
    exact ((scoreCandidate_eq_ok_iff y r).mp hr).1

theorem guards_rank_iff :
    Guards (∃ c ∈ candidates, c.values.length ≠ query.values.length)
      (rankBySimilarity lib query candidates) ↔ Ranks lib query candidates := by
  constructor
  · intro h
    by_cases hall : ∀ c ∈ candidates, c.values.length = query.values.length
    · exact Or.inl hall
    · push Not at hall
      obtain ⟨expected, got, herror⟩ := h.2 hall
      obtain ⟨hzero, pre, c, post, hsplit, hpre, hdims, -⟩ := rank_error herror
      exact Or.inr ⟨hzero, pre, c, post, hsplit, hdims, fun x hx => (hpre x hx).2⟩
  · rintro (hall | ⟨hzero, pre, c, post, rfl, hdims, hpre⟩)
    · refine ⟨?_, fun ⟨c, hc, hlen⟩ => absurd (hall c hc) hlen⟩
      by_cases hzero : l2Norm lib query.values < epsilon
      · simp [rankBySimilarity, hzero]
      · have hscored : ∀ x ∈ candidates.zipIdx, scoreCandidate lib query
            (query.values.map (· / l2Norm lib query.values)) x ≠ none := by
          intro x hx hnone
          exact ((scoreCandidate_eq_none_iff x).mp hnone).2
            (Or.inr (hall x.1 (List.fst_mem_of_mem_zipIdx hx)))
        simpa [rankBySimilarity, hzero] using collect_ne_none hscored
    · -- the candidate is reached, or one before it is refused
      have hpanic : ∀ x ∈ pre.zipIdx, scoreCandidate lib query
          (query.values.map (· / l2Norm lib query.values)) x ≠ none := by
        intro x hx hnone
        exact ((scoreCandidate_eq_none_iff x).mp hnone).2 (hpre x.1 (List.fst_mem_of_mem_zipIdx hx))
      obtain ⟨e, he⟩ : ∃ e, collect (scoreCandidate lib query
          (query.values.map (· / l2Norm lib query.values)))
          (pre.zipIdx ++ (c, 0 + pre.length) :: post.zipIdx (0 + pre.length + 1)) =
            some (.error e) :=
        collect_fails ((scoreCandidate_eq_error_iff (c, 0 + pre.length) _).mpr ⟨hdims, rfl⟩) hpanic
      have herror : rankBySimilarity lib query (pre ++ c :: post) = some (.error e) := by
        rw [rankBySimilarity_eq_error_iff, List.zipIdx_append, List.zipIdx_cons]
        exact ⟨hzero, he⟩
      obtain ⟨-, _, c', _, -, -, -, hmismatch⟩ := rank_error herror
      exact ⟨by rw [herror]; simp, fun _ => ⟨_, _, hmismatch ▸ herror⟩⟩

theorem guards_extract_iff :
    Guards (∃ piece ∈ splitIntoChunks data config.chunkSize,
        (embed lib piece config.dimensions).values.length ≠ task.values.length)
      (extractMsc lib data task config) ↔
      task.dimensions ≠ config.dimensions ∨ splitIntoChunks data config.chunkSize = [] ∨
        task.values.length = config.dimensions := by
  rw [extractMsc_eq]
  by_cases hdims : task.dimensions ≠ config.dimensions
  · rw [if_pos hdims]
    exact iff_of_true ⟨by simp, fun _ => ⟨_, _, rfl⟩⟩ (Or.inl hdims)
  · rw [if_neg hdims, or_iff_right hdims]
    by_cases hsplit : splitIntoChunks data config.chunkSize = []
    · rw [if_pos hsplit]
      refine iff_of_true ⟨by simp, ?_⟩ (Or.inl hsplit)
      rintro ⟨piece, hpiece, -⟩
      simp [hsplit] at hpiece
    · rw [if_neg hsplit, or_iff_right hsplit]
      by_cases hvalues : task.values.length = config.dimensions
      · rw [if_pos hvalues]
        refine iff_of_true ⟨by simp, ?_⟩ hvalues
        rintro ⟨piece, -, hlen⟩
        exact absurd (length_embed lib piece _) (hvalues ▸ hlen)
      · rw [if_neg hvalues]
        exact iff_of_false (fun h => h.1 rfl) hvalues

/-- Requested chunks that cannot be scored: a panic, unless none of them exists. -/
theorem extractAdditional_of_ne {c : ContextCompressor F}
    (h : task.values.length ≠ c.config.dimensions) (indices : List UInt32) :
    (c.extractAdditional lib data task indices = some [] ∧
      ∀ idx ∈ indices, (splitIntoChunks data c.config.chunkSize).length ≤ idx.toNat) ∨
    (c.extractAdditional lib data task indices = none ∧
      ¬ ∀ idx ∈ indices, (splitIntoChunks data c.config.chunkSize).length ≤ idx.toNat) := by
  simp only [ContextCompressor.extractAdditional, extractChunksByIndex]
  have hnil : (indices.filterMap fun idx =>
      ((splitIntoChunks data c.config.chunkSize)[idx.toNat]?).map fun x => (x, idx.toNat)) = [] ↔
      ∀ idx ∈ indices, (splitIntoChunks data c.config.chunkSize).length ≤ idx.toNat := by
    simp [List.filterMap_eq_nil_iff]
  rw [← hnil]
  cases indices.filterMap fun idx =>
      ((splitIntoChunks data c.config.chunkSize)[idx.toNat]?).map fun x => (x, idx.toNat) with
  | nil => exact Or.inl ⟨rfl, rfl⟩
  | cons x xs =>
    refine Or.inr ⟨?_, List.cons_ne_nil x xs⟩
    rw [List.mapM_cons, scoreChunk_eq, if_neg h]
    rfl

theorem guards_request_iff : GuardsRequest lib p request ↔
    p.taskEmbedding.values.length = p.compressor.config.dimensions ∨
      ∀ idx ∈ request.requestedChunkIndices,
        (splitIntoChunks p.fullContext p.compressor.config.chunkSize).length ≤ idx.toNat := by
  rw [GuardsRequest, ContextProvider.handleRequest]
  by_cases hvalues : p.taskEmbedding.values.length = p.compressor.config.dimensions
  · rw [extractAdditional_eq lib _ hvalues]
    refine iff_of_true ⟨by simp, ?_⟩ (Or.inl hvalues)
    rintro ⟨idx, -, piece, -, hlen⟩
    exact absurd (length_embed lib piece _) (hvalues ▸ hlen)
  · rw [or_iff_right hvalues]
    obtain ⟨heq, hnone⟩ | ⟨heq, hsome⟩ :=
      @extractAdditional_of_ne _ _ lib _ p.fullContext _ hvalues request.requestedChunkIndices
    · rw [heq]
      exact iff_of_true ⟨by simp, fun _ => rfl⟩ hnone
    · rw [heq]
      exact iff_of_false (fun h => h.1 rfl) hsome

/-- When vectors of different length never reach the dot product. -/
theorem dot_guarded_iff (lib : External F) (a b query task : ContextEmbedding F)
    (candidates : List (ContextEmbedding F)) (config : MscConfig F) (data : List UInt8)
    (p : ContextProvider F) (request : ContextRequestMsg F) :
    (Guards (a.values.length ≠ b.values.length) (cosineSimilarity lib a b) ↔
      a.dimensions ≠ b.dimensions ∨ a.values.length = b.values.length) ∧
    (Guards (∃ c ∈ candidates, c.values.length ≠ query.values.length)
      (rankBySimilarity lib query candidates) ↔ Ranks lib query candidates) ∧
    (Guards (∃ piece ∈ splitIntoChunks data config.chunkSize,
        (embed lib piece config.dimensions).values.length ≠ task.values.length)
      (extractMsc lib data task config) ↔
      task.dimensions ≠ config.dimensions ∨ splitIntoChunks data config.chunkSize = [] ∨
        task.values.length = config.dimensions) ∧
    (GuardsRequest lib p request ↔
      p.taskEmbedding.values.length = p.compressor.config.dimensions ∨
        ∀ idx ∈ request.requestedChunkIndices,
          (splitIntoChunks p.fullContext p.compressor.config.chunkSize).length ≤ idx.toNat) :=
  ⟨guards_cosine_iff, guards_rank_iff, guards_extract_iff, guards_request_iff⟩

end Guarded

/-- An embedding from the wire that states two dimensions and carries one value panics
    everywhere. -/
theorem wire_embedding_panics :
    let emb := protoToEmbedding (⟨2, [1]⟩ : Proto.Embedding ℚ)
    let query := ContextEmbedding.new [1, 0]
    let config : MscConfig ℚ := ⟨1 / 2, 0, 1, 2⟩
    ¬ Guards (query.values.length ≠ emb.values.length) (cosineSimilarity exactLib query emb) ∧
      ¬ Guards (∃ c ∈ [emb], c.values.length ≠ query.values.length)
        (rankBySimilarity exactLib query [emb]) ∧
      ¬ Guards (∃ piece ∈ splitIntoChunks [0] config.chunkSize,
          (embed exactLib piece config.dimensions).values.length ≠ emb.values.length)
        (extractMsc exactLib [0] emb config) ∧
      ¬ GuardsRequest exactLib ⟨⟨config⟩, [0], emb⟩ ⟨⟨1⟩, ⟨2⟩, 0, 0, [0]⟩ :=
  ⟨fun h => h.1 (by decide +kernel), fun h => h.1 (by decide +kernel),
    fun h => h.1 (by decide +kernel), fun h => h.1 (by decide +kernel)⟩

end ATP
