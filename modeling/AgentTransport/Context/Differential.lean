import AgentTransport.Context.Extraction
import Mathlib.Data.UInt

/-! Context diffs on the receiving side: reconstruction of partial context, and merging of chunks
    that arrive later.

    The chunks of a context form a table, one entry for each piece of the data, with its index and
    its score. Extraction takes the entries that score best and drops the rest; a request takes
    entries by index. Neither changes an entry. -/

namespace ATP
open F64 Collections
variable {F : Type} [F64 F]

/-- Reconstruct partial context: the data of all chunks in index order. -/
def applyDiff (diff : ContextDiff F) : List UInt8 :=
  (diff.chunks.insertionSort fun a b => a.index ≤ b.index).flatMap (·.data)

/-- Merge additional chunks into a diff: those with a new index, re-sorted by relevance. -/
def mergeChunks (diff : ContextDiff F) (additional : List (ContextChunk F)) : ContextDiff F :=
  let existing := diff.chunks.map (·.index)
  let chunks := sortDesc (·.relevanceScore)
    (diff.chunks ++ additional.filter fun c => c.index ∉ existing)
  { diff with
    chunks := chunks
    compressedSize := (chunks.map fun c => UInt64.ofNat c.data.length).sum
    confidence := if chunks.isEmpty then diff.confidence
      else F64.sum (chunks.map (·.relevanceScore)) / lit chunks.length }

theorem perm_mergeChunks (diff : ContextDiff F) (additional : List (ContextChunk F)) :
    (mergeChunks diff additional).chunks.Perm (diff.chunks ++
      additional.filter fun c => c.index ∉ diff.chunks.map (·.index)) :=
  sortDesc_perm _ _

/-- The indices after a merge: those of the diff, and those offered that it lacked. -/
theorem perm_index_mergeChunks (diff : ContextDiff F) (additional : List (ContextChunk F)) :
    ((mergeChunks diff additional).chunks.map (·.index)).Perm (diff.chunks.map (·.index) ++
      (additional.map (·.index)).filter (· ∉ diff.chunks.map (·.index))) := by
  rw [List.filter_map, ← List.map_append]
  exact (perm_mergeChunks diff additional).map _

/-! ### The table of chunks -/

section Table
variable (lib : External F) (task : ContextEmbedding F) (config : MscConfig F) (data : List UInt8)

theorem length_hashStream (rounds : ℕ) (hash : Vector UInt8 32) :
    (hashStream lib rounds hash).length = 4 * rounds := by
  induction rounds generalizing hash with
  | zero => rfl
  | succ rounds ih =>
    rw [hashStream, List.length_append, ih]
    simp only [hashValues, List.length_map, List.length_range]
    omega

theorem length_normalize (v : List F) : (normalize lib v).length = v.length := by
  rw [normalize]
  split <;> simp

/-- An embedding has the dimensions asked for. -/
theorem length_embed (dimensions : ℕ) :
    (embed lib data dimensions).values.length = dimensions := by
  simp only [embed, ContextEmbedding.new, length_normalize, List.length_take, length_hashStream]
  omega

/-- The similarity of a piece to the task. -/
def similarity (piece : List UInt8) : F :=
  (cosineSimilarityArrays lib task.values (embed lib piece config.dimensions).values).getD 0

/-- The chunk of a piece of the data. -/
def chunkOf (p : List UInt8 × ℕ) : ContextChunk F :=
  ⟨UInt32.ofNat p.2, p.1, similarity lib task config p.1⟩

/-- All chunks of the data, in order. -/
def table : List (ContextChunk F) :=
  (splitIntoChunks data config.chunkSize).zipIdx.map (chunkOf lib task config)

/-- The chunks that extraction selects: the most similar ones above the threshold, within the
    budget. -/
def selected : List (ContextChunk F) :=
  let relevant := (table lib task config data).filter
    fun c => c.relevanceScore > config.relevanceThreshold
  let sorted := sortDesc (·.relevanceScore) relevant
  if config.maxChunks > 0 ∧ sorted.length > config.maxChunks then sorted.take config.maxChunks
  else sorted

variable {task config}

/-- A piece is scored without a panic exactly when the task has the configured dimensions. -/
theorem scoreChunk_eq (p : List UInt8 × ℕ) : scoreChunk lib task config.dimensions p =
    if task.values.length = config.dimensions then some (chunkOf lib task config p) else none := by
  simp only [scoreChunk, chunkOf, similarity, cosineSimilarityArrays, arrayDot, length_embed]
  split <;> rfl

/-- The diff that extraction makes of the selected chunks. -/
def initialOf (task : ContextEmbedding F) (config : MscConfig F) : ContextDiff F :=
  let chunks := selected lib task config data
  { baseHash := lib.sha256 data
    chunks := chunks
    confidence := if chunks.isEmpty then 0
      else F64.sum (chunks.map (·.relevanceScore)) / lit chunks.length
    originalSize := UInt64.ofNat data.length
    compressedSize := UInt64.ofNat (chunks.map (·.data.length)).sum }

/-- Scoring the pieces gives the table. -/
theorem scored_eq (h : task.values.length = config.dimensions) :
    (splitIntoChunks data config.chunkSize).zipIdx.mapM (scoreChunk lib task config.dimensions) =
      some (table lib task config data) :=
  mapM_eq_some_map fun p _ => by rw [scoreChunk_eq, if_pos h]

/-- The result that extraction makes of the selected chunks. -/
def resultOf (task : ContextEmbedding F) (config : MscConfig F) : MscResult F :=
  let chunks := selected lib task config data
  { chunks := chunks
    totalChunks := (splitIntoChunks data config.chunkSize).length
    baseHash := lib.sha256 data
    originalSize := data.length
    compressedSize := (chunks.map (·.data.length)).sum
    confidence := if chunks.isEmpty then 0
      else F64.sum (chunks.map (·.relevanceScore)) / lit chunks.length }

/-- How extraction ends: on other dimensions, with no chunk, with a result, or in the panic of the
    dot product. -/
theorem extractMsc_eq : extractMsc lib data task config =
    if task.dimensions ≠ config.dimensions then
      some (.error (.dimensionMismatch config.dimensions task.dimensions))
    else if splitIntoChunks data config.chunkSize = [] then
      some (.error (.extractionFailed "empty context data"))
    else if task.values.length = config.dimensions then
      some (.ok (resultOf lib data task config))
    else none := by
  unfold extractMsc
  by_cases hdims : task.dimensions ≠ config.dimensions
  · simp only [if_pos hdims]
    rfl
  · simp only [if_neg hdims]
    cases hsplit : splitIntoChunks data config.chunkSize with
    | nil => rfl
    | cons p ps =>
      have hlen : (p :: ps).length ≠ 0 := by simp
      simp only [if_neg hlen, if_neg (List.cons_ne_nil p ps)]
      by_cases hvalues : task.values.length = config.dimensions
      · have hscored := scored_eq lib data hvalues
        rw [hsplit] at hscored
        simp only [hscored, if_pos hvalues, resultOf, hsplit]
        rfl
      · rw [if_neg hvalues, List.zipIdx_cons, List.mapM_cons, scoreChunk_eq, if_neg hvalues]
        rfl

/-- When extraction succeeds, and with what. -/
theorem extractMsc_iff {r : MscResult F} :
    extractMsc lib data task config = some (.ok r) ↔
      task.dimensions = config.dimensions ∧ splitIntoChunks data config.chunkSize ≠ [] ∧
      task.values.length = config.dimensions ∧ r = resultOf lib data task config := by
  rw [extractMsc_eq]
  by_cases hdims : task.dimensions = config.dimensions
  · by_cases hsplit : splitIntoChunks data config.chunkSize = []
    · simp [hsplit, hdims]
    · by_cases hvalues : task.values.length = config.dimensions
      · rw [if_neg (not_not.mpr hdims), if_neg hsplit, if_pos hvalues, Option.some.injEq,
          Except.ok.injEq]
        exact ⟨fun h => ⟨hdims, hsplit, hvalues, h.symm⟩, fun h => h.2.2.2.symm⟩
      · simp [hsplit, hdims, hvalues]
  · simp [hdims]

/-- When compression succeeds, and with what. -/
theorem compress_iff {c : ContextCompressor F} {diff : ContextDiff F} :
    c.compress lib data task = some (.ok diff) ↔
      task.dimensions = c.config.dimensions ∧ splitIntoChunks data c.config.chunkSize ≠ [] ∧
      task.values.length = c.config.dimensions ∧ diff = initialOf lib data task c.config := by
  have hdiff : initialOf lib data task c.config = mscToDiff (resultOf lib data task c.config) := rfl
  rw [ContextCompressor.compress, Option.map_eq_some_iff]
  constructor
  · rintro ⟨out, hout, hok⟩
    cases out with
    | error e => cases hok
    | ok r =>
      obtain ⟨hdims, hsplit, hvalues, rfl⟩ := (extractMsc_iff lib data).mp hout
      exact ⟨hdims, hsplit, hvalues, (Except.ok.inj hok).symm⟩
  · rintro ⟨hdims, hsplit, hvalues, rfl⟩
    exact ⟨_, (extractMsc_iff lib data).mpr ⟨hdims, hsplit, hvalues, rfl⟩, rfl⟩

theorem getElem?_table (i : ℕ) : (table lib task config data)[i]? =
    ((splitIntoChunks data config.chunkSize)[i]?).map fun p => chunkOf lib task config (p, i) := by
  rw [table, List.getElem?_map, List.getElem?_zipIdx, Option.map_map]
  simp [Function.comp_def]

/-- The entries of the table that some indices ask for. -/
def requested (task : ContextEmbedding F) (config : MscConfig F) (indices : List UInt32) :
    List (ContextChunk F) :=
  indices.filterMap fun idx => (table lib task config data)[idx.toNat]?

/-- Additional chunks are entries of the table. -/
theorem extractAdditional_eq {c : ContextCompressor F}
    (h : task.values.length = c.config.dimensions) (indices : List UInt32) :
    c.extractAdditional lib data task indices =
      some (requested lib data task c.config indices) := by
  have hscore := mapM_eq_some_map (f := scoreChunk lib task c.config.dimensions)
    (g := chunkOf lib task c.config)
    (l := indices.filterMap fun idx =>
      ((splitIntoChunks data c.config.chunkSize)[idx.toNat]?).map fun p => (p, idx.toNat))
    fun p _ => by rw [scoreChunk_eq, if_pos h]
  refine hscore.trans ?_
  rw [List.map_filterMap, requested]
  simp only [getElem?_table, Option.map_map]
  rfl

/-! ### Entries and their indices -/

variable {lib data} {i : ℕ} {chunk : ContextChunk F} {indices : List UInt32}

theorem index_of_getElem? (h : (table lib task config data)[i]? = some chunk) :
    chunk.index = UInt32.ofNat i := by
  rw [getElem?_table] at h
  obtain ⟨p, -, rfl⟩ := Option.map_eq_some_iff.mp h
  rfl

/-- A requested chunk has the index it was requested by. -/
theorem mem_requested : chunk ∈ requested lib data task config indices ↔
    chunk.index ∈ indices ∧ (table lib task config data)[chunk.index.toNat]? = some chunk := by
  rw [requested, List.mem_filterMap]
  constructor
  · rintro ⟨idx, hidx, h⟩
    have hindex := index_of_getElem? h
    rw [UInt32.ofNat_toNat] at hindex
    rw [hindex]
    exact ⟨hidx, h⟩
  · rintro ⟨hidx, h⟩
    exact ⟨_, hidx, h⟩

theorem length_table : (table lib task config data).length =
    (splitIntoChunks data config.chunkSize).length := by simp [table]

/-- A request is answered by the indices in range, repeated as they are requested. -/
theorem map_index_requested : (requested lib data task config indices).map (·.index) =
    indices.filter fun idx => idx.toNat < (splitIntoChunks data config.chunkSize).length := by
  induction indices with
  | nil => rfl
  | cons idx indices ih =>
    rw [requested, List.filterMap_cons, ← requested, List.filter_cons, ← ih]
    cases hget : (table lib task config data)[idx.toNat]? with
    | none =>
      have hout := List.getElem?_eq_none_iff.mp hget
      rw [length_table] at hout
      rw [if_neg (by simpa using hout)]
    | some c =>
      have hlt := (List.getElem?_eq_some_iff.mp hget).1
      have hindex := index_of_getElem? hget
      rw [length_table] at hlt
      rw [UInt32.ofNat_toNat] at hindex
      rw [if_pos (decide_eq_true hlt), List.map_cons, hindex]

theorem nodup_requested (h : indices.Nodup) :
    ((requested lib data task config indices).map (·.index)).Nodup := by
  rw [map_index_requested]
  exact h.filter _

/-- A merge with requested chunks adds the indices requested that are in range. -/
theorem mem_index_merge {diff : ContextDiff F} {idx : UInt32} :
    idx ∈ (mergeChunks diff (requested lib data task config indices)).chunks.map (·.index) ↔
      idx ∈ diff.chunks.map (·.index) ∨
        idx ∈ indices ∧ idx.toNat < (splitIntoChunks data config.chunkSize).length := by
  rw [(perm_index_mergeChunks diff _).mem_iff, List.mem_append, List.mem_filter,
    map_index_requested, List.mem_filter]
  by_cases hold : idx ∈ diff.chunks.map (·.index)
  · exact iff_of_true (Or.inl hold) (Or.inl hold)
  · simp only [hold, false_or, not_false_eq_true, decide_true, and_true, decide_eq_true_eq]

/-- Selection drops entries and changes their order. -/
theorem selected_subperm :
    (selected lib task config data).Subperm (table lib task config data) := by
  have hsorted : (sortDesc (·.relevanceScore) ((table lib task config data).filter
      fun c => c.relevanceScore > config.relevanceThreshold)).Subperm
      (table lib task config data) :=
    (sortDesc_perm _ _).subperm.trans List.filter_sublist.subperm
  simp only [selected]
  split
  · exact (List.take_sublist _ _).subperm.trans hsorted
  · exact hsorted

/-- Nothing is selected exactly when no entry is above the threshold. -/
theorem selected_eq_nil_iff : selected lib task config data = [] ↔
    ∀ c ∈ table lib task config data, ¬ c.relevanceScore > config.relevanceThreshold := by
  have hsorted : sortDesc (·.relevanceScore) ((table lib task config data).filter
      fun c => c.relevanceScore > config.relevanceThreshold) = [] ↔
      ∀ c ∈ table lib task config data, ¬ c.relevanceScore > config.relevanceThreshold := by
    rw [← List.length_eq_zero_iff, (sortDesc_perm _ _).length_eq, List.length_eq_zero_iff,
      List.filter_eq_nil_iff]
    simp only [decide_eq_true_eq]
  simp only [selected]
  split
  · -- a positive budget keeps something of what there is
    rename_i hcut
    rw [List.take_eq_nil_iff, or_iff_right hcut.1.ne', hsorted]
  · exact hsorted

theorem mem_table_of_selected (h : chunk ∈ selected lib task config data) :
    chunk ∈ table lib task config data := selected_subperm.subset h

end Table

end ATP
