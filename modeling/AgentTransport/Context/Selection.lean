import AgentTransport.Context.Lossless
import AgentTransport.Lib.StableSort

/-! What extraction selects. The chunks above the threshold are sorted by similarity, and the budget
    cuts the sorted list:

        data ─▶ chunks 0 … n-1 ─▶ those above ─▶ most similar first ─▶ kept | left out

    The sort is stable and the chunks come in the order of their indices, so chunks of equal
    similarity stay in that order; and what is left out comes after everything kept. -/

namespace ATP
open F64
variable {F : Type} [F64 F]

/-- The bytes of chunk `i`; the last chunk may be short. -/
def chunkBytes (data : List UInt8) (chunkSize i : ℕ) : List UInt8 :=
  (data.drop (i * chunkSize)).take (Min.min ((i + 1) * chunkSize) data.length - i * chunkSize)

/-- The similarity of chunk `i` to the task. -/
def chunkScore (lib : External F) (task : ContextEmbedding F) (config : MscConfig F)
    (data : List UInt8) (i : ℕ) : F :=
  similarity lib task config (chunkBytes data config.chunkSize i)

/-- The chunks above the threshold, by their indices. -/
def aboveThreshold (lib : External F) (task : ContextEmbedding F) (config : MscConfig F)
    (data : List UInt8) : List ℕ :=
  (List.range (splitIntoChunks data config.chunkSize).length).filter
    fun i => chunkScore lib task config data i > config.relevanceThreshold

/-- The best chunks within the budget, and what is said about them. -/
structure BestChunks (lib : External F) (task : ContextEmbedding F) (config : MscConfig F)
    (data : List UInt8) (r : MscResult F) : Prop where
  distinct : (r.chunks.map (·.index)).Nodup
  carried : ∀ c ∈ r.chunks, c.index.toNat < (splitIntoChunks data config.chunkSize).length ∧
    c.data = chunkBytes data config.chunkSize c.index.toNat ∧
    cosineSimilarityArrays lib task.values (embed lib c.data config.dimensions).values =
      some c.relevanceScore
  above : ∀ c ∈ r.chunks, c.relevanceScore > config.relevanceThreshold
  sorted : r.chunks.Pairwise fun a b => b.relevanceScore ≤ a.relevanceScore ∧
    (a.relevanceScore ≤ b.relevanceScore → a.index < b.index)
  count : r.chunks.length =
    if 0 < config.maxChunks ∧ config.maxChunks < (aboveThreshold lib task config data).length then
      config.maxChunks
    else (aboveThreshold lib task config data).length
  best : ∀ i ∈ aboveThreshold lib task config data, (∀ c ∈ r.chunks, c.index.toNat ≠ i) →
    ∀ c ∈ r.chunks, chunkScore lib task config data i ≤ c.relevanceScore
  size : r.compressedSize = (r.chunks.map (·.data.length)).sum ∧
    r.originalSize = data.length ∧ r.compressedSize ≤ r.originalSize
  confidence : r.confidence = if r.chunks = [] then 0
    else F64.sum (r.chunks.map (·.relevanceScore)) / lit r.chunks.length

section Selection
variable {lib : External F} {task : ContextEmbedding F} {config : MscConfig F} {data : List UInt8}

omit [F64 F] in
theorem take_chunkSize (chunkSize i : ℕ) :
    (data.drop (i * chunkSize)).take chunkSize = chunkBytes data chunkSize i := by
  have hlen : Min.min ((i + 1) * chunkSize) data.length - i * chunkSize =
      Min.min chunkSize (data.drop (i * chunkSize)).length := by
    rw [List.length_drop, Nat.succ_mul]
    omega
  rw [chunkBytes, hlen, ← List.take_eq_take_min]

/-- The entry of chunk `i` in the table. -/
def entryOf (lib : External F) (task : ContextEmbedding F) (config : MscConfig F)
    (data : List UInt8) (i : ℕ) : ContextChunk F :=
  ⟨UInt32.ofNat i, chunkBytes data config.chunkSize i, chunkScore lib task config data i⟩

theorem getElem_splitIntoChunks {chunkSize i : ℕ}
    (h : i < (splitIntoChunks data chunkSize).length) :
    (splitIntoChunks data chunkSize)[i] = chunkBytes data chunkSize i := by
  have hget := List.getElem?_eq_getElem h
  have hsome : ¬ (data.isEmpty || chunkSize == 0) = true := by
    intro hnone
    simp only [splitIntoChunks, if_pos hnone, List.length_nil] at h
    exact absurd h (Nat.not_lt_zero i)
  simp only [splitIntoChunks, if_neg hsome, List.length_map, List.length_range] at h
  simp only [splitIntoChunks, if_neg hsome, List.getElem_map, List.getElem_range, take_chunkSize]

theorem table_eq_map : table lib task config data =
    (List.range (splitIntoChunks data config.chunkSize).length).map
      (entryOf lib task config data) := by
  refine List.ext_getElem? fun i => ?_
  rw [getElem?_table, List.getElem?_map]
  rcases Nat.lt_or_ge i (splitIntoChunks data config.chunkSize).length with hi | hi
  · rw [List.getElem?_eq_getElem hi, List.getElem?_range hi, Option.map_some, Option.map_some,
      getElem_splitIntoChunks hi]
    rfl
  · rw [List.getElem?_eq_none hi, List.getElem?_eq_none (by simpa using hi)]
    rfl

/-- The entries above the threshold, most similar first. -/
def sortedAbove (lib : External F) (task : ContextEmbedding F) (config : MscConfig F)
    (data : List UInt8) : List (ContextChunk F) :=
  sortDesc (·.relevanceScore)
    ((aboveThreshold lib task config data).map (entryOf lib task config data))

theorem length_sortedAbove : (sortedAbove lib task config data).length =
    (aboveThreshold lib task config data).length := by
  rw [sortedAbove, (sortDesc_perm _ _).length_eq, List.length_map]

/-- Selection takes the first of the sorted entries, as many as the budget allows. -/
theorem selected_eq_take : selected lib task config data = (sortedAbove lib task config data).take
    (if 0 < config.maxChunks ∧ config.maxChunks < (aboveThreshold lib task config data).length
      then config.maxChunks else (aboveThreshold lib task config data).length) := by
  have hsorted : sortDesc (·.relevanceScore) ((table lib task config data).filter
      fun c => c.relevanceScore > config.relevanceThreshold) =
      sortedAbove lib task config data := by
    rw [table_eq_map, List.filter_map, sortedAbove]
    rfl
  have hlen : (sortedAbove lib task config data).length = _ := length_sortedAbove
  simp only [selected, hsorted, gt_iff_lt, hlen]
  split_ifs
  · rfl
  · rw [← hlen, List.take_length]

/-- What is scored without a panic has its similarity. -/
theorem cosine_eq_similarity (hvalues : task.values.length = config.dimensions)
    (piece : List UInt8) :
    cosineSimilarityArrays lib task.values (embed lib piece config.dimensions).values =
      some (similarity lib task config piece) := by
  simp only [similarity, cosineSimilarityArrays, arrayDot, length_embed, if_pos hvalues]
  rfl

/-- All entries together have the size of the data. -/
theorem sum_length_selected (h : splitIntoChunks data config.chunkSize ≠ []) :
    ((selected lib task config data).map (·.data.length)).sum ≤ data.length := by
  have hsize : 0 < config.chunkSize := by
    rw [Nat.pos_iff_ne_zero]
    intro hzero
    exact h (by simp [splitIntoChunks, hzero])
  have htable : ((table lib task config data).map (·.data.length)).sum = data.length := by
    have hflat : (splitIntoChunks data config.chunkSize).flatten = data :=
      flatten_splitIntoChunks hsize
    have hmap : (table lib task config data).map (·.data.length) =
        (splitIntoChunks data config.chunkSize).map List.length := by
      rw [table, List.map_map]
      conv_rhs => rw [← List.zipIdx_map_fst 0 (splitIntoChunks data config.chunkSize), List.map_map]
      rfl
    rw [hmap, ← List.length_flatten, hflat]
  obtain ⟨l, hperm, hsub⟩ :
      (selected lib task config data).Subperm (table lib task config data) := selected_subperm
  rw [← htable, ← (hperm.map _).sum_eq]
  exact (hsub.map _).sum_le_sum fun n _ => Nat.zero_le n

theorem toNat_index_entryOf (hcount : (splitIntoChunks data config.chunkSize).length ≤ 2 ^ 32)
    {i : ℕ} (hi : i ∈ aboveThreshold lib task config data) :
    (entryOf lib task config data i).index.toNat = i := by
  have hlt : i < _ := List.mem_range.mp (List.mem_of_mem_filter hi)
  rw [entryOf, UInt32.toNat_ofNat']
  exact Nat.mod_eq_of_lt (hlt.trans_le hcount)

variable [OrderedF64 F]

/-- In the sorted entries similarity falls, and where it does not, the index rises. -/
theorem sortedAbove_pairwise
    (hcount : (splitIntoChunks data config.chunkSize).length ≤ 2 ^ 32) :
    (sortedAbove lib task config data).Pairwise fun a b => b.relevanceScore ≤ a.relevanceScore ∧
      (a.relevanceScore ≤ b.relevanceScore → a.index < b.index) := by
  have hsub : ((aboveThreshold lib task config data).map (entryOf lib task config data)).Sublist
      (table lib task config data) := by
    rw [table_eq_map]
    exact List.filter_sublist.map _
  refine pairwise_sortDesc_stable (fun c hc => ?_)
    (((table_sorted hcount).sublist hsub).imp UInt32.lt_iff_toNat_lt.mpr)
  obtain ⟨i, hi, rfl⟩ := List.mem_map.mp hc
  have habove := of_decide_eq_true (List.mem_filter.mp hi).2
  exact IsNum.of_le_right (F64.le_of_lt habove)

/-- Extraction selects the best chunks. -/
theorem extractMsc_best {r : MscResult F}
    (hcount : (splitIntoChunks data config.chunkSize).length ≤ 2 ^ 32)
    (h : extractMsc lib data task config = some (.ok r)) : BestChunks lib task config data r := by
  obtain ⟨-, hsplit, hvalues, rfl⟩ := (extractMsc_iff lib data).mp h
  have hheld : Holds lib task config data (initialOf lib data task config) := holds_initial hcount
  have htake : (resultOf lib data task config).chunks = _ := selected_eq_take
  have hlen : (sortedAbove lib task config data).length = _ := length_sortedAbove
  have hsorted : (sortedAbove lib task config data).Pairwise _ := sortedAbove_pairwise hcount
  have hmem : ∀ {c}, c ∈ sortedAbove lib task config data ↔
      ∃ i ∈ aboveThreshold lib task config data, entryOf lib task config data i = c := by
    intro c
    rw [sortedAbove, mem_sortDesc, List.mem_map]
  have hentry : ∀ c ∈ (resultOf lib data task config).chunks,
      ∃ i ∈ aboveThreshold lib task config data, entryOf lib task config data i = c := by
    intro c hc
    rw [htake] at hc
    exact hmem.mp (List.mem_of_mem_take hc)
  refine ⟨hheld.nodup, fun c hc => ?_, fun c hc => ?_, ?_, ?_, fun i hi hout c hc => ?_,
    ⟨rfl, rfl, sum_length_selected hsplit⟩, ?_⟩
  · obtain ⟨i, hi, rfl⟩ := hentry c hc
    rw [toNat_index_entryOf hcount hi]
    exact ⟨List.mem_range.mp (List.mem_of_mem_filter hi), rfl, cosine_eq_similarity hvalues _⟩
  · obtain ⟨i, hi, rfl⟩ := hentry c hc
    exact of_decide_eq_true (List.mem_filter.mp hi).2
  · rw [htake]
    exact hsorted.sublist (List.take_sublist _ _)
  · rw [htake, List.length_take, hlen]
    split_ifs with hcut
    · exact Nat.min_eq_left hcut.2.le
    · exact Nat.min_self _
  · -- the entry left out comes after every entry kept
    have hsome : entryOf lib task config data i ∈ sortedAbove lib task config data :=
      hmem.mpr ⟨i, hi, rfl⟩
    rw [htake] at hout hc
    rw [← List.take_append_drop (if 0 < config.maxChunks ∧ config.maxChunks <
      (aboveThreshold lib task config data).length then config.maxChunks
      else (aboveThreshold lib task config data).length)
      (sortedAbove lib task config data)] at hsome hsorted
    rcases List.mem_append.mp hsome with hkept | hleft
    · exact absurd (toNat_index_entryOf hcount hi) (hout _ hkept)
    · exact ((List.pairwise_append.mp hsorted).2.2 c hc _ hleft).1
  · simp only [resultOf, List.isEmpty_iff]

end Selection

/-- The 32 bytes of a digest that is read as a number. -/
def digest (n : ℕ) : Vector UInt8 32 := .ofFn fun i => .ofNat (n / 256 ^ (31 - i.val))

/-- SHA-256 of the inputs of the examples, and nothing else. -/
def knownDigest (bytes : List UInt8) : Vector UInt8 32 :=
  if bytes = [0] then
    digest 0x6e340b9cffb37a989ca544e6bb780a2c78901d3fb33738768511a30617afa01d
  else if bytes = [1] then
    digest 0x4bf5122f344554c53bde2ebb8cd2b7e3d1600ad631c385a5d7cce23c7785459a
  else if bytes = [3] then
    digest 0x084fed08b978af4d7d196a7446a86b58009e636b611db16211b65a9aadff29c5
  else if bytes = [0, 3, 1] then
    digest 0x911b9fdacf0e0f4004b19e97739fb93d3a4e49f2a2544fdcb5134c76822c931f
  else Vector.replicate 32 0

/-- Roots of squares, the dot product, and the known digests. -/
def exactLib : External ℚ :=
  ⟨fun _ => 1, fun q => (Nat.sqrt q.num.toNat : ℚ) / Nat.sqrt q.den,
    fun a b => (List.zipWith (· * ·) a b).sum, knownDigest⟩

/-- Two of three chunks point the way of the task; the budget keeps the first. -/
theorem extractMsc_best_tied :
    let config : MscConfig ℚ := ⟨1 / 2, 1, 1, 1⟩
    ∃ r, extractMsc exactLib [0, 3, 1] ⟨1, [1]⟩ config = some (.ok r) ∧
      r.chunks.map (·.index) = [0] ∧ BestChunks exactLib ⟨1, [1]⟩ config [0, 3, 1] r := by
  intro config
  have hok : extractMsc exactLib [0, 3, 1] ⟨1, [1]⟩ config =
      some (.ok (resultOf exactLib [0, 3, 1] ⟨1, [1]⟩ config)) :=
    (extractMsc_iff _ _).mpr ⟨rfl, by decide, rfl, rfl⟩
  exact ⟨_, hok, by decide +kernel, extractMsc_best (by decide) hok⟩

end ATP
