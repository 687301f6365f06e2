import AgentTransport.Context.Differential
import AgentTransport.Lib.Pieces

/-! Context transfer loses nothing but what was left out: whatever was selected, and in whatever
    order the rest was requested, a diff reconstructs the pieces it holds in their order. -/

namespace ATP
open F64 Pieces
variable {F : Type} [F64 F]

/-- The pieces of the data, in order, are the data. -/
theorem flatten_splitIntoChunks {data : List UInt8} {chunkSize : ℕ} (h : 0 < chunkSize) :
    (splitIntoChunks data chunkSize).flatten = data := by
  have hsize : (chunkSize == 0) = false := by simpa using h.ne'
  cases data with
  | nil => rfl
  | cons b data =>
    rw [splitIntoChunks, hsize]
    exact flatten_pieces_of_le (length_le_ceil h _)

theorem sum_map_ofNat (l : List ℕ) : (l.map UInt64.ofNat).sum = UInt64.ofNat l.sum := by
  induction l with
  | nil => rfl
  | cons n l ih => rw [List.map_cons, List.sum_cons, List.sum_cons, ih, UInt64.ofNat_add]

theorem compressedSize_mergeChunks (diff : ContextDiff F) (additional : List (ContextChunk F)) :
    (mergeChunks diff additional).compressedSize =
      UInt64.ofNat ((mergeChunks diff additional).chunks.map (·.data.length)).sum := by
  have hmap := sum_map_ofNat ((mergeChunks diff additional).chunks.map (·.data.length))
  rw [List.map_map] at hmap
  exact hmap

section Entries
variable {lib : External F} {task : ContextEmbedding F} {config : MscConfig F} {data : List UInt8}

/-- With at most `2 ^ 32` chunks the indices of the table do not wrap around. -/
theorem table_sorted (h : (splitIntoChunks data config.chunkSize).length ≤ 2 ^ 32) :
    (table lib task config data).Pairwise fun a b => a.index.toNat < b.index.toNat := by
  rw [List.pairwise_iff_getElem]
  intro i j hi hj hij
  have hlen : (table lib task config data).length = _ := length_table
  have hia := index_of_getElem? (List.getElem?_eq_getElem hi)
  have hja := index_of_getElem? (List.getElem?_eq_getElem hj)
  rw [hia, hja, UInt32.toNat_ofNat', UInt32.toNat_ofNat', Nat.mod_eq_of_lt (by omega),
    Nat.mod_eq_of_lt (by omega)]
  exact hij

/-- An index belongs to one entry of the table. -/
theorem table_inj (h : (splitIntoChunks data config.chunkSize).length ≤ 2 ^ 32)
    {a b : ContextChunk F} (ha : a ∈ table lib task config data)
    (hb : b ∈ table lib task config data) (hab : a.index = b.index) : a = b := by
  have hnodup : ((table lib task config data).map fun c => c.index.toNat).Nodup :=
    List.pairwise_map.mpr ((table_sorted h).imp fun hlt => hlt.ne)
  exact List.inj_on_of_nodup_map hnodup ha hb (congrArg UInt32.toNat hab)

/-- Reconstruction from entries of the table puts them in the order of the table. -/
theorem applyDiff_eq (h : (splitIntoChunks data config.chunkSize).length ≤ 2 ^ 32)
    {diff : ContextDiff F} (hsub : ∀ c ∈ diff.chunks, c ∈ table lib task config data)
    (hnodup : (diff.chunks.map (·.index)).Nodup) :
    applyDiff diff = ((splitIntoChunks data config.chunkSize).zipIdx.filter
      fun p => UInt32.ofNat p.2 ∈ diff.chunks.map (·.index)).flatMap Prod.fst := by
  have hkeys : (diff.chunks.map fun c => c.index.toNat).Nodup := by
    have hmap := hnodup.map fun x y => UInt32.toNat_inj.mp
    rwa [List.map_map] at hmap
  have hmem : ∀ a ∈ table lib task config data,
      decide (a.index ∈ diff.chunks.map (·.index)) = true ↔ a ∈ diff.chunks := by
    intro a ha
    rw [decide_eq_true_iff, List.mem_map]
    constructor
    · rintro ⟨c, hc, hindex⟩
      rwa [← table_inj h (hsub c hc) ha hindex]
    · intro hc
      exact ⟨a, hc, rfl⟩
  have hle : ∀ a b : ContextChunk F, a.index ≤ b.index ↔ a.index.toNat ≤ b.index.toNat :=
    fun a b => UInt32.le_iff_toNat_le
  have hsort := insertionSort_eq_filter hle (table_sorted h) hkeys hsub hmem
  rw [applyDiff, hsort, table, List.filter_map, List.flatMap_map]
  rfl

/-- Before and after a merge with requested chunks, a diff holds entries of the table, each
    once. -/
structure Holds (lib : External F) (task : ContextEmbedding F) (config : MscConfig F)
    (data : List UInt8) (diff : ContextDiff F) : Prop where
  entries : ∀ c ∈ diff.chunks, c ∈ table lib task config data
  nodup : (diff.chunks.map (·.index)).Nodup
  size : diff.compressedSize = UInt64.ofNat (diff.chunks.map (·.data.length)).sum

theorem holds_initial (h : (splitIntoChunks data config.chunkSize).length ≤ 2 ^ 32) :
    Holds lib task config data (initialOf lib data task config) where
  entries _ := mem_table_of_selected
  nodup := by
    obtain ⟨l, hperm, hsub⟩ :
        (selected lib task config data).Subperm (table lib task config data) := selected_subperm
    have hnodup : ((table lib task config data).map (·.index)).Nodup :=
      List.pairwise_map.mpr ((table_sorted h).imp fun hlt heq => hlt.ne (congrArg _ heq))
    exact (hperm.map _).nodup_iff.mp (hnodup.sublist (hsub.map _))
  size := rfl

theorem holds_merge {diff : ContextDiff F} (h : Holds lib task config data diff)
    {indices : List UInt32} (hindices : indices.Nodup) :
    Holds lib task config data (mergeChunks diff (requested lib data task config indices)) where
  entries c hc := by
    rcases List.mem_append.mp ((perm_mergeChunks diff _).mem_iff.mp hc) with hc | hc
    · exact h.entries c hc
    · exact List.mem_of_getElem? (mem_requested.mp (List.mem_of_mem_filter hc)).2
  nodup := by
    rw [(perm_index_mergeChunks diff _).nodup_iff, List.nodup_append]
    refine ⟨h.nodup, (nodup_requested hindices).filter _, ?_⟩
    rintro i hi j hj rfl
    exact absurd hi (of_decide_eq_true (List.mem_filter.mp hj).2)
  size := compressedSize_mergeChunks diff _

/-- The size of a diff is that of its reconstruction. -/
theorem Holds.size_applyDiff {diff : ContextDiff F} (h : Holds lib task config data diff) :
    diff.compressedSize = UInt64.ofNat (applyDiff diff).length := by
  rw [h.size, applyDiff, List.length_flatMap]
  exact congrArg UInt64.ofNat ((List.perm_insertionSort _ _).map _).sum_eq.symm

/-- What a merged diff reconstructs: the pieces selected or requested, in order. -/
theorem applyDiff_merge (hcount : (splitIntoChunks data config.chunkSize).length ≤ 2 ^ 32)
    {diff : ContextDiff F} (h : Holds lib task config data diff) {indices : List UInt32}
    (hindices : indices.Nodup) :
    applyDiff (mergeChunks diff (requested lib data task config indices)) =
      ((splitIntoChunks data config.chunkSize).zipIdx.filter fun p =>
        UInt32.ofNat p.2 ∈ diff.chunks.map (·.index) ∨ UInt32.ofNat p.2 ∈ indices).flatMap
          Prod.fst := by
  have hmerged := holds_merge h hindices
  rw [applyDiff_eq hcount hmerged.entries hmerged.nodup]
  congr 1
  refine List.filter_congr fun p hp => decide_eq_decide.mpr ?_
  have hlt : p.2 < (splitIntoChunks data config.chunkSize).length := List.snd_lt_of_mem_zipIdx hp
  have hcast : (UInt32.ofNat p.2).toNat = p.2 := by
    rw [UInt32.toNat_ofNat']
    exact Nat.mod_eq_of_lt (by omega)
  rw [mem_index_merge, hcast, and_iff_left hlt]

end Entries

/-- A transfer is lossless in the limit: after a merge with whatever was requested, a diff
    reconstructs the pieces of the data selected or requested, in order; all of the data when that
    is every piece. Its size is that of the reconstruction. -/
theorem context_lossless (lib : External F) (c : ContextCompressor F) {data : List UInt8}
    {task : ContextEmbedding F} {indices : List UInt32} (hdata : data ≠ [])
    (hsize : 0 < c.config.chunkSize)
    (hcount : (splitIntoChunks data c.config.chunkSize).length ≤ 2 ^ 32)
    (hdims : task.dimensions = c.config.dimensions)
    (hvalues : task.values.length = c.config.dimensions) (hindices : indices.Nodup) :
    ∃ diff additional, c.compress lib data task = some (.ok diff) ∧
      c.extractAdditional lib data task indices = some additional ∧
      let pieces := (splitIntoChunks data c.config.chunkSize).zipIdx
      let held := fun i => UInt32.ofNat i ∈ diff.chunks.map (·.index) ∨ UInt32.ofNat i ∈ indices
      let merged := mergeChunks diff additional
      applyDiff merged = (pieces.filter fun p => held p.2).flatMap Prod.fst ∧
      ((∀ p ∈ pieces, held p.2) → applyDiff merged = data) ∧
      merged.compressedSize = UInt64.ofNat (applyDiff merged).length ∧
      (data.length < 2 ^ 64 → merged.compressedSize.toNat = (applyDiff merged).length) := by
  have hne : splitIntoChunks data c.config.chunkSize ≠ [] := by
    intro h
    have hflat : (splitIntoChunks data c.config.chunkSize).flatten = data :=
      flatten_splitIntoChunks hsize
    rw [h] at hflat
    exact hdata hflat.symm
  -- the first diff holds some pieces, and the merge adds those requested
  have hheld : Holds lib task c.config data (initialOf lib data task c.config) :=
    holds_initial hcount
  refine ⟨_, _, (compress_iff lib data).mpr ⟨hdims, hne, hvalues, rfl⟩,
    extractAdditional_eq lib data hvalues indices, ?_⟩
  intro pieces held merged
  have hbytes : merged.compressedSize = UInt64.ofNat (applyDiff merged).length :=
    (holds_merge hheld hindices).size_applyDiff
  have happly : applyDiff merged = (pieces.filter fun p => held p.2).flatMap Prod.fst :=
    applyDiff_merge hcount hheld hindices
  have hall : pieces.flatMap Prod.fst = data := by
    rw [List.flatMap_def, List.zipIdx_map_fst, flatten_splitIntoChunks]
    assumption
  refine ⟨happly, fun h => ?_, hbytes, fun hlen => ?_⟩
  · rw [happly, List.filter_eq_self.mpr fun p hp => decide_eq_true (h p hp), hall]
  -- what is reconstructed is no longer than the data, so its size does not wrap around
  · have hle : (applyDiff merged).length ≤ (pieces.flatMap Prod.fst).length := by
      rw [happly]
      exact (List.filter_sublist.flatMap _).length_le
    rw [hall] at hle
    rw [hbytes, UInt64.toNat_ofNat']
    exact Nat.mod_eq_of_lt (by omega)

/-- Three bytes in pieces of two, requested in reverse order. -/
theorem context_lossless_three : ∃ diff additional,
    (⟨⟨1 / 2, 1, 2, 1⟩⟩ : ContextCompressor ℚ).compress External.sample [10, 20, 30] ⟨1, [1]⟩ =
      some (.ok diff) ∧ applyDiff (mergeChunks diff additional) = [10, 20, 30] := by
  obtain ⟨diff, additional, hdiff, -, -, hall, -⟩ :=
    @context_lossless ℚ _ External.sample ⟨⟨1 / 2, 1, 2, 1⟩⟩ [10, 20, 30] ⟨1, [1]⟩ [1, 0]
      (by decide) (by decide) (by decide) rfl rfl (by decide)
  refine ⟨diff, additional, hdiff, hall fun p hp => Or.inr ?_⟩
  revert p
  decide

end ATP
