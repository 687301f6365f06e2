import AgentTransport.Context.Lossless
import AgentTransport.Lib.StableSort

/-! Merging and duplicates. Chunks are compared with the indices that the diff had before the merge,
    not with each other:

        offered and in the diff       ──▶ dropped
        offered once, not in the diff ──▶ added
        offered twice                 ──▶ added twice -/

namespace ATP
open F64
variable {F : Type} [F64 F]

/-- A merge that leaves each index once, keeps what there was, has every index offered and the size
    of its chunks, and is not changed by the same chunks again. -/
structure MergesUniquely (diff : ContextDiff F) (additional : List (ContextChunk F)) : Prop where
  distinct : ((mergeChunks diff additional).chunks.map (·.index)).Nodup
  kept : ∀ c ∈ diff.chunks, c ∈ (mergeChunks diff additional).chunks
  offered : ∀ c ∈ additional, c.index ∈ (mergeChunks diff additional).chunks.map (·.index)
  size : (mergeChunks diff additional).compressedSize.toNat =
    ((mergeChunks diff additional).chunks.map (·.data.length)).sum
  again : mergeChunks (mergeChunks diff additional) additional = mergeChunks diff additional

/-- The indices offered that a diff does not have, in the order they are offered. -/
def newIndices (diff : ContextDiff F) (additional : List (ContextChunk F)) : List UInt32 :=
  (additional.map (·.index)).filter (· ∉ diff.chunks.map (·.index))

section Merging
variable {diff : ContextDiff F} {additional : List (ContextChunk F)}

theorem offered_mergeChunks {c : ContextChunk F} (hc : c ∈ additional) :
    c.index ∈ (mergeChunks diff additional).chunks.map (·.index) := by
  rw [(perm_index_mergeChunks diff additional).mem_iff, List.mem_append, List.mem_filter]
  by_cases hold : c.index ∈ diff.chunks.map (·.index)
  · exact Or.inl hold
  · exact Or.inr ⟨List.mem_map_of_mem hc, decide_eq_true hold⟩

/-- The merged indices repeat where the new ones do. -/
theorem nodup_index_mergeChunks_iff (hdiff : (diff.chunks.map (·.index)).Nodup) :
    ((mergeChunks diff additional).chunks.map (·.index)).Nodup ↔
      (newIndices diff additional).Nodup := by
  rw [(perm_index_mergeChunks diff additional).nodup_iff, List.nodup_append]
  constructor
  · exact fun h => h.2.1
  · refine fun h => ⟨hdiff, h, ?_⟩
    rintro i hi j hj rfl
    exact absurd hi (of_decide_eq_true (List.mem_filter.mp hj).2)

theorem size_mergeChunks
    (hsize : ((diff.chunks ++ additional).map (·.data.length)).sum < 2 ^ 64) :
    (mergeChunks diff additional).compressedSize.toNat =
      ((mergeChunks diff additional).chunks.map (·.data.length)).sum := by
  have hle : ((mergeChunks diff additional).chunks.map (·.data.length)).sum ≤
      ((diff.chunks ++ additional).map (·.data.length)).sum := by
    rw [((perm_mergeChunks diff additional).map _).sum_eq]
    exact (((List.Sublist.refl diff.chunks).append List.filter_sublist).map _).sum_le_sum
      fun n _ => Nat.zero_le n
  rw [compressedSize_mergeChunks, UInt64.toNat_ofNat']
  exact Nat.mod_eq_of_lt (hle.trans_lt hsize)

variable [OrderedF64 F]

/-- A second merge of the same chunks finds all of their indices. -/
theorem mergeChunks_mergeChunks : mergeChunks (mergeChunks diff additional) additional =
    mergeChunks diff additional := by
  have hnone : additional.filter (fun c =>
      c.index ∉ (mergeChunks diff additional).chunks.map (·.index)) = [] :=
    List.filter_eq_nil_iff.mpr fun c hc hnew =>
      of_decide_eq_true hnew (offered_mergeChunks hc)
  have hchunks : sortDesc (·.relevanceScore) ((mergeChunks diff additional).chunks ++
      additional.filter fun c => c.index ∉ (mergeChunks diff additional).chunks.map (·.index)) =
        (mergeChunks diff additional).chunks := by
    rw [hnone, List.append_nil]
    exact sortDesc_sortDesc _ _
  -- the same chunks have the same size and the same mean
  rw [mergeChunks, hchunks]
  simp only [mergeChunks]
  congr 1
  split <;> rfl

end Merging

end ATP
