import AgentTransport.Context.Selection

/-! Extraction that selects nothing. Other dimensions and data without chunks are refused, but a
    selection without survivors passes through the sort, the budget, the sums and the mean:

        dimensions differ            ──▶ DimensionMismatch
        no chunk at all              ──▶ ExtractionFailed
        chunks, none above threshold ──▶ a diff without chunks -/

namespace ATP
open F64
variable {F : Type} [F64 F]

/-- Some chunk is more similar to the task than the threshold. -/
def SomeAbove (lib : External F) (task : ContextEmbedding F) (config : MscConfig F)
    (data : List UInt8) : Prop :=
  ∃ piece ∈ splitIntoChunks data config.chunkSize, ∃ sim,
    cosineSimilarityArrays lib task.values (embed lib piece config.dimensions).values = some sim ∧
      sim > config.relevanceThreshold

/-- Extraction fails rather than sending nothing. Its error is that of a failed extraction, unless
    the task embedding has other dimensions than the configuration. -/
structure NeverEmpty (lib : External F) (c : ContextCompressor F) (data : List UInt8)
    (task : ContextEmbedding F) : Prop where
  fails : ¬ SomeAbove lib task c.config data → ∃ e,
    extractMsc lib data task c.config = some (.error e) ∧
      c.compress lib data task = some (.error e) ∧
      if task.dimensions = c.config.dimensions then ∃ reason, e = .extractionFailed reason
      else e = .dimensionMismatch c.config.dimensions task.dimensions
  carries : data ≠ [] → ∀ diff, c.compress lib data task = some (.ok diff) →
    diff.chunks ≠ [] ∧ 0 < diff.compressedSize

section Survivors
variable {lib : External F} {c : ContextCompressor F} {data : List UInt8}
  {task : ContextEmbedding F} {config : MscConfig F}

theorem compress_of_error {e : ContextError F}
    (h : extractMsc lib data task c.config = some (.error e)) :
    c.compress lib data task = some (.error e) := by
  rw [ContextCompressor.compress, h]
  rfl

/-- No chunk is empty. -/
theorem ne_nil_of_mem_splitIntoChunks {chunkSize : ℕ} {piece : List UInt8}
    (h : piece ∈ splitIntoChunks data chunkSize) : piece ≠ [] := by
  rw [splitIntoChunks] at h
  split at h
  · exact absurd h List.not_mem_nil
  · rename_i hsome
    have hsize : 0 < chunkSize := by
      rw [Nat.pos_iff_ne_zero]
      rintro rfl
      exact hsome (by simp)
    have hdiv := Nat.div_mul_le_self (data.length + chunkSize - 1) chunkSize
    exact Pieces.ne_nil_of_mem_pieces hsize (by omega) h

theorem exists_mem_table_iff (hvalues : task.values.length = config.dimensions) :
    (∃ e ∈ table lib task config data, e.relevanceScore > config.relevanceThreshold) ↔
      SomeAbove lib task config data := by
  have hscore : ∀ piece sim,
      cosineSimilarityArrays lib task.values (embed lib piece config.dimensions).values =
        some sim ↔ similarity lib task config piece = sim := by
    intro piece sim
    rw [cosine_eq_similarity hvalues, Option.some.injEq]
  constructor
  · rintro ⟨e, he, habove⟩
    obtain ⟨p, hp, rfl⟩ := List.mem_map.mp he
    exact ⟨p.1, List.fst_mem_of_mem_zipIdx hp, _, (hscore _ _).mpr rfl, habove⟩
  · rintro ⟨piece, hpiece, sim, hsim, habove⟩
    obtain ⟨i, hi⟩ := List.mem_iff_getElem?.mp hpiece
    refine ⟨chunkOf lib task config (piece, i), List.mem_of_getElem? (i := i) ?_, ?_⟩
    · rw [getElem?_table, hi, Option.map_some]
    · rw [chunkOf, (hscore _ _).mp hsim]
      exact habove

/-- A selection that is not empty has a size. -/
theorem initialOf_size_pos (hlen : data.length < 2 ^ 64)
    (hsplit : splitIntoChunks data config.chunkSize ≠ [])
    (hsome : selected lib task config data ≠ []) :
    0 < (initialOf lib data task config).compressedSize := by
  have hle : ((selected lib task config data).map (·.data.length)).sum ≤ data.length :=
    sum_length_selected hsplit
  obtain ⟨e, he⟩ := List.exists_mem_of_ne_nil _ hsome
  obtain ⟨p, hp, rfl⟩ := List.mem_map.mp (mem_table_of_selected he)
  have hpos : 0 < p.1.length :=
    List.length_pos_of_ne_nil (ne_nil_of_mem_splitIntoChunks (List.fst_mem_of_mem_zipIdx hp))
  have hone : p.1.length ≤ ((selected lib task config data).map (·.data.length)).sum :=
    List.le_sum_of_mem (List.mem_map_of_mem he)
  rw [UInt64.lt_iff_toNat_lt, initialOf, UInt64.toNat_ofNat', Nat.mod_eq_of_lt (by omega)]
  exact hpos.trans_le hone

/-- When extraction fails rather than sending nothing. -/
theorem extraction_fails_iff (hlen : data.length < 2 ^ 64) : NeverEmpty lib c data task ↔
    task.dimensions ≠ c.config.dimensions ∨ splitIntoChunks data c.config.chunkSize = [] ∨
      SomeAbove lib task c.config data := by
  constructor
  · intro h
    -- without the three conditions the extraction returns, with no chunk at all
    by_contra! hnone
    obtain ⟨hdims, hsplit, hbelow⟩ := hnone
    obtain ⟨e, herror, -⟩ := h.fails hbelow
    rw [extractMsc_eq, if_neg (not_not.mpr hdims), if_neg hsplit] at herror
    split at herror <;> cases herror
  · intro h
    refine ⟨fun hbelow => ?_, fun hdata diff hdiff => ?_⟩
    · have herror : extractMsc lib data task c.config = _ := extractMsc_eq lib data
      by_cases hdims : task.dimensions = c.config.dimensions
      · have hsplit := (h.resolve_left (not_not.mpr hdims)).resolve_right hbelow
        rw [if_neg (not_not.mpr hdims), if_pos hsplit] at herror
        exact ⟨_, herror, compress_of_error herror, by rw [if_pos hdims]; exact ⟨_, rfl⟩⟩
      · rw [if_pos hdims] at herror
        exact ⟨_, herror, compress_of_error herror, by rw [if_neg hdims]⟩
    · obtain ⟨hdims, hsplit, hvalues, rfl⟩ := (compress_iff lib data).mp hdiff
      have habove := (h.resolve_left (not_not.mpr hdims)).resolve_left hsplit
      obtain ⟨e, he, hscore⟩ := (exists_mem_table_iff hvalues).mpr habove
      have hsome : selected lib task c.config data ≠ [] := fun hnil =>
        selected_eq_nil_iff.mp hnil e he hscore
      exact ⟨hsome, initialOf_size_pos hlen hsplit hsome⟩

end Survivors

/-- One chunk, as similar to the task as can be. -/
theorem extraction_fails_similar : NeverEmpty exactLib ⟨⟨3 / 10, 0, 512, 1⟩⟩ [0] ⟨1, [1]⟩ :=
  (extraction_fails_iff (by decide)).mpr
    (Or.inr (Or.inr ⟨[0], by decide, 1, by decide +kernel, by decide +kernel⟩))

/-- One chunk that points the other way: a diff is made, with nothing in it. -/
theorem empty_extraction : ∃ diff,
    (⟨⟨3 / 10, 0, 512, 1⟩⟩ : ContextCompressor ℚ).compress exactLib [3] ⟨1, [1]⟩ =
      some (.ok diff) ∧ diff.chunks = [] ∧ diff.compressedSize = 0 ∧
      ¬ NeverEmpty exactLib ⟨⟨3 / 10, 0, 512, 1⟩⟩ [3] ⟨1, [1]⟩ := by
  let c : ContextCompressor ℚ := ⟨⟨3 / 10, 0, 512, 1⟩⟩
  have hok : c.compress exactLib [3] ⟨1, [1]⟩ =
      some (.ok (initialOf exactLib [3] ⟨1, [1]⟩ c.config)) :=
    (compress_iff exactLib [3]).mpr ⟨rfl, by decide, rfl, rfl⟩
  have hnil : (initialOf exactLib [3] ⟨1, [1]⟩ c.config).chunks = [] := by decide +kernel
  exact ⟨_, hok, hnil, by decide +kernel, fun h => (h.carries (by decide) _ hok).1 hnil⟩

end ATP
