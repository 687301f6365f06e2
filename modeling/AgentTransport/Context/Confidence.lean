import AgentTransport.Context.AdaptiveRuns
import AgentTransport.Lib.Exact
import AgentTransport.Lib.StableSort
import Mathlib.Algebra.Order.BigOperators.Group.List

/-! Confidence under refinement. Extraction leaves out only chunks that score no better than those
    it selects, so that each answer to a request brings the mean score down, or leaves it.

        selected  ≥ s        left out  ≤ s        mean of selected ≥ s ≥ mean of what is added -/

namespace ATP
open F64
section Exact
variable {K : Type} [Field K] [LinearOrder K] [FloorRing K]

/-! ### What extraction leaves out -/

section Selected
variable {lib : External K} {task : ContextEmbedding K} {config : MscConfig K} {data : List UInt8}
  {a b : ContextChunk K}

theorem above_of_selected (h : a ∈ selected lib task config data) :
    config.relevanceThreshold < a.relevanceScore := by
  have hmem : a ∈ sortDesc (·.relevanceScore) ((table lib task config data).filter
      fun c => c.relevanceScore > config.relevanceThreshold) := by
    simp only [selected] at h
    split at h
    · exact List.mem_of_mem_take h
    · exact h
  exact of_decide_eq_true (List.mem_filter.mp (mem_sortDesc.mp hmem)).2

/-- When nothing was selected, nothing is above the threshold. -/
theorem score_le_of_none (h : selected lib task config data = [])
    (hb : b ∈ table lib task config data) : b.relevanceScore ≤ config.relevanceThreshold :=
  not_lt.mp (selected_eq_nil_iff.mp h b hb)

/-- A chunk that was not selected scores no better than one that was. -/
theorem score_le_of_selected (ha : a ∈ selected lib task config data)
    (hb : b ∈ table lib task config data) (hnot : b ∉ selected lib task config data) :
    b.relevanceScore ≤ a.relevanceScore := by
  rcases lt_or_ge config.relevanceThreshold b.relevanceScore with habove | hbelow
  · -- above the threshold: the budget cut it off
    have hmem : b ∈ sortDesc (·.relevanceScore) ((table lib task config data).filter
        fun c => c.relevanceScore > config.relevanceThreshold) :=
      mem_sortDesc.mpr (List.mem_filter.mpr ⟨hb, decide_eq_true habove⟩)
    have hsorted : (sortDesc (·.relevanceScore) ((table lib task config data).filter
        fun c => c.relevanceScore > config.relevanceThreshold)).Pairwise
        fun a b => b.relevanceScore ≤ a.relevanceScore :=
      pairwise_sortDesc fun _ _ => isNum_field _
    simp only [selected] at ha hnot
    split at ha
    · rename_i hcut
      rw [if_pos hcut] at hnot
      rw [← List.take_append_drop config.maxChunks (sortDesc _ _)] at hmem hsorted
      have hdrop := (List.mem_append.mp hmem).resolve_left hnot
      exact (List.pairwise_append.mp hsorted).2.2 a ha b hdrop
    · rename_i hcut
      rw [if_neg hcut] at hnot
      exact absurd hmem hnot
  · exact hbelow.trans (above_of_selected ha).le

end Selected

/-! ### The mean score -/

/-- The scores of some chunks add up to no more than `bound` each. -/
def Below (bound : K) (chunks : List (ContextChunk K)) : Prop :=
  (chunks.map (·.relevanceScore)).sum ≤ chunks.length * bound

theorem sum_field (xs : List K) : F64.sum xs = xs.sum := List.sum_eq_foldl.symm

section Below
variable [IsStrictOrderedRing K] {bound : K} {l l' : List (ContextChunk K)}

theorem below_of_forall (h : ∀ c ∈ l, c.relevanceScore ≤ bound) : Below bound l := by
  have hsum := List.sum_le_card_nsmul (l.map (·.relevanceScore)) bound fun x hx => by
    obtain ⟨c, hc, rfl⟩ := List.mem_map.mp hx
    exact h c hc
  rwa [List.length_map, nsmul_eq_mul] at hsum

theorem Below.append (h : Below bound l) (h' : Below bound l') : Below bound (l ++ l') := by
  unfold Below at *
  rw [List.map_append, List.sum_append, List.length_append, Nat.cast_add, add_mul]
  exact add_le_add h h'

omit [IsStrictOrderedRing K] in
theorem Below.perm (h : Below bound l) (hperm : l'.Perm l) : Below bound l' := by
  unfold Below at *
  rw [(hperm.map _).sum_eq, hperm.length_eq]
  exact h

/-- The mean of some chunks is at most a bound exactly when their sum is below it. -/
theorem mean_le_iff (h : l ≠ []) :
    F64.sum (l.map (·.relevanceScore)) / lit (l.length : ℚ) ≤ bound ↔ Below bound l := by
  have hpos : (0 : K) < l.length := Nat.cast_pos.mpr (List.length_pos_iff.mpr h)
  rw [sum_field, lit_field, Rat.cast_natCast, div_le_iff₀ hpos, mul_comm]
  exact Iff.rfl

end Below

/-! ### Runs -/

section Run
variable [IsStrictOrderedRing K] {lib : External K} {task : ContextEmbedding K}
  {config : MscConfig K} {data : List UInt8}

/-- What refinement never exceeds: the initial confidence, or the relevance threshold when nothing
    was selected. -/
def ceiling (config : MscConfig K) (initial : ContextDiff K) : K :=
  if initial.chunks.isEmpty then config.relevanceThreshold else initial.confidence

theorem initial_below :
    Below (ceiling config (initialOf lib data task config)) (selected lib task config data) := by
  cases hs : selected lib task config data with
  | nil => simp [Below]
  | cons c cs =>
    refine (mean_le_iff (List.cons_ne_nil c cs)).mp (le_of_eq ?_)
    simp [ceiling, initialOf, hs]

/-- A chunk that was left out scores no more than the ceiling. -/
theorem score_le_ceiling {c : ContextChunk K} (hc : c ∈ table lib task config data)
    (hnot : c ∉ selected lib task config data) :
    c.relevanceScore ≤ ceiling config (initialOf lib data task config) := by
  cases hs : selected lib task config data with
  | nil =>
    simp only [ceiling, initialOf, hs, List.isEmpty_nil, if_true]
    exact score_le_of_none hs hc
  | cons a as =>
    have hall : ∀ x ∈ (a :: as).map (·.relevanceScore), c.relevanceScore ≤ x := by
      intro x hx
      obtain ⟨b, hb, rfl⟩ := List.mem_map.mp hx
      exact score_le_of_selected (hs ▸ hb) hc hnot
    have hsum := List.card_nsmul_le_sum _ _ hall
    rw [List.length_map, nsmul_eq_mul] at hsum
    have hpos : (0 : K) < ((a :: as).length : ℕ) := Nat.cast_pos.mpr (Nat.succ_pos _)
    simp only [ceiling, initialOf, hs, List.isEmpty_cons, Bool.false_eq_true, if_false]
    rw [sum_field, lit_field, Rat.cast_natCast, le_div_iff₀ hpos, mul_comm]
    exact hsum

variable {p : ContextProvider K} {initial diff : ContextDiff K}
  {request : ContextRequestMsg K}

/-- An answer to a receiver that holds what was selected stays below the ceiling. -/
theorem answered_below (hinitial : initial =
      initialOf lib p.fullContext p.taskEmbedding p.compressor.config)
    (hheld : ∀ idx ∈ initial.chunks.map (·.index), idx ∈ diff.chunks.map (·.index))
    (h : Below (ceiling p.compressor.config initial) diff.chunks) :
    Below (ceiling p.compressor.config initial) (answered lib p diff request).chunks := by
  refine (h.append (below_of_forall fun c hc => ?_)).perm (perm_mergeChunks diff _)
  obtain ⟨hreq, hnew⟩ := List.mem_filter.mp hc
  rw [hinitial]
  refine score_le_ceiling (List.mem_of_getElem? (mem_requested.mp hreq).2) fun hsel => ?_
  refine of_decide_eq_true hnew (hheld _ ?_)
  rw [hinitial]
  exact List.mem_map_of_mem hsel

/-- Every diff of a run that starts from what was selected stays below the ceiling. -/
theorem linked_below (hinitial : initial =
      initialOf lib p.fullContext p.taskEmbedding p.compressor.config)
    {xs : List (Exchange K)} (hlinked : Linked p.totalChunks diff xs)
    (hanswers : ∀ x ∈ xs, x.merged = answered lib p x.before x.request)
    (hheld : ∀ idx ∈ initial.chunks.map (·.index), idx ∈ diff.chunks.map (·.index))
    (hbelow : Below (ceiling p.compressor.config initial) diff.chunks) :
    ∀ x ∈ xs, Below (ceiling p.compressor.config initial) x.merged.chunks := by
  induction xs generalizing diff with
  | nil => simp
  | cons x xs ih =>
    obtain ⟨hbefore, hx, hxs⟩ := hlinked
    have hmerged : Below (ceiling p.compressor.config initial) x.merged.chunks := by
      rw [hanswers x List.mem_cons_self, hbefore]
      exact answered_below hinitial hheld hbelow
    intro y hy
    rcases List.mem_cons.mp hy with rfl | hy
    · exact hmerged
    · refine ih hxs (fun z hz => hanswers z (List.mem_cons_of_mem _ hz)) ?_ hmerged y hy
      intro idx hidx
      exact (hx.merged idx).mpr (Or.inl (hbefore ▸ hheld idx hidx))

/-- A merge that brought something has the mean score as its confidence. -/
theorem confidence_le_of_below {bound : K} {x : Exchange K} (hx : x.Halves p.totalChunks)
    (hanswer : x.merged = answered lib p x.before x.request) (h : Below bound x.merged.chunks) :
    x.merged.confidence ≤ bound := by
  have hne : x.merged.chunks ≠ [] := by
    obtain ⟨idx, hidx⟩ := List.exists_mem_of_ne_nil _ hx.nonempty
    intro hnil
    have hmem := (hx.merged idx).mpr (Or.inr hidx)
    simp [hnil] at hmem
  have hconf : x.merged.confidence =
      F64.sum (x.merged.chunks.map (·.relevanceScore)) / lit (x.merged.chunks.length : ℚ) := by
    rw [hanswer] at hne ⊢
    exact if_neg fun hempty => hne (List.isEmpty_iff.mp hempty)
  rw [hconf]
  exact (mean_le_iff hne).mpr h

/-- Refinement never raises confidence above the initial one, or above the relevance threshold
    when nothing was selected. So a run that does not end at its first evaluation never ends with
    enough confidence. -/
theorem refinement_never_rescues (lib : External K) (p : ContextProvider K)
    (agent sender : AgentId) (taskId : Uuid) (threshold : K) (maxRounds : UInt32)
    (hthreshold : p.compressor.config.relevanceThreshold < threshold)
    {initial : ContextDiff K} (h : p.initialDiff lib = some (.ok initial)) :
    let fresh := freshManager agent threshold maxRounds
    ∃ xs verdict, refine lib p sender taskId fresh initial = some (xs, verdict) ∧
      (initial.chunks ≠ [] → ∀ x ∈ xs, x.merged.confidence ≤ initial.confidence) ∧
      (initial.chunks = [] →
        ∀ x ∈ xs, x.merged.confidence ≤ p.compressor.config.relevanceThreshold) ∧
      ((fresh.evaluate initial sender taskId p.totalChunks).1 ≠ .ok none → verdict ≠ .ok ()) := by
  intro fresh
  obtain ⟨-, -, hvalues, hinitial⟩ := (compress_iff lib p.fullContext).mp h
  obtain ⟨xs, verdict, hrun, hspec⟩ : ∃ xs verdict, refine lib p sender taskId _ initial = _ ∧ _ :=
    refine_spec hvalues (recorded_fresh agent threshold maxRounds initial)
  have hbelow : Below (ceiling p.compressor.config initial) initial.chunks := by
    rw [hinitial]
    exact initial_below
  have hle : ∀ x ∈ xs, x.merged.confidence ≤ ceiling p.compressor.config initial := by
    intro x hx
    exact confidence_le_of_below (hspec.linked.halves x hx) (hspec.answers x hx)
      (linked_below hinitial hspec.linked hspec.answers (fun _ hidx => hidx) hbelow x hx)
  refine ⟨xs, verdict, hrun, fun hne x hx => ?_, fun hnil x hx => ?_, fun hfirst hok => ?_⟩
  · have hbound := hle x hx
    rwa [ceiling, if_neg (by simpa using hne)] at hbound
  · have hbound := hle x hx
    rwa [ceiling, if_pos (by simpa using hnil)] at hbound
  · -- the first evaluation found too little confidence, the ceiling is too low as well
    have hlow : ¬ initial.confidence ≥ threshold := by
      intro hhigh
      exact hfirst (congrArg Prod.fst (if_pos hhigh))
    have hceiling : ceiling p.compressor.config initial < threshold := by
      unfold ceiling
      split
      · exact hthreshold
      · exact not_le.mp hlow
    have hlast : (diffAfter initial xs xs.length).confidence ≥ threshold := by
      rcases hspec.ends with ⟨-, hhigh⟩ | ⟨herror, -⟩
      · exact hhigh
      · rw [hok] at herror
        cases herror
    rcases diffAfter_length initial xs with heq | ⟨x, hx, heq⟩
    · rw [heq] at hlast
      exact hlow hlast
    · rw [heq] at hlast
      exact absurd (hlast.trans (hle x hx)) (not_le.mpr hceiling)

/-- The four chunks all score 1, so that a threshold of 2 is never reached. -/
theorem refinement_never_rescues_four : ∃ xs verdict,
    refine External.sample fourChunks ⟨2⟩ 7 (freshManager ⟨1⟩ 2 5)
      (initialOf External.sample [10, 20, 30, 40] ⟨1, [1]⟩ ⟨1 / 2, 1, 1, 1⟩) =
        some (xs, verdict) ∧ verdict ≠ .ok () := by
  obtain ⟨xs, verdict, hrun, -, -, hverdict⟩ :=
    refinement_never_rescues External.sample fourChunks ⟨1⟩ ⟨2⟩ 7 2 5 (by decide +kernel)
      fourChunks_initial
  refine ⟨xs, verdict, hrun, hverdict fun hfirst => ?_⟩
  have hhigh := AdaptiveContextManager.high_of_evaluate (Prod.ext hfirst rfl)
  exact absurd hhigh (by decide +kernel)

end Run

end Exact
end ATP
