import AgentTransport.Context.Selection
import AgentTransport.Context.Similarity

/-! A ranking against the similarities of its pairs, in exact arithmetic. Both divide the dot
    product by the two norms, one before and the other after, but they cut off at different places:

        pairwise   |q| * |c| < ε
        batch      |q| < ε  or  |c| < ε

    and a query that is cut off is ranked before the dimensions are compared. -/

namespace ATP
open F64 Collections

/-- The ranking succeeds when every pair has a similarity, and then it has each index once, with
    the similarity of its pair, in falling order. -/
structure AgreesWithPairs {F : Type} [F64 F] (lib : External F) (query : ContextEmbedding F)
    (candidates : List (ContextEmbedding F)) : Prop where
  succeeds : (∃ r, rankBySimilarity lib query candidates = some (.ok r)) ↔
    ∀ c ∈ candidates, ∃ s, cosineSimilarity lib query c = some (.ok s)
  indices : ∀ r, rankBySimilarity lib query candidates = some (.ok r) →
    (r.map Prod.fst).Perm (List.range candidates.length)
  scores : ∀ r, rankBySimilarity lib query candidates = some (.ok r) → ∀ p ∈ r,
    ∃ c, candidates[p.1]? = some c ∧ cosineSimilarity lib query c = some (.ok p.2)
  sorted : ∀ r, rankBySimilarity lib query candidates = some (.ok r) →
    r.Pairwise fun p q => q.2 ≤ p.2

section Field
variable {K : Type} [Field K] [LinearOrder K] [FloorRing K]

variable {lib : External K} {query c : ContextEmbedding K}
  {candidates : List (ContextEmbedding K)}

/-- Both computations cut the pair off, or neither does. -/
def SameCutoff (lib : External K) (query c : ContextEmbedding K) : Prop :=
  l2Norm lib query.values * l2Norm lib c.values < epsilon ↔
    l2Norm lib query.values < epsilon ∨ l2Norm lib c.values < epsilon

instance : Decidable (SameCutoff lib query c) := inferInstanceAs (Decidable (_ ↔ _))

/-- The score in a ranking, of a zero query too. -/
def rankScore (lib : External K) (query c : ContextEmbedding K) : K :=
  if l2Norm lib query.values < epsilon then 0 else batchScore lib query c

theorem rank_eq_ok_iff {r : List (ℕ × K)} :
    rankBySimilarity lib query candidates = some (.ok r) ↔
      (l2Norm lib query.values < epsilon ∨ ∀ c ∈ candidates, Scorable lib query c) ∧
        sortDesc (·.2) (candidates.zipIdx.map fun p => (p.2, rankScore lib query p.1)) = r := by
  rw [rankBySimilarity_eq_ok_iff]
  by_cases hzero : l2Norm lib query.values < epsilon
  · have hsorted : sortDesc (·.2) (candidates.zipIdx.map fun p => (p.2, (0 : K))) =
        candidates.zipIdx.map fun p => (p.2, 0) := by
      refine List.Pairwise.insertionSort_eq (List.pairwise_map.mpr ?_)
      exact List.pairwise_of_forall fun _ _ => lt_irrefl (0 : K)
    simp only [rankScore, hzero, if_true, true_or, true_and, hsorted]
  · simp only [rankScore, hzero, if_false, false_or]

/-- A ranking holds each candidate under its index, with its score. -/
theorem mem_rank_iff {r : List (ℕ × K)} (hr : rankBySimilarity lib query candidates = some (.ok r))
    {i : ℕ} {s : K} :
    (i, s) ∈ r ↔ ∃ c, candidates[i]? = some c ∧ rankScore lib query c = s := by
  obtain ⟨-, rfl⟩ := rank_eq_ok_iff.mp hr
  rw [mem_sortDesc, List.mem_map]
  constructor
  · rintro ⟨x, hx, hxs⟩
    cases hxs
    exact ⟨x.1, List.mem_zipIdx_iff_getElem?.mp hx, rfl⟩
  · rintro ⟨c, hc, rfl⟩
    exact ⟨(c, i), List.mem_zipIdx_iff_getElem?.mpr hc, rfl⟩

theorem perm_index_rank {r : List (ℕ × K)}
    (hr : rankBySimilarity lib query candidates = some (.ok r)) :
    (r.map Prod.fst).Perm (List.range candidates.length) := by
  obtain ⟨-, rfl⟩ := rank_eq_ok_iff.mp hr
  refine ((sortDesc_perm _ _).map _).trans ?_
  rw [List.map_map, List.range_eq_range', ← List.zipIdx_map_snd 0 candidates]
  rfl

/-- When a pair has a similarity. -/
theorem exists_cosineSimilarity_iff : (∃ s, cosineSimilarity lib query c = some (.ok s)) ↔
    c.dimensions = query.dimensions ∧ c.values.length = query.values.length := by
  simp only [cosineSimilarity_eq_ok_iff, exists_and_left, exists_eq', and_true]
  exact and_congr eq_comm eq_comm

/-- A ranking that fails, of a query without a similarity to one of the candidates. -/
theorem agrees_of_fails (hfails : ∀ r, rankBySimilarity lib query candidates ≠ some (.ok r))
    (hpairs : ¬ ∀ c ∈ candidates, ∃ s, cosineSimilarity lib query c = some (.ok s)) :
    AgreesWithPairs lib query candidates where
  succeeds := iff_of_false (fun ⟨r, hr⟩ => hfails r hr) hpairs
  indices r hr := absurd hr (hfails r)
  scores r hr := absurd hr (hfails r)
  sorted r hr := absurd hr (hfails r)

variable [IsStrictOrderedRing K]

theorem epsilon_pos : (0 : K) < epsilon := by
  rw [epsilon, lit_field]
  exact_mod_cast (by norm_num : (0 : ℚ) < 1 / 2 ^ 52)

/-- The two scores of a pair agree where the cut-offs do, and for orthogonal vectors. -/
theorem cosine_eq_rankScore_iff
    (hdot : ∀ u v : List K, u.length = v.length → lib.dot u v = (List.zipWith (· * ·) u v).sum)
    (hlen : query.values.length = c.values.length) :
    cosine lib query.values c.values = rankScore lib query c ↔
      SameCutoff lib query c ∨ lib.dot query.values c.values = 0 := by
  have hε : (0 : K) < epsilon := epsilon_pos
  have hbatch : lib.dot (query.values.map (· / l2Norm lib query.values))
      (c.values.map (· / l2Norm lib c.values)) =
        lib.dot query.values c.values / (l2Norm lib query.values * l2Norm lib c.values) := by
    rw [hdot _ _ (by simpa using hlen), hdot _ _ hlen, sum_zipWith_div]
  have hrank : rankScore lib query c =
      if l2Norm lib query.values < epsilon ∨ l2Norm lib c.values < epsilon then 0
      else clamp (lib.dot query.values c.values /
        (l2Norm lib query.values * l2Norm lib c.values)) (-1) 1 := by
    rw [rankScore, batchScore, hbatch, ite_or]
  -- where the cut-offs differ, neither norm is zero
  have hzero : ¬ SameCutoff lib query c → (clamp (lib.dot query.values c.values /
      (l2Norm lib query.values * l2Norm lib c.values)) (-1) 1 = 0 ↔
        lib.dot query.values c.values = 0) := by
    intro hdiff
    have hne : l2Norm lib query.values * l2Norm lib c.values ≠ 0 := by
      by_cases hpair : l2Norm lib query.values * l2Norm lib c.values < epsilon
      · have hcut : ¬ (l2Norm lib query.values < epsilon ∨ l2Norm lib c.values < epsilon) :=
          fun hcut => hdiff (iff_of_true hpair hcut)
        obtain ⟨hq, hc⟩ := not_or.mp hcut
        exact (mul_pos (hε.trans_le (not_lt.mp hq)) (hε.trans_le (not_lt.mp hc))).ne'
      · exact (hε.trans_le (not_lt.mp hpair)).ne'
    rw [clamp_one_eq_zero_iff, div_eq_zero_iff, or_iff_left hne]
  rw [cosine, hrank]
  by_cases hsame : SameCutoff lib query c
  · exact iff_of_true (if_congr hsame rfl rfl) (Or.inl hsame)
  · rw [or_iff_right hsame, ← hzero hsame]
    by_cases hpair : l2Norm lib query.values * l2Norm lib c.values < epsilon
    · have hcut : ¬ (l2Norm lib query.values < epsilon ∨ l2Norm lib c.values < epsilon) :=
        fun hcut => hsame (iff_of_true hpair hcut)
      simp only [if_pos hpair, if_neg hcut]
      exact eq_comm
    · have hcut : l2Norm lib query.values < epsilon ∨ l2Norm lib c.values < epsilon :=
        by_contra fun hcut => hsame (iff_of_false hpair hcut)
      simp only [if_neg hpair, if_pos hcut]

/-- When a ranking agrees with the similarities of its pairs. -/
theorem rank_agrees_iff
    (hdot : ∀ u v : List K, u.length = v.length → lib.dot u v = (List.zipWith (· * ·) u v).sum) :
    AgreesWithPairs lib query candidates ↔
      (¬ l2Norm lib query.values < epsilon ∧ ∃ c ∈ candidates, ¬ Scorable lib query c) ∨
        ∀ c ∈ candidates, c.dimensions = query.dimensions ∧
          c.values.length = query.values.length ∧
          (SameCutoff lib query c ∨ lib.dot query.values c.values = 0) := by
  constructor
  · intro h
    by_cases hok : l2Norm lib query.values < epsilon ∨ ∀ c ∈ candidates, Scorable lib query c
    · right
      have hr := rank_eq_ok_iff.mpr ⟨hok, rfl⟩
      intro c hc
      obtain ⟨hdims, hlen⟩ := exists_cosineSimilarity_iff.mp (h.succeeds.mp ⟨_, hr⟩ c hc)
      refine ⟨hdims, hlen, (cosine_eq_rankScore_iff hdot hlen.symm).mp ?_⟩
      -- the pair stands in the ranking with the score of the batch
      obtain ⟨i, hi⟩ := List.mem_iff_getElem?.mp hc
      obtain ⟨c', hc', hscore⟩ := h.scores _ hr (i, rankScore lib query c)
        ((mem_rank_iff hr).mpr ⟨c, hi, rfl⟩)
      rw [hi] at hc'
      obtain rfl := Option.some.inj hc'
      exact (cosineSimilarity_eq_ok_iff.mp hscore).2.2
    · left
      push Not at hok
      exact ⟨hok.1.not_gt, hok.2⟩
  · rintro (⟨hzero, c, hc, hnot⟩ | hall)
    · have hfails : ∀ r, rankBySimilarity lib query candidates ≠ some (.ok r) := by
        intro r hr
        rcases (rank_eq_ok_iff.mp hr).1 with hcut | hscorable
        · exact hzero hcut
        · exact hnot (hscorable c hc)
      refine agrees_of_fails hfails fun hpairs => hnot ?_
      obtain ⟨hdims, hlen⟩ := exists_cosineSimilarity_iff.mp (hpairs c hc)
      exact ⟨hdims, Or.inr hlen⟩
    · have hok : l2Norm lib query.values < epsilon ∨ ∀ c ∈ candidates, Scorable lib query c :=
        Or.inr fun c hc => ⟨(hall c hc).1, Or.inr (hall c hc).2.1⟩
      refine ⟨iff_of_true ⟨_, rank_eq_ok_iff.mpr ⟨hok, rfl⟩⟩
        fun c hc => exists_cosineSimilarity_iff.mpr ⟨(hall c hc).1, (hall c hc).2.1⟩,
        fun r hr => perm_index_rank hr, ?_, ?_⟩
      · intro r hr p hp
        obtain ⟨c, hget, hscore⟩ := (mem_rank_iff hr).mp hp
        obtain ⟨hdims, hlen, hsame⟩ := hall c (List.mem_of_getElem? hget)
        have hcosine := (cosine_eq_rankScore_iff hdot hlen.symm).mpr hsame
        exact ⟨c, hget, cosineSimilarity_eq_ok_iff.mpr
          ⟨hdims.symm, hlen.symm, hcosine.trans hscore⟩⟩
      · intro r hr
        obtain ⟨-, rfl⟩ := rank_eq_ok_iff.mp hr
        exact pairwise_sortDesc fun _ _ => isNum_field _

end Field

/-- Two candidates of the length of the query, one of them opposite to it. -/
theorem rank_agrees_opposite :
    AgreesWithPairs exactLib (.new [2]) [.new [-3], .new [1]] :=
  (rank_agrees_iff fun _ _ _ => rfl).mpr (Or.inr (by decide +kernel))

/-- A zero query is ranked with a candidate of other dimensions, and a query and a candidate short
    enough to be cut off as a pair are ranked as similar. -/
theorem ranking_disagrees :
    ¬ AgreesWithPairs exactLib (.new [0]) [.new [1, 0]] ∧
      ¬ AgreesWithPairs exactLib (.new [1 / 2 ^ 27]) [.new [1 / 2 ^ 27]] := by
  constructor
  · intro h
    have hr : rankBySimilarity exactLib (.new [0]) [.new [1, 0]] = some (.ok [(0, 0)]) :=
      rank_eq_ok_iff.mpr (by decide +kernel)
    obtain ⟨s, hs⟩ := h.succeeds.mp ⟨_, hr⟩ (.new [1, 0]) List.mem_cons_self
    exact absurd (cosineSimilarity_eq_ok_iff.mp hs).1 (by decide)
  · intro h
    have hr : rankBySimilarity exactLib (.new [1 / 2 ^ 27]) [.new [1 / 2 ^ 27]] =
        some (.ok [(0, 1)]) := rank_eq_ok_iff.mpr (by decide +kernel)
    obtain ⟨c, hc, hs⟩ := h.scores _ hr (0, 1) List.mem_cons_self
    obtain rfl := Option.some.inj hc
    exact absurd (cosineSimilarity_eq_ok_iff.mp hs).2.2 (by decide +kernel)

end ATP
