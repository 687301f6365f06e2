import AgentTransport.Identity.TrustMean

/-! Ratings outside the unit interval. They are accepted as they come, and only the average is
    moved into the interval, so that a rating of 10 outweighs nine of 0. What an out-of-range rating
    adds beyond the nearest end is hidden in two cases: by the final `clamp`, when all ratings are
    beyond the same end, and by as much beyond the other end. -/

namespace ATP
open F64 WeightedMean

namespace TrustEngine
variable {K : Type} [Field K] [LinearOrder K] [FloorRing K]
  {lib : External K} {e : TrustEngine K} {now : DateTime} {subject : AgentId}
  {l records : List (InteractionRecord K)}

/-- A record with its rating moved into the unit interval. -/
def clampQuality (r : InteractionRecord K) : InteractionRecord K :=
  { r with qualityScore := clamp r.qualityScore 0 1 }

/-- All ratings are beyond the same end of the interval, or what is above one weighs as much as
    what is below zero. -/
def Balanced (lib : External K) (e : TrustEngine K) (now : DateTime)
    (l : List (InteractionRecord K)) : Prop :=
  (∀ r ∈ l, 1 ≤ r.qualityScore) ∨ (∀ r ∈ l, r.qualityScore ≤ 0) ∨
    moment (e.weight lib now) (fun r => Max.max (r.qualityScore - 1) 0) l =
      moment (e.weight lib now) (fun r => Max.max (-r.qualityScore) 0) l

theorem filter_map_clampQuality (p : InteractionRecord K → Bool)
    (hp : ∀ r, p (clampQuality r) = p r) :
    (records.map clampQuality).filter p = (records.filter p).map clampQuality := by
  rw [List.filter_map]
  exact congrArg _ (List.filter_congr fun r _ => hp r)

variable [IsStrictOrderedRing K]

/-- The average of the clamped records. -/
theorem weightedAverage_clampQuality (h : ∀ r ∈ l, 0 < e.weight lib now r) (hne : l ≠ []) :
    (e.weightedAverage lib (l.map clampQuality) now).1 =
      mean (e.weight lib now) (fun r => clamp r.qualityScore 0 1) l := by
  have hw : ∀ r ∈ l.map clampQuality, 0 < e.weight lib now r := by
    intro r hr
    obtain ⟨x, hx, rfl⟩ := List.mem_map.mp hr
    exact h x hx
  have hunit : ∀ r ∈ l.map clampQuality, 0 ≤ r.qualityScore ∧ r.qualityScore ≤ 1 := by
    intro r hr
    obtain ⟨x, hx, rfl⟩ := List.mem_map.mp hr
    exact clamp_unit (isNum_field _)
  rw [weightedAverage_unit hw (by simpa using hne) hunit, mean_map]
  rfl

theorem weightedAverage_clamp_iff (h : ∀ r ∈ l, 0 < e.weight lib now r) :
    (e.weightedAverage lib l now).1 = (e.weightedAverage lib (l.map clampQuality) now).1 ↔
      Balanced lib e now l := by
  rcases eq_or_ne l [] with rfl | hne
  · simp [Balanced]
  have h0 : ∀ r ∈ l, 0 ≤ e.weight lib now r := fun r hr => (h r hr).le
  have hpos : 0 < mass (e.weight lib now) l := mass_pos h hne
  have hunit : ∀ r ∈ l, 0 ≤ clamp r.qualityScore (0 : K) 1 ∧ clamp r.qualityScore (0 : K) 1 ≤ 1 :=
    fun r _ => clamp_unit (isNum_field _)
  -- the mean of the clamped ratings is at an end where all of them are
  have htop := mean_eq_top_iff h hne fun r hr => (hunit r hr).2
  have hbot := mean_eq_bot_iff h hne fun r hr => (hunit r hr).1
  have hbeyond : (∀ r ∈ l, 1 ≤ r.qualityScore) →
      1 ≤ mean (e.weight lib now) (·.qualityScore) l := fun hall =>
    le_mean h0 hpos fun r hr _ => hall r hr
  have hbelow : (∀ r ∈ l, r.qualityScore ≤ 0) →
      mean (e.weight lib now) (·.qualityScore) l ≤ 0 := fun hall =>
    mean_le h0 hpos fun r hr _ => hall r hr
  have hexcess : mean (e.weight lib now) (·.qualityScore) l =
      mean (e.weight lib now) (fun r => clamp r.qualityScore 0 1) l ↔
      moment (e.weight lib now) (fun r => Max.max (r.qualityScore - 1) 0) l =
        moment (e.weight lib now) (fun r => Max.max (-r.qualityScore) 0) l := by
    rw [mean_eq_iff h hne]
    simp only [sub_clamp]
    rw [moment_sub, sub_eq_zero]
  rw [weightedAverage_eq h, if_neg hne, weightedAverage_clampQuality h hne,
    clamp_eq_unit_iff ⟨le_mean h0 hpos fun r hr _ => (hunit r hr).1,
      mean_le h0 hpos fun r hr _ => (hunit r hr).2⟩, hexcess, htop, hbot, Balanced]
  simp only [clamp_eq_one_iff, clamp_eq_zero_iff]
  rw [and_iff_right_of_imp hbeyond, and_iff_right_of_imp hbelow]
  exact or_rotate

/-- When an out-of-range rating has no more influence than the nearest one in range. -/
theorem clamped_ratings_iff (hexp : ∀ x, 0 < lib.exp x) (t : TaskType) :
    (e.computeTrustScore lib subject t records now =
        e.computeTrustScore lib subject t (records.map clampQuality) now ∧
      e.computeAggregateTrust lib subject records now =
        e.computeAggregateTrust lib subject (records.map clampQuality) now) ↔
      Balanced lib e now (records.filter fun r => r.subject = subject ∧ r.taskType = t) ∧
        Balanced lib e now (records.filter fun r => r.subject = subject) := by
  have hw : ∀ l : List (InteractionRecord K), ∀ r ∈ l, 0 < e.weight lib now r :=
    fun _ r _ => weight_pos hexp r
  refine and_congr ?_ ?_
  · have hcount : ∀ l : List (InteractionRecord K), (e.weightedAverage lib l now).2 =
        (e.weightedAverage lib (l.map clampQuality) now).2 := by
      intro l
      rw [weightedAverage_eq (hw l), weightedAverage_eq (hw _), List.length_map]
    rw [← weightedAverage_clamp_iff (hw _)]
    rw [computeTrustScore, computeTrustScore, filter_map_clampQuality _ fun _ => rfl]
    simp only [TrustScore.mk.injEq, ← hcount, true_and, and_true]
  · rw [computeAggregateTrust_eq, computeAggregateTrust_eq,
      filter_map_clampQuality _ fun _ => rfl, weightedAverage_clamp_iff (hw _)]

/-- A rating as far above one as another is below zero. -/
theorem clamped_ratings_balanced :
    let records : List (InteractionRecord ℚ) := [⟨⟨2⟩, ⟨1⟩, .analysis, 3 / 2, 50, 0, 0, []⟩,
      ⟨⟨3⟩, ⟨1⟩, .analysis, -1 / 2, 50, 0, 0, []⟩]
    default.computeTrustScore .sample ⟨1⟩ .analysis records 0 =
        default.computeTrustScore .sample ⟨1⟩ .analysis (records.map clampQuality) 0 ∧
      default.computeAggregateTrust .sample ⟨1⟩ records 0 =
        default.computeAggregateTrust .sample ⟨1⟩ (records.map clampQuality) 0 :=
  (clamped_ratings_iff (fun _ => zero_lt_one) .analysis).mpr
    ⟨Or.inr (Or.inr (by decide +kernel)), Or.inr (Or.inr (by decide +kernel))⟩

/-- Ratings of 10 and 0 make a score of 1, clamped ones a score of 1/2. -/
theorem rating_of_ten :
    let records : List (InteractionRecord ℚ) := [⟨⟨2⟩, ⟨1⟩, .analysis, 10, 50, 0, 0, []⟩,
      ⟨⟨3⟩, ⟨1⟩, .analysis, 0, 50, 0, 0, []⟩]
    let score := fun records => (default.computeTrustScore .sample ⟨1⟩ .analysis records 0).score
    let aggregate := fun records => default.computeAggregateTrust .sample ⟨1⟩ records 0
    ¬ (score records = score (records.map clampQuality) ∧
      aggregate records = aggregate (records.map clampQuality)) := by
  decide +kernel

end TrustEngine

end ATP
