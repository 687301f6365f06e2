import AgentTransport.Identity.Trust
import Mathlib.Data.Finset.Max

/-! Trust as a weighted mean. The score of a task type and the aggregate are two loops over lists
    filtered in two ways; the aggregate is the mean of the scores,

        aggregate = Σ score(t) · W(t) / Σ W(t)

    with the weight `W(t)` of all records of that type. -/

namespace ATP
open F64 WeightedMean

namespace TrustEngine

section Relevant
variable {F : Type} {subject : AgentId} {records : List (InteractionRecord F)}

/-- There is a record about a subject of a type. -/
def Rated (subject : AgentId) (records : List (InteractionRecord F)) (t : TaskType) : Prop :=
  ∃ r ∈ records, r.subject = subject ∧ r.taskType = t

theorem rated_iff {t : TaskType} : Rated subject records t ↔
    records.filter (fun r => r.subject = subject ∧ r.taskType = t) ≠ [] := by
  rw [Rated, ne_eq, List.filter_eq_nil_iff]
  push Not
  simp only [decide_eq_true_eq]

/-- The records of a score, among those of the aggregate. -/
theorem part_taskType (t : TaskType) :
    part (·.taskType) (records.filter fun r => r.subject = subject) t =
      records.filter fun r => r.subject = subject ∧ r.taskType = t := by
  rw [part, List.filter_filter]
  exact List.filter_congr fun r _ => by rw [Bool.decide_and, Bool.and_comm]

/-- Two loops, one formula. -/
theorem computeAggregateTrust_eq [F64 F] (lib : External F) (e : TrustEngine F) (now : DateTime) :
    e.computeAggregateTrust lib subject records now =
      (e.weightedAverage lib (records.filter fun r => r.subject = subject) now).1 := by
  simp only [computeAggregateTrust, weightedAverage]
  split_ifs <;> rfl

end Relevant

section Exact
variable {K : Type} [Field K] [LinearOrder K] [FloorRing K]
  {lib : External K} {e : TrustEngine K} {now : DateTime} {subject : AgentId}
  {l l' records : List (InteractionRecord K)}

/-- The average does not depend on the order of the records. -/
theorem weightedAverage_perm (h : l.Perm l') :
    e.weightedAverage lib l now = e.weightedAverage lib l' now := by
  simp only [weightedAverage, totals_eq, moment_perm h, mass_perm h, h.length_eq,
    List.isEmpty_iff_length_eq_zero]

/-- The total weight of the records about a subject of one type. -/
def typeWeight (lib : External K) (e : TrustEngine K) (subject : AgentId)
    (records : List (InteractionRecord K)) (now : DateTime) (t : TaskType) : K :=
  mass (e.weight lib now) (records.filter fun r => r.subject = subject ∧ r.taskType = t)

theorem mass_typeWeight : mass (typeWeight lib e subject records now) TaskType.all =
    mass (e.weight lib now) (records.filter fun r => r.subject = subject) := by
  rw [mass_parts (InteractionRecord.taskType (F := K)) TaskType.nodup_all
    fun r _ => TaskType.mem_all r.taskType]
  simp only [part_taskType]
  rfl

/-- The aggregate is the weighted mean of the scores, and between the least and the greatest of
    those that rest on records. -/
structure MeanOfScores (lib : External K) (e : TrustEngine K) (subject : AgentId)
    (records : List (InteractionRecord K)) (now : DateTime) (aggregate : K)
    (score : TaskType → K) : Prop where
  eq_mean : aggregate =
    (TaskType.all.map fun t => score t * typeWeight lib e subject records now t).sum /
      (TaskType.all.map (typeWeight lib e subject records now)).sum
  between : ∃ least greatest, Rated subject records least ∧ Rated subject records greatest ∧
    (∀ t, Rated subject records t → score least ≤ score t ∧ score t ≤ score greatest) ∧
    score least ≤ aggregate ∧ aggregate ≤ score greatest

variable [IsStrictOrderedRing K]

/-- With positive weights the average is the weighted mean, or the prior when there is nothing to
    average. -/
theorem weightedAverage_eq (h : ∀ r ∈ l, 0 < e.weight lib now r) :
    e.weightedAverage lib l now = (if l = [] then e.prior
      else clamp (mean (e.weight lib now) (·.qualityScore) l) 0 1, UInt32.ofNat l.length) := by
  rcases eq_or_ne l [] with rfl | hne
  · rfl
  · have hmass : mass (e.weight lib now) l ≠ 0 := (mass_pos h hne).ne'
    simp only [weightedAverage, totals_eq, List.isEmpty_iff, ieeeEq_field, hne, hmass, mean,
      decide_false, Bool.false_eq_true, if_false]

/-- Raising one rating raises the average. -/
theorem weightedAverage_raise {before after : List (InteractionRecord K)} {r : InteractionRecord K}
    (h : ∀ x ∈ before ++ r :: after, 0 < e.weight lib now x) {q : K} (hq : r.qualityScore ≤ q) :
    (e.weightedAverage lib (before ++ r :: after) now).1 ≤
      (e.weightedAverage lib (before ++ { r with qualityScore := q } :: after) now).1 := by
  have h' : ∀ x ∈ before ++ { r with qualityScore := q } :: after, 0 < e.weight lib now x := by
    intro x hx
    rcases List.mem_append.mp hx with hx | hx
    · exact h x (List.mem_append_left _ hx)
    · rcases List.mem_cons.mp hx with rfl | hx
      · exact h r (by simp)
      · exact h x (by simp [hx])
  -- a weight does not depend on the rating, so only the numerator changes
  have hmass : mass (e.weight lib now) (before ++ { r with qualityScore := q } :: after) =
      mass (e.weight lib now) (before ++ r :: after) := by
    simp only [mass, List.map_append, List.map_cons]
    rfl
  have hmoment : moment (e.weight lib now) (·.qualityScore) (before ++ r :: after) ≤
      moment (e.weight lib now) (·.qualityScore)
        (before ++ { r with qualityScore := q } :: after) := by
    have hw : 0 ≤ e.weight lib now r := (h r (by simp)).le
    simp only [moment, List.map_append, List.map_cons, List.sum_append, List.sum_cons]
    have hmul : r.qualityScore * e.weight lib now r ≤ q * e.weight lib now r :=
      mul_le_mul_of_nonneg_right hq hw
    have hsame : e.weight lib now { r with qualityScore := q } = e.weight lib now r := rfl
    rw [hsame]
    linarith
  rw [weightedAverage_eq h, weightedAverage_eq h', if_neg (by simp), if_neg (by simp)]
  refine clamp_mono zero_lt_one ?_
  rw [mean, mean, hmass]
  exact div_le_div_of_nonneg_right hmoment (mass_nonneg fun x hx => (h x hx).le)

/-- The records are selected before they are averaged, but not by their ratings. -/
theorem weightedAverage_filter_raise {before after : List (InteractionRecord K)}
    {r : InteractionRecord K} {p : InteractionRecord K → Bool}
    (h : ∀ x ∈ before ++ r :: after, 0 < e.weight lib now x) {q : K} (hq : r.qualityScore ≤ q)
    (hp : ∀ q, p { r with qualityScore := q } = p r) :
    (e.weightedAverage lib ((before ++ r :: after).filter p) now).1 ≤
      (e.weightedAverage lib ((before ++ { r with qualityScore := q } :: after).filter p)
        now).1 := by
  rw [List.filter_append, List.filter_append, List.filter_cons, List.filter_cons, hp q]
  split_ifs with hr
  · refine weightedAverage_raise (fun x hx => h x ?_) hq
    rw [← List.filter_cons_of_pos hr, ← List.filter_append] at hx
    exact List.mem_of_mem_filter hx
  · exact le_refl _

/-! ### The mean of the scores -/

/-- Ratings in the unit interval are averaged as they are. -/
theorem weightedAverage_unit (h : ∀ r ∈ l, 0 < e.weight lib now r) (hne : l ≠ [])
    (hq : ∀ r ∈ l, 0 ≤ r.qualityScore ∧ r.qualityScore ≤ 1) :
    (e.weightedAverage lib l now).1 = mean (e.weight lib now) (·.qualityScore) l := by
  have h0 : ∀ r ∈ l, 0 ≤ e.weight lib now r := fun r hr => (h r hr).le
  rw [weightedAverage_eq h, if_neg hne, clamp_of_unit ⟨le_mean h0 (mass_pos h hne)
    fun r hr _ => (hq r hr).1, mean_le h0 (mass_pos h hne) fun r hr _ => (hq r hr).2⟩]

theorem typeWeight_ne_zero_iff (hw : ∀ r ∈ records, 0 < e.weight lib now r) {t : TaskType} :
    typeWeight lib e subject records now t ≠ 0 ↔ Rated subject records t := by
  rw [rated_iff, typeWeight]
  constructor
  · intro hne hnil
    exact hne (by rw [hnil]; rfl)
  · intro hne
    exact (mass_pos (fun r hr => hw r (List.mem_of_mem_filter hr)) hne).ne'

/-- The mean of the scores. -/
theorem meanOfScores (hw : ∀ r ∈ records, 0 < e.weight lib now r)
    (hq : ∀ r ∈ records, 0 ≤ r.qualityScore ∧ r.qualityScore ≤ 1)
    (hsome : ∃ r ∈ records, r.subject = subject) :
    MeanOfScores lib e subject records now (e.computeAggregateTrust lib subject records now)
      fun t => (e.computeTrustScore lib subject t records now).score := by
  obtain ⟨r, hr, hsub⟩ := hsome
  have hrel : ∀ x ∈ records.filter (fun r => r.subject = subject), 0 < e.weight lib now x :=
    fun x hx => hw x (List.mem_of_mem_filter hx)
  have hne : records.filter (fun r => r.subject = subject) ≠ [] :=
    List.ne_nil_of_mem (List.mem_filter.mpr ⟨hr, decide_eq_true hsub⟩)
  have hscore : ∀ t, Rated subject records t →
      (e.computeTrustScore lib subject t records now).score = mean (e.weight lib now)
        (·.qualityScore) (records.filter fun r => r.subject = subject ∧ r.taskType = t) :=
    fun t ht => weightedAverage_unit (fun x hx => hw x (List.mem_of_mem_filter hx))
      (rated_iff.mp ht) fun x hx => hq x (List.mem_of_mem_filter hx)
  -- grouping the records by type: the mean of the means, each weighted by the mass of its type
  have hmean : e.computeAggregateTrust lib subject records now =
      mean (typeWeight lib e subject records now)
        (fun t => (e.computeTrustScore lib subject t records now).score) TaskType.all := by
    rw [computeAggregateTrust_eq, weightedAverage_unit hrel hne
      fun x hx => hq x (List.mem_of_mem_filter hx),
      mean_parts (·.taskType) hrel TaskType.nodup_all fun x _ => TaskType.mem_all _]
    simp only [part_taskType]
    exact mean_congr fun t _ ht => (hscore t ((typeWeight_ne_zero_iff hw).mp ht)).symm
  have hweights : ∀ t ∈ TaskType.all, 0 ≤ typeWeight lib e subject records now t :=
    fun t _ => mass_nonneg fun x hx => (hw x (List.mem_of_mem_filter hx)).le
  have htotal : 0 < mass (typeWeight lib e subject records now) TaskType.all := by
    rw [mass_typeWeight]
    exact mass_pos hrel hne
  -- a weighted mean lies between the least and the greatest of the scores that weigh
  classical
  let rated := TaskType.all.toFinset.filter (Rated subject records)
  have hmem : ∀ t, t ∈ rated ↔ Rated subject records t := fun t => by
    simp [rated, TaskType.mem_all]
  have hrated : rated.Nonempty := ⟨r.taskType, (hmem _).mpr ⟨r, hr, hsub, rfl⟩⟩
  obtain ⟨least, hleast, hmin⟩ := rated.exists_min_image
    (fun t => (e.computeTrustScore lib subject t records now).score) hrated
  obtain ⟨greatest, hgreatest, hmax⟩ := rated.exists_max_image
    (fun t => (e.computeTrustScore lib subject t records now).score) hrated
  refine ⟨hmean, least, greatest, (hmem _).mp hleast, (hmem _).mp hgreatest,
    fun t ht => ⟨hmin t ((hmem t).mpr ht), hmax t ((hmem t).mpr ht)⟩, ?_, ?_⟩
  · rw [hmean]
    exact le_mean hweights htotal fun t _ ht =>
      hmin t ((hmem t).mpr ((typeWeight_ne_zero_iff hw).mp ht))
  · rw [hmean]
    exact mean_le hweights htotal fun t _ ht =>
      hmax t ((hmem t).mpr ((typeWeight_ne_zero_iff hw).mp ht))

/-- The aggregate is the weighted mean of the scores, the prior without records. It and the scores
    do not depend on the order of the records, and fall with no rating that is raised. -/
theorem trust_weighted_mean (hw : ∀ r ∈ records, 0 < e.weight lib now r)
    (hq : ∀ r ∈ records, 0 ≤ r.qualityScore ∧ r.qualityScore ≤ 1) :
    ((∃ r ∈ records, r.subject = subject) → MeanOfScores lib e subject records now
      (e.computeAggregateTrust lib subject records now)
      fun t => (e.computeTrustScore lib subject t records now).score) ∧
    ((∀ r ∈ records, r.subject ≠ subject) →
      e.computeAggregateTrust lib subject records now = e.prior) ∧
    (∀ records', records.Perm records' →
      (∀ t, e.computeTrustScore lib subject t records now =
        e.computeTrustScore lib subject t records' now) ∧
      e.computeAggregateTrust lib subject records now =
        e.computeAggregateTrust lib subject records' now) ∧
    ∀ before r after q, records = before ++ r :: after → r.qualityScore ≤ q →
      (∀ t, (e.computeTrustScore lib subject t records now).score ≤ (e.computeTrustScore lib subject
        t (before ++ { r with qualityScore := q } :: after) now).score) ∧
      e.computeAggregateTrust lib subject records now ≤ e.computeAggregateTrust lib subject
        (before ++ { r with qualityScore := q } :: after) now := by
  refine ⟨meanOfScores hw hq, fun hnone => ?_, fun records' hperm => ⟨fun t => ?_, ?_⟩,
    fun before r after q hsplit hle => ⟨fun t => ?_, ?_⟩⟩
  -- without records about the subject the filtered list is empty
  · have hnil : records.filter (fun r => r.subject = subject) = [] :=
      List.filter_eq_nil_iff.mpr fun r hr => by simpa using hnone r hr
    rw [computeAggregateTrust_eq, hnil]
    rfl
  · simp only [computeTrustScore, weightedAverage_perm (hperm.filter _)]
  · rw [computeAggregateTrust_eq, computeAggregateTrust_eq, weightedAverage_perm (hperm.filter _)]
  · subst hsplit
    exact weightedAverage_filter_raise hw hle fun _ => rfl
  · subst hsplit
    rw [computeAggregateTrust_eq, computeAggregateTrust_eq]
    exact weightedAverage_filter_raise hw hle fun _ => rfl

/-- Two types and a stranger. -/
theorem trust_weighted_mean_two_types :
    let records : List (InteractionRecord ℚ) := [⟨⟨2⟩, ⟨1⟩, .codeGeneration, 9 / 10, 50, 0, 0, []⟩,
      ⟨⟨2⟩, ⟨1⟩, .dataProcessing, 6 / 10, 50, 0, 0, []⟩, ⟨⟨2⟩, ⟨3⟩, .analysis, 1, 50, 0, 0, []⟩]
    MeanOfScores .sample default ⟨1⟩ records 0 (default.computeAggregateTrust .sample ⟨1⟩ records 0)
      fun t => (default.computeTrustScore .sample ⟨1⟩ t records 0).score :=
  (trust_weighted_mean (by decide +kernel) (by decide +kernel)).1 (by decide +kernel)

end Exact

end TrustEngine

end ATP
