import AgentTransport.Lib.WeightedMean
import AgentTransport.Types.External
import Mathlib.Tactic.LinearCombination

/-! Time-decayed trust: the mean of the quality scores of an agent, weighted by age and by the
    complexity of the task type. -/

namespace ATP
open F64 Collections WeightedMean
variable {F : Type} [F64 F]

/-- A record of a single interaction between two agents. -/
structure InteractionRecord (F : Type) where
  evaluator : AgentId
  subject : AgentId
  taskType : TaskType
  qualityScore : F
  latencyMs : UInt64
  cost : F
  timestamp : DateTime
  signature : List UInt8

structure TrustScore (F : Type) where
  agent : AgentId
  taskType : TaskType
  score : F
  sampleCount : UInt32
  lastUpdated : DateTime

/-- Engine for computing trust scores from interaction records. -/
structure TrustEngine (F : Type) where
  lambda : F
  prior : F

namespace TrustEngine

/-- `TrustEngine::default`. -/
def default : TrustEngine F := ⟨lit (1 / 100), lit (1 / 2)⟩

/-- Number of days between `timestamp` and `now`, from whole seconds, at least zero. -/
def daysSince (timestamp now : DateTime) : F :=
  F64.max (lit ((now - timestamp).tdiv (10 ^ 9)) / lit 86400) 0

/-- The weight of a record: exponential decay times complexity. -/
def weight (lib : External F) (e : TrustEngine F) (now : DateTime) (r : InteractionRecord F) : F :=
  lib.exp (-e.lambda * daysSince r.timestamp now) * r.taskType.complexityWeight

/-- The sums of the loop: weighted quality scores, and weights. -/
def totals (lib : External F) (e : TrustEngine F) (now : DateTime)
    (records : List (InteractionRecord F)) : F × F :=
  records.foldl (fun (numerator, denominator) r =>
    let w := e.weight lib now r
    (numerator + r.qualityScore * w, denominator + w)) (0, 0)

/-- Weighted average over a set of interaction records, and the number of samples in it. -/
def weightedAverage (lib : External F) (e : TrustEngine F) (records : List (InteractionRecord F))
    (now : DateTime) : F × UInt32 :=
  if records.isEmpty then (e.prior, 0)
  else
    let (numerator, denominator) := e.totals lib now records
    if ieeeEq denominator 0 then (e.prior, 0)
    else (clamp (numerator / denominator) 0 1, UInt32.ofNat records.length)

/-- The trust score for `subject` restricted to `taskType`. -/
def computeTrustScore (lib : External F) (e : TrustEngine F) (subject : AgentId)
    (taskType : TaskType) (records : List (InteractionRecord F)) (now : DateTime) :
    TrustScore F :=
  let relevant := records.filter (fun r => r.subject = subject ∧ r.taskType = taskType)
  let (score, count) := e.weightedAverage lib relevant now
  { agent := subject
    taskType := taskType
    score := score
    sampleCount := count
    lastUpdated := now }

/-- A single aggregate trust value for `subject` across all task types. -/
def computeAggregateTrust (lib : External F) (e : TrustEngine F) (subject : AgentId)
    (records : List (InteractionRecord F)) (now : DateTime) : F :=
  let relevant := records.filter (fun r => r.subject = subject)
  if relevant.isEmpty then e.prior
  else
    let (numerator, denominator) := e.totals lib now relevant
    if ieeeEq denominator 0 then e.prior else clamp (numerator / denominator) 0 1

theorem totals_concat (lib : External F) (e : TrustEngine F) (now : DateTime)
    (l : List (InteractionRecord F)) (r : InteractionRecord F) :
    e.totals lib now (l ++ [r]) = ((e.totals lib now l).1 + r.qualityScore * e.weight lib now r,
      (e.totals lib now l).2 + e.weight lib now r) := by
  rw [totals, List.foldl_append, ← totals]
  rfl

/-! ### Exact arithmetic -/

section Exact
variable {K : Type} [Field K] [LinearOrder K] [IsStrictOrderedRing K] [FloorRing K]
  {lib : External K} {e : TrustEngine K} {now : DateTime}

theorem weight_pos (hexp : ∀ x, 0 < lib.exp x) (r : InteractionRecord K) :
    0 < e.weight lib now r := by
  have hw : (0 : K) < r.taskType.complexityWeight := by
    cases r.taskType <;> simp only [TaskType.complexityWeight, lit_field] <;> norm_num
  exact mul_pos (hexp _) hw

omit [IsStrictOrderedRing K] in
/-- The sums of the loop are those of the weighted mean. -/
theorem totals_eq (lib : External K) (e : TrustEngine K) (now : DateTime)
    (l : List (InteractionRecord K)) : e.totals lib now l =
      (moment (e.weight lib now) (·.qualityScore) l, mass (e.weight lib now) l) := by
  induction l using List.reverseRecOn with
  | nil => rfl
  | append_singleton l r ih => simp [totals_concat, ih, moment, mass]

/-- Records of one quality: the sums are in that proportion. -/
theorem totals_const (hexp : ∀ x, 0 < lib.exp x) {c : K} {l : List (InteractionRecord K)}
    (h : ∀ r ∈ l, r.qualityScore = c) :
    (e.totals lib now l).1 = c * (e.totals lib now l).2 ∧ 0 ≤ (e.totals lib now l).2 := by
  rw [totals_eq, moment_congr fun r hr _ => h r hr, moment_const]
  exact ⟨rfl, mass_nonneg fun r _ => (weight_pos hexp r).le⟩

/-- After records of quality `c` only, one more keeps the mean at `c` exactly when it is of that
    quality too. -/
theorem aggregate_concat_eq_iff (hexp : ∀ x, 0 < lib.exp x) {c : K} (h0 : 0 < c) (h1 : c < 1)
    {a : AgentId} {l : List (InteractionRecord K)} {r : InteractionRecord K}
    (hsub : ∀ x ∈ l ++ [r], x.subject = a) (hl : ∀ x ∈ l, x.qualityScore = c) :
    e.computeAggregateTrust lib a (l ++ [r]) now = c ↔ r.qualityScore = c := by
  obtain ⟨hsum, hpos⟩ : (e.totals lib now l).1 = c * (e.totals lib now l).2 ∧
    0 ≤ (e.totals lib now l).2 := totals_const hexp hl
  have hw : 0 < e.weight lib now r := weight_pos hexp r
  have hrel : (l ++ [r]).filter (fun x => x.subject = a) = l ++ [r] :=
    List.filter_eq_self.mpr fun x hx => decide_eq_true (hsub x hx)
  have hden : 0 < (e.totals lib now l).2 + e.weight lib now r := by linarith
  have hne : ieeeEq ((e.totals lib now l).2 + e.weight lib now r) 0 = false := by
    simp only [ieeeEq, Bool.and_eq_false_iff, decide_eq_false_iff_not]
    exact Or.inl (not_le.mpr hden)
  have hempty : (l ++ [r]).isEmpty = false := by simp
  simp only [computeAggregateTrust, hrel, hempty, totals_concat, hne, Bool.false_eq_true, if_false]
  rw [clamp_eq_iff h0 h1, div_eq_iff hden.ne', hsum]
  constructor
  · intro h
    have hmul : (r.qualityScore - c) * e.weight lib now r = 0 := by linear_combination h
    have := (mul_eq_zero.mp hmul).resolve_right hw.ne'
    linarith
  · intro h
    rw [h]
    ring

/-- Records that agree with the prior leave the trust at the prior. -/
theorem aggregate_prior (hexp : ∀ x, 0 < lib.exp x) (h0 : 0 < e.prior) (h1 : e.prior < 1)
    {a : AgentId} {l : List (InteractionRecord K)} (hsub : ∀ x ∈ l, x.subject = a)
    (hl : ∀ x ∈ l, x.qualityScore = e.prior) :
    e.computeAggregateTrust lib a l now = e.prior := by
  rcases List.eq_nil_or_concat l with rfl | ⟨l, r, rfl⟩
  · rfl
  · rw [List.concat_eq_append] at *
    exact (aggregate_concat_eq_iff hexp h0 h1 hsub fun x hx => hl x (by simp [hx])).mpr
      (hl r (by simp))

end Exact

end TrustEngine

end ATP
