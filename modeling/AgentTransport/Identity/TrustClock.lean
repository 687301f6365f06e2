import AgentTransport.Identity.Trust
import AgentTransport.Lib.Exact
import Mathlib.Analysis.Complex.Exponential

/-! Trust and the clock. Every weight decays by the same factor, which the mean cancels: an idle
    agent keeps its score.

        w(now₂) = e^(-λ (now₂ - now₁)) · w(now₁)    for every record -/

namespace ATP
open F64 WeightedMean

namespace TrustEngine
variable {K : Type} [Field K] [LinearOrder K] [IsStrictOrderedRing K] [FloorRing K]
  {lib : External K} {e : TrustEngine K} {now now₁ now₂ : DateTime}
  {records : List (InteractionRecord K)}

/-- A record made by `now`, at a whole second. -/
def Settled (now : DateTime) (r : InteractionRecord K) : Prop :=
  10 ^ 9 ∣ r.timestamp ∧ r.timestamp ≤ now

/-- The factor of a day count: `e^(-λ · days)`, the time given in nanoseconds. -/
def decay (lib : External K) (e : TrustEngine K) (elapsed : ℤ) : K :=
  lib.exp (-e.lambda * (elapsed / (86400 * 10 ^ 9 : ℕ)))

/-- Between whole seconds nothing is rounded off. -/
theorem daysSince_whole {timestamp : DateTime} (hs : 10 ^ 9 ∣ timestamp) (hn : 10 ^ 9 ∣ now)
    (h : timestamp ≤ now) :
    (daysSince timestamp now : K) = ((now - timestamp : ℤ) : K) / (86400 * 10 ^ 9) := by
  obtain ⟨s, rfl⟩ := hs
  obtain ⟨n, rfl⟩ := hn
  have hle : s ≤ n := by
    have : (10 : ℤ) ^ 9 * s ≤ 10 ^ 9 * n := h
    omega
  have hdiv : ((10 : ℤ) ^ 9 * n - 10 ^ 9 * s).tdiv (10 ^ 9) = n - s := by
    rw [← mul_sub, Int.mul_tdiv_cancel_left _ (by norm_num)]
  have hnonneg : (0 : K) ≤ (n - s : ℤ) / 86400 := by
    have : (0 : K) ≤ (n - s : ℤ) := by exact_mod_cast sub_nonneg.mpr hle
    positivity
  calc (daysSince (10 ^ 9 * s) (10 ^ 9 * n) : K)
    _ = F64.max (((n - s : ℤ) : K) / 86400) 0 := by
      rw [daysSince, hdiv, lit_field, lit_field]
      push_cast
      rfl
    _ = ((n - s : ℤ) : K) / 86400 := by rw [max_field, max_eq_left hnonneg]
    _ = ((10 ^ 9 * n - 10 ^ 9 * s : ℤ) : K) / (86400 * 10 ^ 9) := by
      push_cast
      ring

/-- The clock multiplies every weight by one factor. -/
theorem weight_decay (hexp : ∀ x y, lib.exp (x + y) = lib.exp x * lib.exp y)
    (h₁ : 10 ^ 9 ∣ now₁) (h₂ : 10 ^ 9 ∣ now₂) {r : InteractionRecord K} (hr₁ : Settled now₁ r)
    (hr₂ : Settled now₂ r) :
    e.weight lib now₂ r = decay lib e (now₂ - now₁) * e.weight lib now₁ r := by
  have hsum : -e.lambda * (daysSince r.timestamp now₂ : K) =
      -e.lambda * ((now₂ - now₁ : ℤ) / (86400 * 10 ^ 9 : ℕ)) +
        -e.lambda * daysSince r.timestamp now₁ := by
    rw [daysSince_whole hr₁.1 h₁ hr₁.2, daysSince_whole hr₂.1 h₂ hr₂.2]
    push_cast
    ring
  rw [weight, hsum, hexp, mul_assoc]
  rfl

theorem totals_decay (hexp : ∀ x y, lib.exp (x + y) = lib.exp x * lib.exp y)
    (h₁ : 10 ^ 9 ∣ now₁) (h₂ : 10 ^ 9 ∣ now₂) (hr₁ : ∀ r ∈ records, Settled now₁ r)
    (hr₂ : ∀ r ∈ records, Settled now₂ r) :
    e.totals lib now₂ records = (decay lib e (now₂ - now₁) * (e.totals lib now₁ records).1,
      decay lib e (now₂ - now₁) * (e.totals lib now₁ records).2) := by
  obtain ⟨hmoment, hmass⟩ : moment _ (·.qualityScore) records = _ ∧ mass _ records = _ :=
    sums_scale fun r hr => weight_decay hexp h₁ h₂ (hr₁ r hr) (hr₂ r hr)
  rw [totals_eq, totals_eq, hmoment, hmass]

/-- The sums vanish together and have one ratio: what the score is made of does not move. -/
theorem ratio_steady (hexp : ∀ x y, lib.exp (x + y) = lib.exp x * lib.exp y)
    (h₁ : 10 ^ 9 ∣ now₁) (h₂ : 10 ^ 9 ∣ now₂) (hr₁ : ∀ r ∈ records, Settled now₁ r)
    (hr₂ : ∀ r ∈ records, Settled now₂ r) :
    ((e.totals lib now₂ records).2 = 0 ↔ (e.totals lib now₁ records).2 = 0) ∧
      (e.totals lib now₂ records).1 / (e.totals lib now₂ records).2 =
        (e.totals lib now₁ records).1 / (e.totals lib now₁ records).2 := by
  -- each total is the other times a factor, so neither vanishes alone
  have hforth : e.totals lib now₂ records = _ := totals_decay hexp h₁ h₂ hr₁ hr₂
  have hback : e.totals lib now₁ records = _ := totals_decay hexp h₂ h₁ hr₂ hr₁
  have hden₂ : (e.totals lib now₂ records).2 = decay lib e (now₂ - now₁) * _ :=
    congrArg Prod.snd hforth
  have hden₁ : (e.totals lib now₁ records).2 = decay lib e (now₁ - now₂) * _ :=
    congrArg Prod.snd hback
  have hiff : (e.totals lib now₂ records).2 = 0 ↔ (e.totals lib now₁ records).2 = 0 := by
    constructor
    · intro h
      rw [hden₁, h, mul_zero]
    · intro h
      rw [hden₂, h, mul_zero]
  refine ⟨hiff, ?_⟩
  rcases eq_or_ne (e.totals lib now₁ records).2 0 with hzero | hne
  · rw [hzero, hiff.mpr hzero, div_zero, div_zero]
  · have hk : decay lib e (now₂ - now₁) ≠ 0 := by
      intro hk
      rw [hk, zero_mul] at hden₂
      exact hne (hiff.mp hden₂)
    rw [hforth]
    exact mul_div_mul_left _ _ hk

/-- Trust does not move with the clock alone. -/
theorem trust_steady (hexp : ∀ x y, lib.exp (x + y) = lib.exp x * lib.exp y)
    (e : TrustEngine K) (subject : AgentId) (taskType : TaskType) (h₁ : 10 ^ 9 ∣ now₁)
    (h₂ : 10 ^ 9 ∣ now₂)
    (hrecords : ∀ r ∈ records, 10 ^ 9 ∣ r.timestamp ∧ r.timestamp ≤ now₁ ∧ r.timestamp ≤ now₂) :
    (e.computeTrustScore lib subject taskType records now₁).score =
        (e.computeTrustScore lib subject taskType records now₂).score ∧
      e.computeAggregateTrust lib subject records now₁ =
        e.computeAggregateTrust lib subject records now₂ := by
  have key : ∀ p : InteractionRecord K → Bool,
      ((e.totals lib now₁ (records.filter p)).2 = 0 ↔
          (e.totals lib now₂ (records.filter p)).2 = 0) ∧
        (e.totals lib now₁ (records.filter p)).1 / (e.totals lib now₁ (records.filter p)).2 =
          (e.totals lib now₂ (records.filter p)).1 / (e.totals lib now₂ (records.filter p)).2 := by
    intro p
    have hmem : ∀ r ∈ records.filter p, r ∈ records := fun r hr => (List.mem_filter.mp hr).1
    exact ratio_steady hexp h₂ h₁
      (fun r hr => ⟨(hrecords r (hmem r hr)).1, (hrecords r (hmem r hr)).2.2⟩)
      (fun r hr => ⟨(hrecords r (hmem r hr)).1, (hrecords r (hmem r hr)).2.1⟩)
  constructor
  · obtain ⟨hzero, hratio⟩ := key fun r => r.subject = subject ∧ r.taskType = taskType
    simp only [computeTrustScore, weightedAverage, ieeeEq_field, hzero, hratio]
  · obtain ⟨hzero, hratio⟩ := key fun r => r.subject = subject
    simp only [computeAggregateTrust, ieeeEq_field, hzero, hratio]

/-- A record scored 0.9 at one second and one scored 0.4 at three, read at four and at ten. -/
theorem trust_steady_two :
    let records : List (InteractionRecord ℝ) := [⟨⟨2⟩, ⟨1⟩, .analysis, 9 / 10, 100, 0, 10 ^ 9, []⟩,
      ⟨⟨3⟩, ⟨1⟩, .analysis, 4 / 10, 100, 0, 3 * 10 ^ 9, []⟩]
    let lib : External ℝ := ⟨Real.exp, id, fun _ _ => 1, fun _ => Vector.replicate 32 0⟩
    let e : TrustEngine ℝ := TrustEngine.default
    (e.computeTrustScore lib ⟨1⟩ .analysis records (4 * 10 ^ 9)).score =
        (e.computeTrustScore lib ⟨1⟩ .analysis records (10 ^ 10)).score ∧
      e.computeAggregateTrust lib ⟨1⟩ records (4 * 10 ^ 9) =
        e.computeAggregateTrust lib ⟨1⟩ records (10 ^ 10) :=
  trust_steady Real.exp_add TrustEngine.default ⟨1⟩ .analysis (by decide) (by decide) (by simp)

end TrustEngine

end ATP
