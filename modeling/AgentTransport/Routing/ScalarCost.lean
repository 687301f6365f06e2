import AgentTransport.Routing.Cost
import AgentTransport.Lib.Rounding

/-! The scalar cost: what it gains from each objective, for weights and references that are not
    negative. The loss of quality and the two ratios saturate, so that a better objective never
    costs more but may cost the same.

    Rounding keeps this as long as numbers come out: an infinite weight of nothing, or an infinite
    cost under an infinite reference, is a NaN. -/

namespace ATP
open F64

section Rounded
variable {F : Type} [F64 F]

/-- No objective counts against itself. -/
structure CostWeights.NonNeg (w : CostWeights F) : Prop where
  quality : 0 ≤ w.quality
  latency : 0 ≤ w.latency
  cost : 0 ≤ w.cost

/-- References to divide by. -/
structure CostModel.Positive (cm : CostModel F) : Prop where
  latencyRef : 0 < cm.latencyRef
  costRef : 0 < cm.costRef

/-- The metrics have a scalar cost that is a number, and so is their part of the cost. -/
structure CostModel.Measures (cm : CostModel F) (w : CostWeights F) (m : RouteMetrics F) :
    Prop where
  ratio : IsNum (m.cost / cm.costRef)
  total : IsNum (cm.scalarRouteCost m w)

namespace CostModel
variable [RoundedF64 F] {cm : CostModel F} {w : CostWeights F} {q q' : F} {l l' : Duration}
  {c c' : F}

/-- Better on every objective, no dearer. -/
theorem weighted_mono (hw : w.NonNeg) (hcm : cm.Positive) (hq : q' ≤ q)
    (hl : (asSecs l : F) ≤ asSecs l') (hc : c ≤ c') (hratio : IsNum (c / cm.costRef))
    (hratio' : IsNum (c' / cm.costRef)) (hnum : IsNum (cm.weighted q l c w))
    (hnum' : IsNum (cm.weighted q' l' c' w)) :
    cm.weighted q l c w ≤ cm.weighted q' l' c' w := by
  have htwo : IsNum (lit 2 : F) := RoundedF64.isNum_lit 2
  have href := RoundedF64.asSecs_pos (F := F) cm.latencyRef hcm.latencyRef
  -- each of the three terms is a number, because their sum is
  obtain ⟨hsum, hcost⟩ := RoundedF64.isNum_of_add _ _ hnum
  obtain ⟨hsum', hcost'⟩ := RoundedF64.isNum_of_add _ _ hnum'
  obtain ⟨hquality, hlatency⟩ := RoundedF64.isNum_of_add _ _ hsum
  obtain ⟨hquality', hlatency'⟩ := RoundedF64.isNum_of_add _ _ hsum'
  have hloss := RoundedF64.mul_le_mul_left _ _ _ (one_sub_anti (clamp_unit_mono hq)) hw.quality
    hquality hquality'
  have htime := RoundedF64.mul_le_mul_left _ _ _ (min_mono htwo
    (RoundedF64.div_le_div_right _ _ _ hl href (LawfulF64.isNum_asSecs_div l cm.latencyRef href)
      (LawfulF64.isNum_asSecs_div l' cm.latencyRef href))) hw.latency hlatency hlatency'
  have hprice := RoundedF64.mul_le_mul_left _ _ _ (min_mono htwo
    (RoundedF64.div_le_div_right _ _ _ hc hcm.costRef hratio hratio')) hw.cost hcost hcost'
  exact RoundedF64.add_le_add _ _ _ _
    (RoundedF64.add_le_add _ _ _ _ hloss htime hsum hsum') hprice hnum hnum'

end CostModel
end Rounded

section Exact
variable {K : Type} [Field K] [LinearOrder K] [FloorRing K]

namespace CostModel
variable {cm : CostModel K} {w : CostWeights K} {q : K} {l : Duration} {c : K}

theorem measures_field (m : RouteMetrics K) : cm.Measures w m := ⟨isNum_field _, isNum_field _⟩

theorem weighted_eq : cm.weighted q l c w =
    w.quality * (1 - Max.max 0 (Min.min q 1)) +
      w.latency * Min.min ((asSecs l : K) / asSecs cm.latencyRef) 2 +
      w.cost * Min.min (c / cm.costRef) 2 := by
  have htwo : (lit 2 : K) = 2 := by rw [lit_field]; norm_num
  simp only [weighted, clamp_field _ (zero_le_one (α := K)), min_field, htwo]

variable [IsStrictOrderedRing K]

theorem asSecs_nonneg (d : ℕ) : (0 : K) ≤ asSecs d := by
  rw [asSecs_field]
  positivity

theorem weighted_nonneg (hw : w.NonNeg) (href : 0 ≤ cm.costRef) (hc : 0 ≤ c) :
    0 ≤ cm.weighted q l c w := by
  have hlref : (0 : K) ≤ asSecs cm.latencyRef := asSecs_nonneg cm.latencyRef
  have hl : (0 : K) ≤ asSecs l := asSecs_nonneg l
  have hunit : Max.max 0 (Min.min q 1) ≤ 1 := max_le zero_le_one (min_le_right q 1)
  have hquality : 0 ≤ w.quality * (1 - Max.max 0 (Min.min q 1)) :=
    mul_nonneg hw.quality (by linarith)
  have hlatency : 0 ≤ w.latency * Min.min ((asSecs l : K) / asSecs cm.latencyRef) 2 :=
    mul_nonneg hw.latency (le_min (div_nonneg hl hlref) zero_le_two)
  have hcost : 0 ≤ w.cost * Min.min (c / cm.costRef) 2 :=
    mul_nonneg hw.cost (le_min (div_nonneg hc href) zero_le_two)
  rw [weighted_eq]
  linarith

/-- The weights a request gives rise to, when it asks for no negative quality or cost. -/
theorem weightsFromConstraints_nonNeg {qos : QoSConstraints K} (hq : 0 ≤ qos.minQuality)
    (hc : 0 ≤ qos.maxCost) : (weightsFromConstraints qos).NonNeg := by
  have hl : (0 : K) ≤ asSecs qos.maxLatency := asSecs_nonneg _
  have hlt : (0 : K) ≤ 1 / (1 + asSecs qos.maxLatency) := div_nonneg zero_le_one (by linarith)
  have hct : (0 : K) ≤ 1 / (1 + qos.maxCost) := div_nonneg zero_le_one (by linarith)
  have htotal : 0 ≤ qos.minQuality + 1 / (1 + asSecs qos.maxLatency) + 1 / (1 + qos.maxCost) := by
    linarith
  simp only [weightsFromConstraints]
  split
  · constructor <;> simp only [CostWeights.default, lit_field] <;> norm_num
  · exact ⟨div_nonneg hq htotal, div_nonneg hlt htotal, div_nonneg hct htotal⟩

end CostModel
end Exact
end ATP
