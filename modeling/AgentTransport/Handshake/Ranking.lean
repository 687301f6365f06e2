import AgentTransport.Handshake.Offer
import AgentTransport.Lib.Ties

/-! The ranking of offers. The score adds up four clamped dimensions, each with its weight; a bound
    that is not positive switches its dimension off, for all offers alike. -/

namespace ATP
open F64 Collections
variable {K : Type} [Field K] [LinearOrder K] [FloorRing K]

/-- No dimension counts against itself. -/
structure OfferWeights.NonNeg (w : OfferWeights K) : Prop where
  quality : 0 ≤ w.quality
  latency : 0 ≤ w.latency
  cost : 0 ≤ w.cost
  trust : 0 ≤ w.trust

/-- No worse in any of the four dimensions. -/
structure CapabilityOfferMsg.AtLeastAsGoodAs (a b : CapabilityOfferMsg K) : Prop where
  quality : b.capability.estimatedQuality ≤ a.capability.estimatedQuality
  latency : a.capability.estimatedLatency ≤ b.capability.estimatedLatency
  cost : a.capability.costPerTask ≤ b.capability.costPerTask
  trust : b.trustScore ≤ a.trustScore

/-- The offers of a ranking are the given ones, sorted by score. -/
theorem OfferRanker.rank_eq (r : OfferRanker K) (offers : List (CapabilityOfferMsg K)) :
    r.rank offers = (sortDesc r.score offers).map fun o => ⟨o, r.score o⟩ := by
  have h := rank_map r id offers
  rwa [List.map_id] at h

theorem OfferRanker.map_offer_rank (r : OfferRanker K) (offers : List (CapabilityOfferMsg K)) :
    (r.rank offers).map (·.offer) = sortDesc r.score offers := by
  rw [rank_eq, List.map_map]
  exact List.map_id _

variable [IsStrictOrderedRing K]

/-- Less is better, in a dimension with a bound. -/
theorem dimension_anti {x y bound : K} (h : x ≤ y) :
    (if 0 < bound then clamp (1 - y / bound) 0 1 else 1) ≤
      if 0 < bound then clamp (1 - x / bound) 0 1 else 1 := by
  split_ifs with hbound
  · refine clamp_mono zero_lt_one ?_
    gcongr
  · exact le_rfl

namespace OfferRanker
variable {r : OfferRanker K}

/-- Every dimension adds a part of its weight. -/
theorem score_mem (hw : r.weights.NonNeg) (o : CapabilityOfferMsg K) : 0 ≤ r.score o ∧
    r.score o ≤ r.weights.quality + r.weights.latency + r.weights.cost + r.weights.trust := by
  have hpart : ∀ {w x : K}, 0 ≤ w → 0 ≤ x ∧ x ≤ 1 → 0 ≤ w * x ∧ w * x ≤ w :=
    fun hw hx => ⟨mul_nonneg hw hx.1, mul_le_of_le_one_right hw hx.2⟩
  obtain ⟨hq, hq'⟩ := hpart hw.quality (clamp_unit (isNum_field o.capability.estimatedQuality))
  obtain ⟨hl, hl'⟩ := hpart hw.latency (dimension_unit fun _ : (0 : K) < asSecs r.maxLatency =>
    isNum_field (1 - asSecs o.capability.estimatedLatency / asSecs r.maxLatency : K))
  obtain ⟨hc, hc'⟩ := hpart hw.cost (dimension_unit fun _ : 0 < r.maxCost =>
    isNum_field (1 - o.capability.costPerTask / r.maxCost))
  obtain ⟨ht, ht'⟩ := hpart hw.trust (clamp_unit (isNum_field o.trustScore))
  simp only [score, scoreOf]
  constructor <;> linarith

/-- A better offer scores no less. -/
theorem score_mono (hw : r.weights.NonNeg) {a b : CapabilityOfferMsg K}
    (h : a.AtLeastAsGoodAs b) : r.score b ≤ r.score a := by
  have hlatency : (asSecs a.capability.estimatedLatency : K) ≤
      asSecs b.capability.estimatedLatency := LawfulF64.asSecs_le _ _ h.latency
  simp only [score, scoreOf]
  refine add_le_add (add_le_add (add_le_add ?_ ?_) ?_) ?_
  · exact mul_le_mul_of_nonneg_left (clamp_mono zero_lt_one h.quality) hw.quality
  · exact mul_le_mul_of_nonneg_left (dimension_anti hlatency) hw.latency
  · exact mul_le_mul_of_nonneg_left (dimension_anti h.cost) hw.cost
  · exact mul_le_mul_of_nonneg_left (clamp_mono zero_lt_one h.trust) hw.trust

/-- Scores stay between zero and the sum of the weights and respect dominance, and a ranking is the
    given offers in the order of their scores, those of equal score in their own order. -/
theorem ranking_respects_dominance (r : OfferRanker K) (hw : r.weights.NonNeg)
    (offers : List (CapabilityOfferMsg K)) :
    (∀ o, 0 ≤ r.score o ∧
        r.score o ≤ r.weights.quality + r.weights.latency + r.weights.cost + r.weights.trust) ∧
      (∀ a b, a.AtLeastAsGoodAs b → r.score b ≤ r.score a) ∧
      (∀ x ∈ r.rank offers, x.score = r.score x.offer) ∧
      ((r.rank offers).map (·.offer)).Perm offers ∧
      (r.rank offers).Pairwise (fun x y => y.score ≤ x.score) ∧
      ∀ c, ((r.rank offers).map (·.offer)).filter (fun o => r.score o = c) =
        offers.filter fun o => r.score o = c := by
  refine ⟨score_mem hw, fun a b h => score_mono hw h, fun x hx => ?_, ?_, ?_, fun c => ?_⟩
  · rw [rank_eq] at hx
    obtain ⟨o, -, rfl⟩ := List.mem_map.mp hx
    rfl
  · rw [map_offer_rank]
    exact sortDesc_perm _ _
  · rw [rank_eq, List.pairwise_map]
    exact pairwise_sortDesc fun o _ => isNum_field _
  · rw [map_offer_rank]
    refine filter_insertionSort (fun a b ha hb => ?_) offers
    rw [of_decide_eq_true ha, of_decide_eq_true hb]
    exact lt_irrefl c

end OfferRanker

/-- An offer with this quality and trust, at a latency and cost of nothing. -/
def freeOffer (quality trust : ℚ) (nonce : UInt64) : CapabilityOfferMsg ℚ :=
  ⟨⟨1⟩, nonce, ⟨.analysis, quality, 0, 0⟩, trust, [], defaultOfferTtl, 0, []⟩

/-- Default weights, and no bounds: latency and cost count in full for every offer, and qualities
    beyond one tie. -/
theorem ranking_respects_dominance_unbounded :
    let r : OfferRanker ℚ := .fromDefaults 0 (-1)
    (r.rank [freeOffer 0 0 1, freeOffer 1 1 2, freeOffer 2 1 3]).map (·.offer.inReplyTo) =
        [2, 3, 1] ∧
      r.score (freeOffer 0 0 1) ≤ r.score (freeOffer 2 1 3) := by
  intro r
  have hw : r.weights.NonNeg := by
    constructor <;> decide +kernel
  obtain ⟨-, hdominance, -⟩ := r.ranking_respects_dominance hw []
  refine ⟨by decide +kernel, hdominance _ _ ⟨?_, ?_, ?_, ?_⟩⟩ <;> decide +kernel

end ATP
