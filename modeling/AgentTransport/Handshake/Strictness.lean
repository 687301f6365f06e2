import AgentTransport.Handshake.Contract

/-! How strict a contract is. It takes the lower of two minima and the higher of two maxima, so each
    of its terms is the laxer one of offer and request:

        offer meets the bound      the term is that of the request
        offer misses the bound     the term is that of the offer, which is laxer -/

namespace ATP
open F64
variable {F : Type} [F64 F]

/-- The terms are at least as strict as the request: no minimum is lower, no maximum higher. -/
structure QoSConstraints.AsStrictAs (agreed request : QoSConstraints F) : Prop where
  quality : ¬ agreed.minQuality < request.minQuality
  latency : agreed.maxLatency ≤ request.maxLatency
  cost : ¬ request.maxCost < agreed.maxCost
  trust : ¬ agreed.minTrust < request.minTrust

/-- The offer misses no bound of the request. -/
structure CapabilityOfferMsg.MissesNone (offer : CapabilityOfferMsg F)
    (request : QoSConstraints F) : Prop where
  quality : ¬ offer.capability.estimatedQuality < request.minQuality
  latency : offer.capability.estimatedLatency ≤ request.maxLatency
  cost : ¬ request.maxCost < offer.capability.costPerTask
  trust : ¬ offer.trustScore < request.minTrust

section Terms
variable [OrderedF64 F]

/-- The lower of two numbers is below the second one when the first is. -/
theorem min_lt_iff_left {a b : F} : F64.min a b < b ↔ a < b := by
  unfold F64.min
  split_ifs with h
  · exact Iff.rfl
  · exact iff_of_false (F64.lt_irrefl b) fun hlt => h (Or.inl hlt)

/-- The higher of two numbers is above the second one when the first is. -/
theorem lt_max_iff_left {a b : F} : b < F64.max a b ↔ b < a := by
  unfold F64.max
  split_ifs with h
  · exact Iff.rfl
  · exact iff_of_false (F64.lt_irrefl b) fun hlt => h (Or.inl hlt)

/-- A contract is at least as strict as the request exactly when the offer misses none of its
    bounds. -/
theorem createContract_asStrictAs_iff (src : AgentId) (bestOffer : RankedOffer F)
    (originalQos : QoSConstraints F) (contractDuration : Duration) (contractId : Uuid)
    (now : DateTime) :
    (createContract src bestOffer originalQos contractDuration contractId now).agreedQos.AsStrictAs
        originalQos ↔ bestOffer.offer.MissesNone originalQos := by
  have hlatency : Max.max bestOffer.offer.capability.estimatedLatency originalQos.maxLatency ≤
      originalQos.maxLatency ↔
        bestOffer.offer.capability.estimatedLatency ≤ originalQos.maxLatency :=
    max_le_iff.trans (and_iff_left le_rfl)
  constructor
  · intro h
    exact ⟨fun hlt => h.quality (min_lt_iff_left.mpr hlt), hlatency.mp h.latency,
      fun hlt => h.cost (lt_max_iff_left.mpr hlt), fun hlt => h.trust (min_lt_iff_left.mpr hlt)⟩
  · intro h
    exact ⟨fun hlt => h.quality (min_lt_iff_left.mp hlt), hlatency.mpr h.latency,
      fun hlt => h.cost (lt_max_iff_left.mp hlt), fun hlt => h.trust (min_lt_iff_left.mp hlt)⟩

end Terms

/-- An offer of an analyst of quality 0.5. -/
def mediocreOffer : CapabilityOfferMsg ℚ :=
  ⟨⟨1⟩, 7, ⟨.analysis, 1 / 2, Duration.millis 100, 3 / 10⟩, 4 / 5, [], defaultOfferTtl, 0, []⟩

/-- The only offer is ranked first, whatever it offers, and its contract asks for no more. -/
theorem mediocre_offer_gets_lax_contract :
    let qos : QoSConstraints ℚ := ⟨9 / 10, Duration.secs 10, 5, 1 / 2⟩
    ¬ ∀ ranked ∈ rankOffers [mediocreOffer] qos.maxLatency qos.maxCost,
      (createContract ⟨0⟩ ranked qos (Duration.secs 60) 3 0).agreedQos.AsStrictAs qos := by
  intro qos h
  have hranked : (⟨mediocreOffer, _⟩ : RankedOffer ℚ) ∈
      rankOffers [mediocreOffer] qos.maxLatency qos.maxCost :=
    mem_sortDesc.mpr (List.mem_map_of_mem List.mem_cons_self)
  have hlower : mediocreOffer.capability.estimatedQuality < qos.minQuality := by decide +kernel
  exact (h _ hranked).quality (min_lt_iff_left.mpr hlower)

/-- A contract from the same offer for a request that it meets. -/
theorem createContract_asStrictAs_mediocre :
    (createContract ⟨0⟩ ⟨mediocreOffer, 0⟩ ⟨2 / 5, Duration.secs 10, 5, 1 / 2⟩ (Duration.secs 60) 3
        0).agreedQos.AsStrictAs ⟨2 / 5, Duration.secs 10, 5, 1 / 2⟩ :=
  (createContract_asStrictAs_iff ⟨0⟩ ⟨mediocreOffer, 0⟩ _ (Duration.secs 60) 3 0).mpr
    ⟨by decide +kernel, by decide +kernel, by decide +kernel, by decide +kernel⟩

end ATP
