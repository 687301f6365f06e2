import AgentTransport.Handshake.Registry
import AgentTransport.Types.Message
import AgentTransport.Lib.StableSort
import Mathlib.Tactic.NormNum

/-! Phases 1 and 2 of the handshake: capability probes, and the offers that answer them, ranked by
    a weighted score. Clock readings and nonces are arguments. -/

namespace ATP
open F64
variable {F : Type} [F64 F]

/-! ### Probe -/

/-- Create a CAPABILITY_PROBE message. -/
def createProbe (src : AgentId) (taskType : TaskType) (qos : QoSConstraints F)
    (contextEmbedding : Option (ContextEmbedding F)) (nonce : UInt64) (now : DateTime) :
    CapabilityProbeMsg F where
  src := src
  taskType := taskType
  qos := qos
  contextEmbedding := contextEmbedding
  nonce := nonce
  timestamp := now
  signature := []

/-- Result of processing a probe against the local registry. -/
structure ProbeResult (F : Type) where
  matchingEntries : List (RegistryEntry F)
  probeNonce : UInt64
  taskType : TaskType
  qos : QoSConstraints F

def processProbe (probe : CapabilityProbeMsg F) (registry : CapabilityRegistry F) :
    ProbeResult F where
  matchingEntries := registry.findCapable probe.taskType probe.qos
  probeNonce := probe.nonce
  taskType := probe.taskType
  qos := probe.qos

/-- Whether a single capability satisfies the constraints of a probe, given a trust score. -/
def capabilityMatchesProbe (capability : Capability F) (trustScore : F)
    (qos : QoSConstraints F) : Bool :=
  decide (capability.estimatedQuality ≥ qos.minQuality) &&
    decide (capability.estimatedLatency ≤ qos.maxLatency) &&
    decide (capability.costPerTask ≤ qos.maxCost) &&
    decide (trustScore ≥ qos.minTrust)

/-- The three bounds on `f64` values. -/
structure MeetsButLatency (capability : Capability F) (trustScore : F)
    (qos : QoSConstraints F) : Prop where
  quality : qos.minQuality ≤ capability.estimatedQuality
  cost : capability.costPerTask ≤ qos.maxCost
  trust : qos.minTrust ≤ trustScore

theorem capabilityMatchesProbe_iff {capability : Capability F} {trustScore : F}
    {qos : QoSConstraints F} : capabilityMatchesProbe capability trustScore qos = true ↔
      MeetsButLatency capability trustScore qos ∧
        capability.estimatedLatency ≤ qos.maxLatency := by
  simp only [capabilityMatchesProbe, Bool.and_eq_true, decide_eq_true_eq, ge_iff_le]
  constructor
  · rintro ⟨⟨⟨hquality, hlatency⟩, hcost⟩, htrust⟩
    exact ⟨⟨hquality, hcost, htrust⟩, hlatency⟩
  · rintro ⟨⟨hquality, hcost, htrust⟩, hlatency⟩
    exact ⟨⟨⟨hquality, hlatency⟩, hcost⟩, htrust⟩

/-! ### Offer -/

/-- Create a CAPABILITY_OFFER in response to a probe. -/
def createOffer (src : AgentId) (probe : CapabilityProbeMsg F) (capability : Capability F)
    (trustScore : F) (ttl : Duration) (now : DateTime) : CapabilityOfferMsg F where
  src := src
  inReplyTo := probe.nonce
  capability := capability
  trustScore := trustScore
  trustProof := []
  ttl := ttl
  timestamp := now
  signature := []

/-- Default offer TTL. -/
def defaultOfferTtl : Duration := Duration.secs 5

/-- Weights of the composite offer score. -/
structure OfferWeights (F : Type) where
  quality : F
  latency : F
  cost : F
  trust : F

/-- `OfferWeights::default`. -/
def OfferWeights.default : OfferWeights F :=
  ⟨lit (35 / 100), lit (20 / 100), lit (15 / 100), lit (30 / 100)⟩

/-- An offer together with its computed composite score. -/
structure RankedOffer (F : Type) where
  offer : CapabilityOfferMsg F
  score : F

/-- Stateless offer ranking engine. -/
structure OfferRanker (F : Type) where
  weights : OfferWeights F
  maxLatency : Duration
  maxCost : F

namespace OfferRanker

/-- Default weights, with the normalisation bounds of the QoS constraints. -/
def fromDefaults (maxLatency : Duration) (maxCost : F) : OfferRanker F :=
  ⟨OfferWeights.default, maxLatency, maxCost⟩

/-- The score of an offer with this capability and trust; the rest of an offer is not read. -/
def scoreOf (r : OfferRanker F) (capability : Capability F) (trustScore : F) : F :=
  let w := r.weights
  let q := clamp capability.estimatedQuality 0 1
  let maxLatSecs : F := asSecs r.maxLatency
  -- lower latency and lower cost score higher; a bound of zero switches the dimension off
  let latScore := if 0 < maxLatSecs then
    clamp (1 - asSecs capability.estimatedLatency / maxLatSecs) 0 1 else 1
  let costScore := if 0 < r.maxCost then
    clamp (1 - capability.costPerTask / r.maxCost) 0 1 else 1
  let t := clamp trustScore 0 1
  w.quality * q + w.latency * latScore + w.cost * costScore + w.trust * t

/-- Score a single offer. -/
def score (r : OfferRanker F) (offer : CapabilityOfferMsg F) : F :=
  r.scoreOf offer.capability offer.trustScore

/-- Rank offers by composite score, best first. -/
def rank (r : OfferRanker F) (offers : List (CapabilityOfferMsg F)) : List (RankedOffer F) :=
  sortDesc (·.score) (offers.map fun o => ⟨o, r.score o⟩)

end OfferRanker

def rankOffers (offers : List (CapabilityOfferMsg F)) (maxLatency : Duration) (maxCost : F) :
    List (RankedOffer F) :=
  (OfferRanker.fromDefaults maxLatency maxCost).rank offers

/-- Whether an offer has expired at `now`; an unrepresentable TTL counts as zero. -/
def isOfferExpired (now : DateTime) (offer : CapabilityOfferMsg F) : Bool :=
  let expiresAt := offer.timestamp + (chronoFromStd offer.ttl).getD 0
  decide (now > expiresAt)

/-- The score an entry's offer gets under the bounds of a request. -/
def RegistryEntry.offerScore (qos : QoSConstraints F) (e : RegistryEntry F) : F :=
  (OfferRanker.fromDefaults qos.maxLatency qos.maxCost).scoreOf e.capability e.trustScore

omit [F64 F] in
/-- An offer made with the default TTL is good for five seconds. -/
theorem isOfferExpired_default {src : AgentId} {probe : CapabilityProbeMsg F} {c : Capability F}
    {trust : F} {offered checked : DateTime} :
    isOfferExpired checked (createOffer src probe c trust defaultOfferTtl offered) = false ↔
      checked ≤ offered + (defaultOfferTtl : ℤ) := by
  have httl : chronoFromStd defaultOfferTtl = some (defaultOfferTtl : ℤ) :=
    chronoFromStd_of_le (by decide)
  simp only [isOfferExpired, createOffer, httl, Option.getD_some, decide_eq_false_iff_not,
    not_lt, gt_iff_lt]

/-- The ranking of offers made from a list of entries is the ranking of the entries. -/
theorem rank_map {α : Type} (r : OfferRanker F) (offer : α → CapabilityOfferMsg F)
    (l : List α) :
    r.rank (l.map offer) =
      (sortDesc (fun a => r.score (offer a)) l).map fun a => ⟨offer a, r.score (offer a)⟩ := by
  rw [OfferRanker.rank, List.map_map]
  exact (map_sortDesc (fun a => (⟨offer a, r.score (offer a)⟩ : RankedOffer F)) (·.score) l).symm

/-- A dimension of the score lies in the unit interval, switched off or not. -/
theorem dimension_unit [LawfulF64 F] {p : Prop} [Decidable p] {x : F} (hx : p → IsNum x) :
    0 ≤ (if p then clamp x 0 1 else 1) ∧ (if p then clamp x 0 1 else 1) ≤ 1 := by
  by_cases hp : p
  · rw [if_pos hp]
    exact clamp_unit (hx hp)
  · rw [if_neg hp]
    exact ⟨LawfulF64.zero_le_one, IsNum.of_le_right LawfulF64.zero_le_one⟩

/-- The score of an entry that meets the bounds is a number, unless its cost and the bound on it
    are both infinite. -/
theorem RegistryEntry.Meets.isNum_offerScore [LawfulF64 F] {e : RegistryEntry F}
    {qos : QoSConstraints F} (h : e.Meets qos)
    (hcost : 0 < qos.maxCost → IsNum (e.capability.costPerTask / qos.maxCost)) :
    IsNum (e.offerScore qos) := by
  have hq := clamp_unit (IsNum.of_le_right h.quality)
  have ht := clamp_unit (IsNum.of_le_right h.trust)
  have hlat := dimension_unit fun hpos : (0 : F) < asSecs qos.maxLatency =>
    LawfulF64.isNum_one_sub _ (LawfulF64.isNum_asSecs_div e.capability.estimatedLatency _ hpos)
  have hcost := dimension_unit fun hpos => LawfulF64.isNum_one_sub _ (hcost hpos)
  simp only [offerScore, OfferRanker.scoreOf, OfferRanker.fromDefaults, OfferWeights.default]
  refine IsNum.of_le_right (add_nonneg (add_nonneg (add_nonneg ?_ ?_) ?_) ?_)
  · exact weighted_nonneg (by norm_num) (by norm_num) hq
  · exact weighted_nonneg (by norm_num) (by norm_num) hlat
  · exact weighted_nonneg (by norm_num) (by norm_num) hcost
  · exact weighted_nonneg (by norm_num) (by norm_num) ht

end ATP
