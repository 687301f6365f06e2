import AgentTransport.Types.Basic

/-! Cost model for routing decisions: quality is multiplicative along a route, latency (transfers
    included) and cost are additive. -/

namespace ATP
open F64
variable {F : Type} [F64 F]

/-- Weight vector for multi-objective optimization. -/
structure CostWeights (F : Type) where
  quality : F
  latency : F
  cost : F

/-- Predefined weight vectors that sample the Pareto frontier. -/
def CostWeights.paretoSampleVectors : List (CostWeights F) :=
  [ -- pure objectives
   ⟨lit 1, lit 0, lit 0⟩, ⟨lit 0, lit 1, lit 0⟩, ⟨lit 0, lit 0, lit 1⟩,
   -- pairwise blends
   ⟨lit (1 / 2), lit (1 / 2), lit 0⟩, ⟨lit (1 / 2), lit 0, lit (1 / 2)⟩,
   ⟨lit 0, lit (1 / 2), lit (1 / 2)⟩,
   -- balanced
   ⟨lit (34 / 100), lit (33 / 100), lit (33 / 100)⟩,
   -- quality-heavy, latency-heavy, cost-heavy
   ⟨lit (6 / 10), lit (2 / 10), lit (2 / 10)⟩, ⟨lit (2 / 10), lit (6 / 10), lit (2 / 10)⟩,
   ⟨lit (2 / 10), lit (2 / 10), lit (6 / 10)⟩]

/-- `CostWeights::default`. -/
def CostWeights.default : CostWeights F := ⟨lit (34 / 100), lit (33 / 100), lit (33 / 100)⟩

/-- Normalization references of the scalar costs. -/
structure CostModel (F : Type) where
  latencyRef : Duration
  costRef : F

namespace CostModel

/-- `CostModel::default`. -/
def default : CostModel F := ⟨Duration.secs 10, lit 1⟩

/-- Weighted sum of the loss of quality, the latency and the cost, each normalized. -/
def weighted (cm : CostModel F) (quality : F) (latency : Duration) (cost : F)
    (w : CostWeights F) : F :=
  let qNorm := 1 - clamp quality 0 1
  let lNorm := F64.min (asSecs latency / asSecs cm.latencyRef) (lit 2)
  let cNorm := F64.min (cost / cm.costRef) (lit 2)
  w.quality * qNorm + w.latency * lNorm + w.cost * cNorm

/-- Scalar edge cost for a single agent capability under given weights. -/
def scalarEdgeCost (cm : CostModel F) (cap : Capability F) (transferLatency : Duration)
    (w : CostWeights F) : F :=
  cm.weighted cap.estimatedQuality (cap.estimatedLatency + transferLatency) cap.costPerTask w

/-- Scalar cost of a complete route for comparison under given weights. -/
def scalarRouteCost (cm : CostModel F) (m : RouteMetrics F) (w : CostWeights F) : F :=
  cm.weighted m.quality m.latency m.cost w

/-- Route metrics from a sequence of capabilities and transfer latencies. -/
def computeRouteMetrics (caps : List (Capability F)) (transfers : List Duration) :
    RouteMetrics F :=
  if caps.isEmpty then ⟨lit 0, 0, lit 0⟩
  else
    { quality := product (caps.map fun c => clamp c.estimatedQuality 0 1)
      latency := (caps.map (·.estimatedLatency)).sum + transfers.sum
      cost := sum (caps.map (·.costPerTask)) }

/-- Check whether route metrics satisfy QoS constraints. -/
def satisfiesConstraints (m : RouteMetrics F) (qos : QoSConstraints F) : Bool :=
  decide (m.quality ≥ qos.minQuality) && decide (m.latency ≤ qos.maxLatency) &&
    decide (m.cost ≤ qos.maxCost)

/-- Derive weights from QoS constraints: tighter constraints get higher weight. -/
def weightsFromConstraints (qos : QoSConstraints F) : CostWeights F :=
  let qTightness := qos.minQuality
  let lTightness := 1 / (1 + asSecs qos.maxLatency)
  let cTightness := 1 / (1 + qos.maxCost)
  let total := qTightness + lTightness + cTightness
  -- `f64::EPSILON`
  if total < lit (1 / 2 ^ 52) then CostWeights.default
  else ⟨qTightness / total, lTightness / total, cTightness / total⟩

/-- Transfer latency of a hop for which the graph has no edge. -/
def defaultTransferLatency : Duration := Duration.millis 5

end CostModel

/-- The metrics meet the three bounds of a request. -/
structure RouteMetrics.Meets (m : RouteMetrics F) (qos : QoSConstraints F) : Prop where
  quality : m.quality ≥ qos.minQuality
  latency : m.latency ≤ qos.maxLatency
  cost : m.cost ≤ qos.maxCost

theorem satisfiesConstraints_iff {m : RouteMetrics F} {qos : QoSConstraints F} :
    CostModel.satisfiesConstraints m qos = true ↔ m.Meets qos := by
  simp only [CostModel.satisfiesConstraints, Bool.and_eq_true, decide_eq_true_eq]
  constructor
  · rintro ⟨⟨hq, hl⟩, hc⟩
    exact ⟨hq, hl, hc⟩
  · rintro ⟨hq, hl, hc⟩
    exact ⟨⟨hq, hl⟩, hc⟩

instance RouteMetrics.decidableMeets (m : RouteMetrics F) (qos : QoSConstraints F) :
    Decidable (m.Meets qos) :=
  decidable_of_iff _ satisfiesConstraints_iff

/-- Metrics that meet a request meet every weaker one. -/
theorem RouteMetrics.Meets.relaxed [OrderedF64 F] {m : RouteMetrics F} {q q' : QoSConstraints F}
    (h : m.Meets q) (hq : q'.AtMostAsStrict q) : m.Meets q' where
  quality := F64.le_trans hq.quality h.quality
  latency := Nat.le_trans h.latency hq.latency
  cost := F64.le_trans h.cost hq.cost

end ATP
