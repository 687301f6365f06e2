import AgentTransport.Routing.Router
import AgentTransport.Lib.OrPanic

/-! The router with durations of their actual size. A `Duration` ends at `Duration::MAX`, and `+`,
    `+=` and `sum` panic beyond it, as `from_secs_f64` does on what is no number of seconds. Each
    function here is the one of the same name with these panics, which are `none`:

        Bounded.findRoute = some x   ─▶   findRoute = x

    So whatever is proved of the plain functions holds of every call that returns. -/

namespace ATP
namespace Bounded
open F64 Collections
variable {F : Type} [F64 F]

/-- A duration that was added up; the panic is that of `+`, `+=` and `sum`. -/
def duration (d : ℕ) : Option Duration := if d ≤ maxDuration then some d else none

theorem duration_orPanic (d : ℕ) : OrPanic (duration d) d := by
  intro a h
  unfold duration at h
  split at h
  · exact (Option.some.inj h).symm
  · cases h

/-! ### Costs -/

/-- `CostModel::scalar_edge_cost`. -/
def scalarEdgeCost (cm : CostModel F) (cap : Capability F) (transferLatency : Duration)
    (w : CostWeights F) : Option F :=
  (duration (cap.estimatedLatency + transferLatency)).map fun total =>
    cm.weighted cap.estimatedQuality total cap.costPerTask w

theorem scalarEdgeCost_orPanic (cm : CostModel F) (cap : Capability F) (transferLatency : Duration)
    (w : CostWeights F) : OrPanic (scalarEdgeCost cm cap transferLatency w)
      (cm.scalarEdgeCost cap transferLatency w) :=
  (duration_orPanic _).map _

/-- `CostModel::compute_route_metrics`: two sums, and their sum. -/
def computeRouteMetrics (caps : List (Capability F)) (transfers : List Duration) :
    Option (RouteMetrics F) :=
  if caps.isEmpty then some ⟨lit 0, 0, lit 0⟩
  else do
    let agentLatency ← duration (caps.map (·.estimatedLatency)).sum
    let edgeLatency ← duration transfers.sum
    let latency ← duration (agentLatency + edgeLatency)
    some
      { quality := product (caps.map fun c => clamp c.estimatedQuality 0 1)
        latency
        cost := sum (caps.map (·.costPerTask)) }

theorem computeRouteMetrics_orPanic (caps : List (Capability F)) (transfers : List Duration) :
    OrPanic (computeRouteMetrics caps transfers)
      (CostModel.computeRouteMetrics caps transfers) := by
  unfold computeRouteMetrics CostModel.computeRouteMetrics
  split
  · exact .some _
  · exact (duration_orPanic _).bind
      ((duration_orPanic _).bind ((duration_orPanic _).bind (.some _)))

/-! ### Patterns -/

/-- The selection of `draft_refine`. -/
def draftRefineSelection (g : AgentGraph F) (agents : List (AgentInfo F)) :
    Option (Option (Selection F)) :=
  if agents.length < 2 then some none
  else
    match sortedByCost agents with
    | [] => some none
    | drafter :: _ =>
      match (sortedByQuality agents).find? (fun a => a.index ≠ drafter.index) with
      | none => some none
      | some refiner => do
        let metrics ← computeRouteMetrics [drafter.capability, refiner.capability]
          [hopLatency g drafter refiner]
        some (some ⟨[drafter, refiner], metrics⟩)

theorem draftRefineSelection_orPanic (g : AgentGraph F) (agents : List (AgentInfo F)) :
    OrPanic (draftRefineSelection g agents) (ATP.draftRefineSelection g agents) := by
  unfold draftRefineSelection ATP.draftRefineSelection
  split
  · exact .some _
  · cases sortedByCost agents with
    | nil => exact .some _
    | cons drafter rest =>
      cases hrefiner : (sortedByQuality agents).find? (fun a => a.index ≠ drafter.index) with
      | none =>
        simp only [hrefiner]
        exact .some _
      | some refiner =>
        simp only [hrefiner]
        exact (computeRouteMetrics_orPanic _ _).bind (.some _)

/-- The selections of `parallel_merge` and `ensemble`: the slowest latency and the overhead are
    added. -/
def redundantSelection (ranked : List (AgentInfo F)) (size : ℕ) (overhead : Duration) :
    Option (Option (Selection F)) :=
  let n := Nat.min size ranked.length
  if n < 2 then some none
  else
    (duration (redundantMetrics (ranked.take n) overhead).latency).map fun latency =>
      some ⟨ranked.take n, { redundantMetrics (ranked.take n) overhead with latency }⟩

theorem redundantSelection_orPanic (ranked : List (AgentInfo F)) (size : ℕ) (overhead : Duration) :
    OrPanic (redundantSelection ranked size overhead)
      (ATP.redundantSelection ranked size overhead) := by
  simp only [redundantSelection, ATP.redundantSelection]
  split
  · exact .some _
  · exact (duration_orPanic _).map _

/-- One level of a cascade: the expected time with its agent is added, then that of the transfer. -/
def cascadeLevel (g : AgentGraph F) (confidenceThreshold : F) (acc : CascadeTotals F)
    (agent : AgentInfo F) (next : Option (AgentInfo F)) : Option (CascadeTotals F) := do
  let q := clamp agent.capability.estimatedQuality 0 1
  let pConfident := if q ≥ confidenceThreshold then q else q * lit (1 / 2)
  let pHandle := acc.probReach * pConfident
  let stay ← fromSecs (acc.probReach * asSecs agent.capability.estimatedLatency)
  let latency ← duration (acc.latency + stay)
  let latency ← match next with
    | some b => do
      let transfer ← fromSecs (acc.probReach * (1 - pConfident) * asSecs (hopLatency g agent b))
      duration (latency + transfer)
    | none => some latency
  some
    { quality := acc.quality + pHandle * q
      latency
      cost := acc.cost + acc.probReach * agent.capability.costPerTask
      probReach := acc.probReach * (1 - pConfident) }

theorem fromSecs_orPanic (x : F) : OrPanic (fromSecs x) (secsOf x) := by
  intro d h
  rw [secsOf, h, Option.getD_some]

theorem cascadeLevel_orPanic (g : AgentGraph F) (confidenceThreshold : F) (acc : CascadeTotals F)
    (agent : AgentInfo F) (next : Option (AgentInfo F)) :
    OrPanic (cascadeLevel g confidenceThreshold acc agent next)
      (ATP.cascadeLevel g confidenceThreshold acc agent next) := by
  refine (fromSecs_orPanic _).bind ((duration_orPanic _).bind ?_)
  cases next with
  | none => exact .some _
  | some b => exact (fromSecs_orPanic _).bind ((duration_orPanic _).bind (.some _))

def cascadeLoop (g : AgentGraph F) (confidenceThreshold : F) :
    CascadeTotals F → List (AgentInfo F) → Option (CascadeTotals F)
  | acc, [] => some acc
  | acc, agent :: rest => do
    let acc ← cascadeLevel g confidenceThreshold acc agent rest.head?
    cascadeLoop g confidenceThreshold acc rest

theorem cascadeLoop_orPanic (g : AgentGraph F) (confidenceThreshold : F) :
    ∀ (chain : List (AgentInfo F)) (acc : CascadeTotals F),
      OrPanic (cascadeLoop g confidenceThreshold acc chain)
        (ATP.cascadeLoop g confidenceThreshold acc chain)
  | [], acc => .some acc
  | agent :: rest, acc =>
    (cascadeLevel_orPanic g confidenceThreshold acc agent rest.head?).bind
      (cascadeLoop_orPanic g confidenceThreshold rest _)

/-- The expected metrics of `cascade`. -/
def cascadeMetrics (g : AgentGraph F) (confidenceThreshold : F) (chain : List (AgentInfo F)) :
    Option (RouteMetrics F) := do
  let acc ← cascadeLoop g confidenceThreshold ⟨lit 0, 0, lit 0, lit 1⟩ chain
  let quality := match chain.getLast? with
    | some last =>
      if acc.probReach > 0 then acc.quality + acc.probReach * last.capability.estimatedQuality
      else acc.quality
    | none => acc.quality
  some ⟨clamp quality 0 1, acc.latency, acc.cost⟩

theorem cascadeMetrics_orPanic (g : AgentGraph F) (confidenceThreshold : F)
    (chain : List (AgentInfo F)) : OrPanic (cascadeMetrics g confidenceThreshold chain)
      (ATP.cascadeMetrics g confidenceThreshold chain) :=
  (cascadeLoop_orPanic g confidenceThreshold chain _).bind (.some _)

/-- The selection of `cascade`. -/
def cascadeSelection (g : AgentGraph F) (agents : List (AgentInfo F)) (confidenceThreshold : F) :
    Option (Option (Selection F)) :=
  let chain := (sortedByCost agents).take 4
  if chain.isEmpty then some none
  else (cascadeMetrics g confidenceThreshold chain).map fun metrics => some ⟨chain, metrics⟩

theorem cascadeSelection_orPanic (g : AgentGraph F) (agents : List (AgentInfo F))
    (confidenceThreshold : F) : OrPanic (cascadeSelection g agents confidenceThreshold)
      (ATP.cascadeSelection g agents confidenceThreshold) := by
  simp only [cascadeSelection, ATP.cascadeSelection]
  split
  · exact .some _
  · exact (cascadeMetrics_orPanic _ _ _).map _

section Patterns
variable (g : AgentGraph F) (t : TaskType) (qos : QoSConstraints F) (ttl : Duration)

/-- `draft_refine`. -/
def draftRefine (stamp : Stamp) : Option (Except RoutingError (Route F)) :=
  (draftRefineSelection g (extractAgents g t qos.minTrust)).map fun s =>
    checkedRoute .draftRefine s qos ttl stamp

/-- `parallel_merge`. -/
def parallelMerge (parallelism : ℕ) (stamp : Stamp) : Option (Except RoutingError (Route F)) :=
  (redundantSelection (sortedByQuality (extractAgents g t qos.minTrust)) parallelism
    (Duration.millis 10)).map fun s => checkedRoute .parallelMerge s qos ttl stamp

/-- `ensemble`. -/
def ensemble (ensembleSize : ℕ) (stamp : Stamp) : Option (Except RoutingError (Route F)) :=
  (redundantSelection ((sortedByQuality (extractAgents g t qos.minTrust)).insertionSort
    qualityThenTrust) ensembleSize (Duration.millis 5)).map fun s =>
      checkedRoute .ensemble s qos ttl stamp

/-- `cascade`. -/
def cascade (confidenceThreshold : F) (stamp : Stamp) : Option (Except RoutingError (Route F)) :=
  (cascadeSelection g (extractAgents g t qos.minTrust) confidenceThreshold).map fun s =>
    checkedRoute .cascade s qos ttl stamp

/-- The cheapest agent that meets the constraints by itself, of those given in order. -/
def cheapestSingle (stamp : Stamp) : List (AgentInfo F) → Option (Except RoutingError (Route F))
  | [] => some (.error .noFeasibleRoute)
  | a :: rest => do
    let metrics ← computeRouteMetrics [a.capability] []
    if CostModel.satisfiesConstraints metrics qos then
      some (.ok (makeRoute .pipeline [a.id] metrics ttl stamp))
    else cheapestSingle stamp rest

theorem draftRefine_orPanic (stamp : Stamp) :
    OrPanic (draftRefine g t qos ttl stamp) (ATP.draftRefine g t qos ttl stamp) :=
  (draftRefineSelection_orPanic _ _).map _

theorem parallelMerge_orPanic (parallelism : ℕ) (stamp : Stamp) :
    OrPanic (parallelMerge g t qos ttl parallelism stamp)
      (ATP.parallelMerge g t qos ttl parallelism stamp) :=
  (redundantSelection_orPanic _ _ _).map _

theorem ensemble_orPanic (ensembleSize : ℕ) (stamp : Stamp) :
    OrPanic (ensemble g t qos ttl ensembleSize stamp)
      (ATP.ensemble g t qos ttl ensembleSize stamp) :=
  (redundantSelection_orPanic _ _ _).map _

theorem cascade_orPanic (confidenceThreshold : F) (stamp : Stamp) :
    OrPanic (cascade g t qos ttl confidenceThreshold stamp)
      (ATP.cascade g t qos ttl confidenceThreshold stamp) :=
  (cascadeSelection_orPanic _ _ _).map _

/-- Trying one agent after the other finds the first that meets the constraints. -/
theorem cheapestSingle_orPanic (stamp : Stamp) : ∀ agents : List (AgentInfo F),
    OrPanic (cheapestSingle qos ttl stamp agents)
      (match agents.find? (fun a => CostModel.satisfiesConstraints (soloMetrics a) qos) with
        | some a => .ok (makeRoute .pipeline [a.id] (soloMetrics a) ttl stamp)
        | none => .error .noFeasibleRoute)
  | [] => .some _
  | a :: rest => by
    refine (computeRouteMetrics_orPanic _ _).bind ?_
    rw [List.find?_cons]
    by_cases h : CostModel.satisfiesConstraints (soloMetrics a) qos = true
    · rw [show CostModel.computeRouteMetrics [a.capability] [] = soloMetrics a from rfl,
        if_pos h, h]
      exact .some _
    · rw [show CostModel.computeRouteMetrics [a.capability] [] = soloMetrics a from rfl, if_neg h,
        Bool.eq_false_iff.mpr h]
      exact cheapestSingle_orPanic stamp rest

end Patterns

/-- A panic behind an open gate is the panic of the whole. -/
def attempt (gate : Bool) (route next : Option (Except RoutingError (Route F))) :
    Option (Except RoutingError (Route F)) :=
  if gate then
    match route with
    | none => none
    | some (.ok r) => some (.ok r)
    | some (.error _) => next
  else next

omit [F64 F] in
theorem attempt_orPanic {gate : Bool} {route next : Option (Except RoutingError (Route F))}
    {plain plainNext : Except RoutingError (Route F)} (h : OrPanic route plain)
    (hnext : OrPanic next plainNext) :
    OrPanic (attempt gate route next) (ATP.attempt gate plain plainNext) := by
  cases gate with
  | false => exact hnext
  | true =>
    cases hroute : route with
    | none => exact fun a ha => by cases ha
    | some x =>
      obtain rfl := h x hroute
      cases x with
      | ok r => exact .some _
      | error e => exact hnext

/-- `auto_select_pattern`. -/
def autoSelectPattern (g : AgentGraph F) (t : TaskType) (qos : QoSConstraints F) (ttl : Duration)
    (stamp : Stamp) : Option (Except RoutingError (Route F)) :=
  let agents := extractAgents g t qos.minTrust
  if agents.isEmpty then some (.error .noFeasibleRoute)
  else
    attempt (budgetGate agents qos) (cascade g t qos ttl (lit (7 / 10)) stamp) <|
    attempt (budgetGate agents qos) (draftRefine g t qos ttl stamp) <|
    attempt (qualityGate agents qos) (ensemble g t qos ttl 3 stamp) <|
    attempt (latencyGate agents qos) (parallelMerge g t qos ttl 3 stamp) <|
    cheapestSingle qos ttl stamp (sortedByCost agents)

theorem autoSelectPattern_orPanic (g : AgentGraph F) (t : TaskType) (qos : QoSConstraints F)
    (ttl : Duration) (stamp : Stamp) : OrPanic (autoSelectPattern g t qos ttl stamp)
      (ATP.autoSelectPattern g t qos ttl stamp) := by
  simp only [autoSelectPattern, ATP.autoSelectPattern]
  split
  · exact .some _
  · exact attempt_orPanic (cascade_orPanic _ _ _ _ _ _) <|
      attempt_orPanic (draftRefine_orPanic _ _ _ _ _) <|
      attempt_orPanic (ensemble_orPanic _ _ _ _ _ _) <|
      attempt_orPanic (parallelMerge_orPanic _ _ _ _ _ _) (cheapestSingle_orPanic _ _ _ _)

/-! ### Bellman-Ford -/

section Exploration
variable (g : AgentGraph F) (t : TaskType) (cm : CostModel F)

/-- Relaxing an edge adds the latency of its target and that of the transfer. -/
def relaxEdge {k : ℕ} (toLocal : HashMap ℕ (Fin k)) (w : CostWeights F) (u : Fin k)
    (st : Distances F k × Bool) (e : Edge) : Option (Distances F k × Bool) :=
  match toLocal.lookup e.toIdx, (g.node e.toIdx).bind (·.capabilityFor t), st.1.distAt u with
  | some v, some cap, some du => do
    let cost ← scalarEdgeCost cm cap e.transferLatency w
    let newDist := du + cost
    if ltDist newDist (st.1.distAt v) then
      some (⟨st.1.dist.set v (some newDist) v.isLt, st.1.pred.set v (some u) v.isLt⟩, true)
    else some st
  | _, _, _ => some st

theorem relaxEdge_orPanic {k : ℕ} (toLocal : HashMap ℕ (Fin k)) (w : CostWeights F) (u : Fin k)
    (st : Distances F k × Bool) (e : Edge) : OrPanic (relaxEdge g t cm toLocal w u st e)
      (Distances.relaxEdge g toLocal t w cm u st e) := by
  unfold relaxEdge Distances.relaxEdge
  cases toLocal.lookup e.toIdx with
  | none => exact .some _
  | some v =>
    cases (g.node e.toIdx).bind (·.capabilityFor t) with
    | none => exact .some _
    | some cap =>
      cases st.1.distAt u with
      | none => exact .some _
      | some du =>
        refine (scalarEdgeCost_orPanic cm cap e.transferLatency w).bind ?_
        dsimp only
        split
        · exact .some _
        · exact .some _

/-- One round of relaxation. -/
def relaxAll {k : ℕ} (agents : List ℕ) (toLocal : HashMap ℕ (Fin k)) (w : CostWeights F)
    (d : Distances F k) : Option (Distances F k × Bool) :=
  agents.foldlM (fun st uGlobal =>
    match toLocal.lookup uGlobal with
    | none => some st
    | some u =>
      if (st.1.distAt u).isNone then some st
      else (g.edgesFrom uGlobal).foldlM (relaxEdge g t cm toLocal w u) st) (d, false)

theorem relaxAll_orPanic {k : ℕ} (agents : List ℕ) (toLocal : HashMap ℕ (Fin k))
    (w : CostWeights F) (d : Distances F k) : OrPanic (relaxAll g t cm agents toLocal w d)
      (Distances.relaxAll g agents toLocal t w cm d) := by
  refine OrPanic.foldlM (fun st uGlobal => ?_) agents (d, false)
  cases toLocal.lookup uGlobal with
  | none => exact .some _
  | some u =>
    dsimp only
    split
    · exact .some _
    · exact OrPanic.foldlM (relaxEdge_orPanic g t cm toLocal w u) _ _

def relaxRounds {k : ℕ} (agents : List ℕ) (toLocal : HashMap ℕ (Fin k)) (w : CostWeights F) :
    ℕ → Distances F k → Option (Distances F k)
  | 0, d => some d
  | n + 1, d => do
    match ← relaxAll g t cm agents toLocal w d with
    | (d', true) => relaxRounds agents toLocal w n d'
    | (d', false) => some d'

theorem relaxRounds_orPanic {k : ℕ} (agents : List ℕ) (toLocal : HashMap ℕ (Fin k))
    (w : CostWeights F) : ∀ (n : ℕ) (d : Distances F k),
      OrPanic (relaxRounds g t cm agents toLocal w n d)
        (Distances.relaxRounds g agents toLocal t w cm n d)
  | 0, d => .some d
  | n + 1, d => by
    refine (relaxAll_orPanic g t cm agents toLocal w d).bind ?_
    rw [Distances.relaxRounds]
    cases Distances.relaxAll g agents toLocal t w cm d with
    | mk d' updated =>
      cases updated with
      | true => exact relaxRounds_orPanic agents toLocal w n d'
      | false => exact .some d'

/-- `bellman_ford_single`. -/
def bellmanFordSingle (agents : List ℕ) (source : ℕ) (w : CostWeights F) :
    Option (Option (List ℕ × F)) :=
  let toLocal := globalToLocal agents
  match toLocal.lookup source with
  | none => some none
  | some sourceLocal => do
    let d ← relaxRounds g t cm agents toLocal w (agents.length - 1) (Distances.init sourceLocal)
    match d.bestDest sourceLocal with
    | none => some none
    | some (dest, bestCost) =>
      some ((d.pathTo sourceLocal dest).map fun path => (path.map agents.get, bestCost))

theorem bellmanFordSingle_orPanic (agents : List ℕ) (source : ℕ) (w : CostWeights F) :
    OrPanic (bellmanFordSingle g t cm agents source w)
      (ATP.bellmanFordSingle g agents t source w cm) := by
  unfold bellmanFordSingle ATP.bellmanFordSingle
  dsimp only
  cases (globalToLocal agents).lookup source with
  | none => exact .some _
  | some s =>
    refine (relaxRounds_orPanic g t cm agents _ w _ _).bind ?_
    dsimp only
    cases (Distances.relaxRounds g agents (globalToLocal agents) t w cm (agents.length - 1)
      (Distances.init s)).bestDest s with
    | none => exact .some _
    | some b => exact .some _

/-- `compute_path_metrics`. -/
def computePathMetrics (path : List ℕ) : Option (Option (RouteMetrics F)) :=
  if path.isEmpty then some none
  else
    match pathCapabilities g t path with
    | none => some none
    | some caps => (computeRouteMetrics caps (pathTransfers g path)).map some

theorem computePathMetrics_orPanic (path : List ℕ) :
    OrPanic (computePathMetrics g t path) (ATP.computePathMetrics g path t) := by
  unfold computePathMetrics ATP.computePathMetrics
  split
  · exact .some _
  · cases pathCapabilities g t path with
    | none => exact .some _
    | some caps => exact (computeRouteMetrics_orPanic _ _).map _

/-- The result of one run, kept when its path has at least two agents. -/
def multiAgentResult (agents : List ℕ) (w : CostWeights F) (source : ℕ) :
    Option (Option (BellmanFordResult F)) := do
  match ← bellmanFordSingle g t cm agents source w with
  | none => some none
  | some (path, scalarCost) =>
    if 2 ≤ path.length then
      (computePathMetrics g t path).map fun metrics =>
        metrics.map fun metrics => ⟨w, path, scalarCost, metrics⟩
    else some none

theorem multiAgentResult_orPanic (agents : List ℕ) (w : CostWeights F) (source : ℕ) :
    OrPanic (multiAgentResult g t cm agents w source)
      (ATP.multiAgentResult g agents t cm w source) := by
  refine (bellmanFordSingle_orPanic g t cm agents source w).bind ?_
  unfold ATP.multiAgentResult
  cases ATP.bellmanFordSingle g agents t source w cm with
  | none => exact .some _
  | some p =>
    dsimp only
    split
    · exact (computePathMetrics_orPanic g t p.1).map _
    · exact .some _

/-- The route of one agent by itself, once for each weight vector. -/
def singleAgentResults (idx : ℕ) (cap : Capability F) : Option (List (BellmanFordResult F)) := do
  let metrics ← computeRouteMetrics [cap] []
  some (CostWeights.paretoSampleVectors.map fun w =>
    ⟨w, [idx], cm.scalarRouteCost metrics w, metrics⟩)

theorem singleAgentResults_orPanic (idx : ℕ) (cap : Capability F) :
    OrPanic (singleAgentResults cm idx cap) (ATP.singleAgentResults cm idx cap) :=
  (computeRouteMetrics_orPanic _ _).bind (.some _)

/-- The route of one agent by itself, if the agent is capable. -/
def soloResults (idx : ℕ) : Option (List (BellmanFordResult F)) :=
  match (g.node idx).bind (·.capabilityFor t) with
  | none => some []
  | some cap => singleAgentResults cm idx cap

theorem soloResults_orPanic (idx : ℕ) :
    OrPanic (soloResults g t cm idx) (ATP.soloResults g t cm idx) := by
  unfold soloResults ATP.soloResults
  cases (g.node idx).bind (·.capabilityFor t) with
  | none => exact .some _
  | some cap => exact singleAgentResults_orPanic cm idx cap

/-- One run for each weight vector and source, then each agent by itself. -/
def exploreAll (agents : List ℕ) : Option (List (BellmanFordResult F)) := do
  let runs ← CostWeights.paretoSampleVectors.mapM fun w =>
    agents.mapM (multiAgentResult g t cm agents w)
  let solos ← agents.mapM (soloResults g t cm)
  some ((runs.flatMap fun found => found.filterMap id) ++ solos.flatten)

theorem exploreAll_orPanic (agents : List ℕ) :
    OrPanic (exploreAll g t cm agents) (ATP.exploreAll g agents t cm) := by
  have hplain : ATP.exploreAll g agents t cm =
      ((CostWeights.paretoSampleVectors.map fun w =>
        agents.map (ATP.multiAgentResult g agents t cm w)).flatMap fun found =>
          found.filterMap id) ++ (agents.map (ATP.soloResults g t cm)).flatten := by
    simp only [ATP.exploreAll, List.flatMap_def, List.map_map, Function.comp_def,
      List.filterMap_map, id]
  rw [hplain]
  exact (OrPanic.mapM (fun w => OrPanic.mapM (multiAgentResult_orPanic g t cm agents w) agents)
    _).bind ((OrPanic.mapM (soloResults_orPanic g t cm) agents).bind (.some _))

/-- `multi_objective_bellman_ford`. -/
def multiObjectiveBellmanFord (minTrust : F) :
    Option (Except RoutingError (List (BellmanFordResult F))) :=
  match g.capableAgents t minTrust with
  | [] => some (.error .noFeasibleRoute)
  | [idx] =>
    match g.node idx with
    | none => some (.error .emptyGraph)
    | some node =>
      match node.capabilityFor t with
      | none => some (.error .noFeasibleRoute)
      | some cap => (singleAgentResults cm idx cap).map .ok
  | agents => do
    let results ← exploreAll g t cm agents
    if results.isEmpty then some (.error .noFeasibleRoute) else some (.ok results)

theorem multiObjectiveBellmanFord_orPanic (minTrust : F) :
    OrPanic (multiObjectiveBellmanFord g t cm minTrust)
      (ATP.multiObjectiveBellmanFord g t minTrust cm) := by
  unfold multiObjectiveBellmanFord ATP.multiObjectiveBellmanFord
  match g.capableAgents t minTrust with
  | [] => exact .some _
  | [idx] =>
    dsimp only
    cases g.node idx with
    | none => exact .some _
    | some node =>
      dsimp only
      cases node.capabilityFor t with
      | none => exact .some _
      | some cap => exact (singleAgentResults_orPanic cm idx cap).map _
  | i :: j :: rest =>
    refine (exploreAll_orPanic g t cm (i :: j :: rest)).bind ?_
    dsimp only
    split
    · exact .some _
    · exact .some _

end Exploration

end Bounded

/-! ### The router -/

namespace EconomicRouter
open F64 Collections
variable {F : Type} [F64 F] (router : EconomicRouter F) (hs : RandomState (BellmanFordResult F))
  (t : TaskType) (qos : QoSConstraints F)

/-- Bellman-Ford exploration, then selection of the top routes. -/
def boundedExplore (n : ℕ) : Option (Except RoutingError (List (ParetoRoute F))) :=
  (Bounded.multiObjectiveBellmanFord router.graph t router.costModel qos.minTrust).map
    fun found => found.bind fun results =>
      selectTopRoutes hs results qos (CostModel.weightsFromConstraints qos) router.costModel n

theorem explore_orPanic (n : ℕ) :
    OrPanic (router.boundedExplore hs t qos n) (router.explore hs t qos n) :=
  (Bounded.multiObjectiveBellmanFord_orPanic _ _ _ _).map _

/-- The single best route of the exploration. -/
def boundedBestPipeline (stamp : Stamp) : Option (Except RoutingError (Route F)) :=
  (router.boundedExplore hs t qos 1).map fun found => found.bind fun
    | [] => .error .noFeasibleRoute
    | best :: _ => .ok (router.routeOfPath stamp best)

theorem bestPipeline_orPanic (stamp : Stamp) :
    OrPanic (router.boundedBestPipeline hs t qos stamp) (router.bestPipeline hs t qos stamp) := by
  have hplain : router.bestPipeline hs t qos stamp = (router.explore hs t qos 1).bind fun
      | [] => .error .noFeasibleRoute
      | best :: _ => .ok (router.routeOfPath stamp best) := rfl
  rw [hplain]
  exact (explore_orPanic router hs t qos 1).map _

/-- `try_pattern`. -/
def boundedTryPattern (pattern : RoutingPattern) (stamp : Stamp) :
    Option (Except RoutingError (Route F)) :=
  let ttl := router.config.routeTtl
  match pattern with
  | .draftRefine => Bounded.draftRefine router.graph t qos ttl stamp
  | .parallelMerge => Bounded.parallelMerge router.graph t qos ttl 3 stamp
  | .cascade => Bounded.cascade router.graph t qos ttl (lit (7 / 10)) stamp
  | .ensemble => Bounded.ensemble router.graph t qos ttl 3 stamp
  | .pipeline => router.boundedBestPipeline hs t qos stamp

theorem tryPattern_orPanic (pattern : RoutingPattern) (stamp : Stamp) :
    OrPanic (router.boundedTryPattern hs t qos pattern stamp)
      (router.tryPattern hs pattern t qos stamp) := by
  cases pattern with
  | draftRefine => exact Bounded.draftRefine_orPanic _ _ _ _ _
  | parallelMerge => exact Bounded.parallelMerge_orPanic _ _ _ _ _ _
  | cascade => exact Bounded.cascade_orPanic _ _ _ _ _ _
  | ensemble => exact Bounded.ensemble_orPanic _ _ _ _ _ _
  | pipeline => exact bestPipeline_orPanic router hs t qos stamp

/-- The preferred pattern, if there is one. -/
def boundedTryPreferred (preferred : Option RoutingPattern) (stamp : Stamp) :
    Option (Except RoutingError (Route F)) :=
  match preferred with
  | some pattern => router.boundedTryPattern hs t qos pattern stamp
  | none => some (.error .noFeasibleRoute)

theorem tryPreferred_orPanic (preferred : Option RoutingPattern) (stamp : Stamp) :
    OrPanic (router.boundedTryPreferred hs t qos preferred stamp)
      (router.tryPreferred hs preferred t qos stamp) := by
  cases preferred with
  | none => exact .some _
  | some pattern => exact tryPattern_orPanic router hs t qos pattern stamp

/-- `find_route`. -/
def boundedFindRoute (hsPattern hsFallback : RandomState (BellmanFordResult F))
    (preferred : Option RoutingPattern) (stamp : Stamp) : Option (Except RoutingError (Route F)) :=
  match router.graph.validate with
  | .error e => some (.error e)
  | .ok () =>
    Bounded.attempt true (router.boundedTryPreferred hsPattern t qos preferred stamp) <|
    Bounded.attempt true
      (Bounded.autoSelectPattern router.graph t qos router.config.routeTtl stamp) <|
    router.boundedBestPipeline hsFallback t qos stamp

theorem findRoute_orPanic (hsPattern hsFallback : RandomState (BellmanFordResult F))
    (preferred : Option RoutingPattern) (stamp : Stamp) :
    OrPanic (router.boundedFindRoute t qos hsPattern hsFallback preferred stamp)
      (router.findRoute hsPattern hsFallback t qos preferred stamp) := by
  unfold boundedFindRoute findRoute
  cases router.graph.validate with
  | error e => exact .some _
  | ok u =>
    exact Bounded.attempt_orPanic (tryPreferred_orPanic router hsPattern t qos preferred stamp) <|
      Bounded.attempt_orPanic (Bounded.autoSelectPattern_orPanic _ _ _ _ _)
        (bestPipeline_orPanic router hsFallback t qos stamp)

/-- Collect routes from all applicable routing patterns. -/
def boundedCollectPatternRoutes (stamps : ℕ → Stamp) : Option (List (Route F)) :=
  (collectedPatterns.zipIdx.mapM fun p =>
    router.boundedTryPattern hs t qos p.1 (stamps p.2)).map fun found =>
      found.filterMap Except.toOption

theorem collectPatternRoutes_orPanic (stamps : ℕ → Stamp) :
    OrPanic (router.boundedCollectPatternRoutes hs t qos stamps)
      (router.collectPatternRoutes hs t qos stamps) := by
  have hplain : router.collectPatternRoutes hs t qos stamps =
      (collectedPatterns.zipIdx.map fun p : RoutingPattern × ℕ =>
        router.tryPattern hs p.1 t qos (stamps p.2)).filterMap Except.toOption := by
    rw [List.filterMap_map]
    rfl
  rw [hplain]
  exact (OrPanic.mapM (fun p : RoutingPattern × ℕ =>
    tryPattern_orPanic router hs t qos p.1 (stamps p.2)) _).map _

/-- The Bellman-Ford routes of `find_routes`. -/
def boundedPipelineRoutes (stamps : ℕ → Stamp) : Option (List (Route F)) :=
  (router.boundedExplore hs t qos router.config.maxRoutes).map fun
    | .ok top => top.zipIdx.map fun p => router.routeOfPath (stamps (4 + p.2)) p.1
    | .error _ => []

theorem pipelineRoutes_orPanic (stamps : ℕ → Stamp) :
    OrPanic (router.boundedPipelineRoutes hs t qos stamps)
      (router.pipelineRoutes hs t qos stamps) :=
  (explore_orPanic router hs t qos router.config.maxRoutes).map _

/-- `find_routes`. -/
def boundedFindRoutes (stamps : ℕ → Stamp) : Option (Except RoutingError (List (Route F))) :=
  match router.graph.validate with
  | .error e => some (.error e)
  | .ok () => do
    let collected ← router.boundedCollectPatternRoutes hs t qos stamps
    let explored ← router.boundedPipelineRoutes hs t qos stamps
    let allRoutes := collected ++ explored
    if allRoutes.isEmpty then some (.error .noFeasibleRoute)
    else
      let w := CostModel.weightsFromConstraints qos
      let sorted :=
        sortAsc (fun route => router.costModel.scalarRouteCost route.metrics w) allRoutes
      some (.ok ((retainNew (·.agents) [] sorted).take router.config.maxRoutes))

theorem findRoutes_orPanic (stamps : ℕ → Stamp) :
    OrPanic (router.boundedFindRoutes hs t qos stamps) (router.findRoutes hs t qos stamps) := by
  unfold boundedFindRoutes findRoutes
  cases router.graph.validate with
  | error e => exact .some _
  | ok u =>
    refine (collectPatternRoutes_orPanic router hs t qos stamps).bind
      ((pipelineRoutes_orPanic router hs t qos stamps).bind ?_)
    simp only [Bind.bind, Except.bind]
    split
    · exact .some _
    · exact .some _

end EconomicRouter
end ATP
