import AgentTransport.Routing.Optimizer
import AgentTransport.Routing.Patterns

/-! The economic router: `find_route` tries the preferred pattern, then the automatic selection,
    then Bellman-Ford; `find_routes` collects what every pattern and Bellman-Ford offer, sorts it
    and drops the routes whose agents were listed already.

    Each hash map of a call has its own iteration order, and each route its own identifier and
    time; they are parameters, so that what is proved holds for all of them. -/

namespace ATP
open F64 Collections
variable {F : Type} [F64 F]

/-- Wraps the agent graph, cost model, and configuration. -/
structure EconomicRouter (F : Type) where
  graph : AgentGraph F
  costModel : CostModel F
  config : RoutingConfig

namespace EconomicRouter

/-- Create a router with the given graph and default configuration. -/
def new (g : AgentGraph F) : EconomicRouter F := ⟨g, CostModel.default, RoutingConfig.default⟩

/-- Add an agent to the router's graph. -/
def addAgent (r : EconomicRouter F) (id : AgentId) (capabilities : List (Capability F))
    (trustScore : F) : ℕ × EconomicRouter F :=
  let (idx, graph) := r.graph.addAgent id capabilities trustScore
  (idx, { r with graph })

/-- Connect two agents in both directions. -/
def connect (r : EconomicRouter F) (a b : AgentId) (transferLatency : Duration) :
    EconomicRouter F :=
  { r with graph := r.graph.addBidiEdge a b transferLatency }

/-- The route of a selected path. -/
def routeOfPath (r : EconomicRouter F) (stamp : Stamp) (p : ParetoRoute F) : Route F :=
  makeRoute .pipeline (pathToAgentIds r.graph p.path) p.metrics r.config.routeTtl stamp

/-- Bellman-Ford exploration, then selection of the top routes. -/
def explore (r : EconomicRouter F) (hs : RandomState (BellmanFordResult F)) (t : TaskType)
    (qos : QoSConstraints F) (n : ℕ) : Except RoutingError (List (ParetoRoute F)) := do
  let results ← multiObjectiveBellmanFord r.graph t qos.minTrust r.costModel
  selectTopRoutes hs results qos (CostModel.weightsFromConstraints qos) r.costModel n

/-- The single best route of the exploration. -/
def bestPipeline (r : EconomicRouter F) (hs : RandomState (BellmanFordResult F)) (t : TaskType)
    (qos : QoSConstraints F) (stamp : Stamp) : Except RoutingError (Route F) := do
  match ← r.explore hs t qos 1 with
  | [] => .error .noFeasibleRoute
  | best :: _ => .ok (r.routeOfPath stamp best)

/-- Try a specific routing pattern. -/
def tryPattern (r : EconomicRouter F) (hs : RandomState (BellmanFordResult F))
    (pattern : RoutingPattern) (t : TaskType) (qos : QoSConstraints F) (stamp : Stamp) :
    Except RoutingError (Route F) :=
  let ttl := r.config.routeTtl
  match pattern with
  | .draftRefine => draftRefine r.graph t qos ttl stamp
  | .parallelMerge => parallelMerge r.graph t qos ttl 3 stamp
  | .cascade => cascade r.graph t qos ttl (lit (7 / 10)) stamp
  | .ensemble => ensemble r.graph t qos ttl 3 stamp
  | .pipeline => r.bestPipeline hs t qos stamp

/-- Try the preferred pattern, if there is one. -/
def tryPreferred (r : EconomicRouter F) (hs : RandomState (BellmanFordResult F))
    (preferred : Option RoutingPattern) (t : TaskType) (qos : QoSConstraints F) (stamp : Stamp) :
    Except RoutingError (Route F) :=
  match preferred with
  | some pattern => r.tryPattern hs pattern t qos stamp
  | none => .error .noFeasibleRoute

/-- Find the single best route for a task under QoS constraints. -/
def findRoute (r : EconomicRouter F) (hsPattern hsFallback : RandomState (BellmanFordResult F))
    (t : TaskType) (qos : QoSConstraints F) (preferred : Option RoutingPattern) (stamp : Stamp) :
    Except RoutingError (Route F) := do
  r.graph.validate
  attempt true (r.tryPreferred hsPattern preferred t qos stamp) <|
    attempt true (autoSelectPattern r.graph t qos r.config.routeTtl stamp) <|
    r.bestPipeline hsFallback t qos stamp

/-- The patterns `find_routes` collects routes from, in order. -/
def collectedPatterns : List RoutingPattern := [.draftRefine, .parallelMerge, .cascade, .ensemble]

/-- Collect routes from all applicable routing patterns. -/
def collectPatternRoutes (r : EconomicRouter F) (hs : RandomState (BellmanFordResult F))
    (t : TaskType) (qos : QoSConstraints F) (stamps : ℕ → Stamp) : List (Route F) :=
  collectedPatterns.zipIdx.filterMap fun p =>
    (r.tryPattern hs p.1 t qos (stamps p.2)).toOption

/-- The Bellman-Ford routes of `find_routes`, none when the exploration fails. -/
def pipelineRoutes (r : EconomicRouter F) (hs : RandomState (BellmanFordResult F))
    (t : TaskType) (qos : QoSConstraints F) (stamps : ℕ → Stamp) : List (Route F) :=
  match r.explore hs t qos r.config.maxRoutes with
  | .ok top => top.zipIdx.map fun p => r.routeOfPath (stamps (4 + p.2)) p.1
  | .error _ => []

/-- Find multiple candidate routes for a task, ranked by scalar cost, one for each list of
    agents. -/
def findRoutes (r : EconomicRouter F) (hs : RandomState (BellmanFordResult F)) (t : TaskType)
    (qos : QoSConstraints F) (stamps : ℕ → Stamp) : Except RoutingError (List (Route F)) := do
  r.graph.validate
  let allRoutes := r.collectPatternRoutes hs t qos stamps ++ r.pipelineRoutes hs t qos stamps
  if allRoutes.isEmpty then .error .noFeasibleRoute
  else
    let w := CostModel.weightsFromConstraints qos
    let sorted := sortAsc (fun route => r.costModel.scalarRouteCost route.metrics w) allRoutes
    .ok ((retainNew (·.agents) [] sorted).take r.config.maxRoutes)

/-! ### Small routers to evaluate -/

/-- One agent for each trust score and capability, identifiers counted from 0, not connected. -/
def separate (agents : List (F × Capability F)) : EconomicRouter F :=
  new (agents.zipIdx.foldl (fun g p => (g.addAgent ⟨p.2⟩ [p.1.2] p.1.1).2) AgentGraph.new)

/-- The same agents, fully connected. -/
def sample (agents : List (F × Capability F)) : EconomicRouter F :=
  new ((separate agents).graph.fullyConnect (Duration.millis 5))

/-- An analyst of quality 0.7 that takes 100 ms. -/
def analyst : Capability ℚ := ⟨.analysis, 7 / 10, Duration.millis 100, 3 / 10⟩

/-- Two equal analysts. -/
def twins : EconomicRouter ℚ := sample [(4 / 5, analyst), (4 / 5, analyst)]

end EconomicRouter

end ATP
