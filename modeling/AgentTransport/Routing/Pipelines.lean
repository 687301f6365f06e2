import AgentTransport.Routing.Soundness
import AgentTransport.Lib.Codec

/-! Pipelines through agents the caller lists. The loop over the path is that of the exploration, so
    the metrics are the same; but the exploration walks capable agents only, and the caller's list
    may hold any:

                        known   capable   available   trusted   metrics
        explored path     ✓        ✓          ✓          ✓         ✓
        listed path       ✓        ✓                               ✓ -/

namespace ATP
open F64 Codec
variable {F : Type} [F64 F]

/-- What the loop of `pipeline` gathers. -/
structure PathParts (F : Type) where
  agentIds : List AgentId
  capabilities : List (Capability F)
  transferLatencies : List Duration

/-- The loop of `pipeline`, after the agent with index `prev`. -/
def gather (g : AgentGraph F) (t : TaskType) :
    Option ℕ → List ℕ → Except RoutingError (PathParts F)
  | _, [] => .ok ⟨[], [], []⟩
  | prev, idx :: path => do
    let node ← okOr (g.node idx) .emptyGraph
    let cap ← okOr (node.capabilityFor t) .noFeasibleRoute
    let rest ← gather g t (some idx) path
    let transfers := match prev with
      | none => rest.transferLatencies
      | some p => (g.transferLatency p idx).getD CostModel.defaultTransferLatency ::
          rest.transferLatencies
    .ok ⟨node.id :: rest.agentIds, cap :: rest.capabilities, transfers⟩

/-- Build a pipeline route along a path of indices. -/
def pipeline (g : AgentGraph F) (t : TaskType) (qos : QoSConstraints F) (ttl : Duration)
    (path : List ℕ) (stamp : Stamp) : Except RoutingError (Route F) :=
  if path.isEmpty then .error .noFeasibleRoute
  else do
    let parts ← gather g t none path
    let metrics := CostModel.computeRouteMetrics parts.capabilities parts.transferLatencies
    if CostModel.satisfiesConstraints metrics qos then
      .ok (makeRoute .pipeline parts.agentIds metrics ttl stamp)
    else .error .noFeasibleRoute

/-- Build a pipeline route from an ordered list of agents. -/
def pipelineFromIds (g : AgentGraph F) (t : TaskType) (qos : QoSConstraints F) (ttl : Duration)
    (agentIds : List AgentId) (stamp : Stamp) : Except RoutingError (Route F) := do
  let path ← agentIds.mapM fun id => okOr (g.indexOf id) .noFeasibleRoute
  pipeline g t qos ttl path stamp

/-- Every agent serves the request, and the metrics meet its constraints. -/
structure Route.Admitted (r : Route F) (g : AgentGraph F) (t : TaskType) (qos : QoSConstraints F) :
    Prop where
  serves : ∀ id ∈ r.agents, ∃ n, g.nodeById id = some n ∧ AgentGraph.Serves n t qos.minTrust
  meets : r.metrics.Meets qos

/-- The checks made of the listed agents: there is one, all are known and capable, and the metrics
    of their path meet the constraints. -/
def PassesChecks (g : AgentGraph F) (t : TaskType) (qos : QoSConstraints F)
    (agentIds : List AgentId) : Prop :=
  ∃ path m, agentIds.mapM g.indexOf = some path ∧ computePathMetrics g path t = some m ∧
    m.Meets qos

section Listed
variable {g : AgentGraph F} {t : TaskType} {qos : QoSConstraints F} {ttl : Duration}
  {stamp : Stamp}

omit [F64 F] in
/-- The loop gathers the agents, the capabilities and the transfers of the path. -/
theorem gather_eq_ok : ∀ {path : List ℕ} {prev : Option ℕ} {parts : PathParts F},
    gather g t prev path = .ok parts ↔ parts.agentIds = pathToAgentIds g path ∧
      pathCapabilities g t path = some parts.capabilities ∧
        parts.transferLatencies = pathTransfers g (prev.toList ++ path)
  | [], prev, ⟨ids, caps, transfers⟩ => by
    cases prev <;> simp [gather, pathCapabilities, pathToAgentIds, pathTransfers, eq_comm]
  | idx :: path, prev, ⟨ids, caps, transfers⟩ => by
    -- the hop from the previous agent is there unless this one is the first
    have htransfers : pathTransfers g (prev.toList ++ idx :: path) = (match prev with
        | none => pathTransfers g (idx :: path)
        | some p => (g.transferLatency p idx).getD CostModel.defaultTransferLatency ::
            pathTransfers g (idx :: path)) := by
      cases prev <;> rfl
    constructor
    · intro h
      obtain ⟨node, hnode, h⟩ := bind_eq_ok.mp h
      obtain ⟨cap, hcap, h⟩ := bind_eq_ok.mp h
      obtain ⟨rest, hrest, h⟩ := bind_eq_ok.mp h
      obtain ⟨hids, hcaps, hlat⟩ := gather_eq_ok.mp hrest
      rw [okOr_eq_ok] at hnode hcap
      obtain ⟨rfl, rfl, rfl⟩ := PathParts.mk.inj (Except.ok.inj h)
      refine ⟨?_, ?_, ?_⟩
      · simp only [pathToAgentIds, List.filterMap_cons, AgentGraph.agentId, hnode,
          Option.map_some] at hids ⊢
        rw [hids]
      · simp only [pathCapabilities, List.mapM_cons, hnode, Option.bind_some, hcap] at hcaps ⊢
        rw [hcaps]
        rfl
      · rw [htransfers, hlat]
        rfl
    · rintro ⟨rfl, hcaps, rfl⟩
      rw [pathCapabilities, List.mapM_cons] at hcaps
      obtain ⟨cap, hcap, hcaps⟩ := Option.bind_eq_some_iff.mp hcaps
      obtain ⟨node, hnode, hcap⟩ := Option.bind_eq_some_iff.mp hcap
      obtain ⟨rest, hrest, hcaps⟩ := Option.bind_eq_some_iff.mp hcaps
      obtain rfl := Option.some.inj hcaps
      have hgather : gather g t (some idx) path =
          .ok ⟨pathToAgentIds g path, rest, pathTransfers g (idx :: path)⟩ :=
        gather_eq_ok.mpr ⟨rfl, hrest, rfl⟩
      rw [gather, hnode, okOr_some, ok_bind, hcap, okOr_some, ok_bind, hgather, ok_bind, htransfers]
      simp [pathToAgentIds, AgentGraph.agentId, hnode]

/-- A listed path has the metrics of an explored one. -/
theorem pipeline_eq_ok {path : List ℕ} {r : Route F} :
    pipeline g t qos ttl path stamp = .ok r ↔ ∃ m, computePathMetrics g path t = some m ∧
      m.Meets qos ∧ r = makeRoute .pipeline (pathToAgentIds g path) m ttl stamp := by
  unfold pipeline computePathMetrics
  by_cases hempty : path.isEmpty
  · simp [hempty]
  · rw [if_neg hempty, if_neg hempty, bind_eq_ok]
    constructor
    · rintro ⟨parts, hparts, h⟩
      obtain ⟨hids, hcaps, hlat⟩ := gather_eq_ok.mp hparts
      change parts.transferLatencies = pathTransfers g path at hlat
      dsimp only at h
      split at h
      · rename_i hmeets
        refine ⟨_, by rw [hcaps, Option.map_some], ?_, ?_⟩
        · rw [← hlat]
          exact satisfiesConstraints_iff.mp hmeets
        · rw [← hids, ← hlat]
          exact (Except.ok.inj h).symm
      · cases h
    · rintro ⟨m, hm, hmeets, rfl⟩
      obtain ⟨caps, hcaps, rfl⟩ := Option.map_eq_some_iff.mp hm
      refine ⟨⟨pathToAgentIds g path, caps, pathTransfers g path⟩,
        gather_eq_ok.mpr ⟨rfl, hcaps, rfl⟩, ?_⟩
      rw [if_pos (satisfiesConstraints_iff.mpr hmeets)]

theorem pipelineFromIds_eq_ok {agentIds : List AgentId} {r : Route F} :
    pipelineFromIds g t qos ttl agentIds stamp = .ok r ↔ ∃ path,
      agentIds.mapM g.indexOf = some path ∧ pipeline g t qos ttl path stamp = .ok r := by
  rw [pipelineFromIds, bind_eq_ok]
  simp only [mapM_okOr_eq_ok]

omit [F64 F] in
/-- The agents along the path of a list are those of the list. -/
theorem pathToAgentIds_mapM : ∀ {agentIds : List AgentId} {path : List ℕ},
    agentIds.mapM g.indexOf = some path → pathToAgentIds g path = agentIds
  | [], path, h => by
    obtain rfl : [] = path := by simpa using h
    rfl
  | id :: agentIds, path, h => by
    rw [List.mapM_cons] at h
    obtain ⟨i, hi, h⟩ := Option.bind_eq_some_iff.mp h
    obtain ⟨rest, hrest, h⟩ := Option.bind_eq_some_iff.mp h
    obtain rfl := Option.some.inj h
    obtain ⟨n, hn, rfl⟩ := AgentGraph.indexOf_eq_some.mp hi
    simp only [pathToAgentIds, List.filterMap_cons, AgentGraph.agentId, hn, Option.map_some]
    exact congrArg _ (pathToAgentIds_mapM hrest)

/-- An agent of a path with metrics serves the request if it is available and trusted. -/
theorem serves_of_metrics {path : List ℕ} {m : RouteMetrics F}
    (h : computePathMetrics g path t = some m) {i : ℕ} (hi : i ∈ path) {n : AgentNode F}
    (hn : g.node i = some n) (hfit : n.available = true ∧ n.trustScore ≥ qos.minTrust) :
    AgentGraph.Serves n t qos.minTrust := by
  obtain ⟨-, caps, hcaps, -⟩ := computePathMetrics_eq_some h
  have hcap := List.mem_map_of_mem hi (f := fun i => (g.node i).bind (·.capabilityFor t))
  rw [hcaps] at hcap
  obtain ⟨cap, -, hcap⟩ := List.mem_map.mp hcap
  rw [hn, Option.bind_some] at hcap
  exact ⟨hfit.1, hfit.2, by rw [← hcap]; rfl⟩

/-- Pipelines through listed agents are admitted exactly when the checks that are made leave only
    agents that are available and trusted. -/
theorem pipeline_admitted_iff (ttl : Duration) (stamp : Stamp) (agentIds : List AgentId) :
    (∀ r, (pipelineFromIds g t qos ttl agentIds stamp = .ok r ∨ ∃ path,
        agentIds.mapM g.indexOf = some path ∧ pipeline g t qos ttl path stamp = .ok r) →
          r.Admitted g t qos) ↔
      (PassesChecks g t qos agentIds → ∀ id ∈ agentIds, ∀ n, g.nodeById id = some n →
        n.available = true ∧ n.trustScore ≥ qos.minTrust) := by
  constructor
  -- a list that passes the checks becomes a route, which is admitted, so its agents serve
  · rintro hadmitted ⟨path, m, hpath, hm, hmeets⟩ id hid n hn
    have hroute : pipeline g t qos ttl path stamp =
        .ok (makeRoute .pipeline (pathToAgentIds g path) m ttl stamp) :=
      pipeline_eq_ok.mpr ⟨m, hm, hmeets, rfl⟩
    have hlisted : id ∈ pathToAgentIds g path := by
      rw [pathToAgentIds_mapM hpath]
      exact hid
    obtain ⟨n', hn', hserves⟩ :=
      (hadmitted _ (Or.inr ⟨path, hpath, hroute⟩)).serves id hlisted
    obtain rfl := Option.some.inj (hn.symm.trans hn')
    exact ⟨hserves.available, hserves.trusted⟩
  -- a route has passed the checks, which leave availability and trust to be asked for
  · intro hfit r hr
    rw [pipelineFromIds_eq_ok, or_self] at hr
    obtain ⟨path, hpath, hr⟩ := hr
    obtain ⟨m, hm, hmeets, rfl⟩ := pipeline_eq_ok.mp hr
    refine ⟨fun id hid => ?_, hmeets⟩
    obtain ⟨i, hi, hid⟩ := List.mem_filterMap.mp hid
    obtain ⟨n, hn, rfl⟩ := Option.map_eq_some_iff.mp hid
    have hnode := AgentGraph.nodeById_of_node hn
    have hlisted : n.id ∈ agentIds := by
      rw [← pathToAgentIds_mapM hpath]
      exact List.mem_filterMap.mpr ⟨i, hi, hid⟩
    exact ⟨n, hnode, serves_of_metrics hm hi hn
      (hfit ⟨path, m, hpath, hm, hmeets⟩ _ hlisted n hnode)⟩

end Listed

/-- An agent that was disabled, and is not trusted enough either, still gets its pipeline. -/
theorem disabled_agent_gets_pipeline :
    let g := (EconomicRouter.sample [(1 / 5, EconomicRouter.analyst)]).graph.setUnavailable ⟨0⟩
    let qos : QoSConstraints ℚ := ⟨1 / 2, Duration.secs 10, 5, 1 / 2⟩
    ¬ ∀ r, pipelineFromIds g .analysis qos (Duration.secs 120) [⟨0⟩] ⟨0, 0⟩ = .ok r →
      r.Admitted g .analysis qos := by
  intro g qos h
  have hroute : pipelineFromIds g .analysis qos (Duration.secs 120) [⟨0⟩] ⟨0, 0⟩ =
      .ok ⟨0, .pipeline, [⟨0⟩], ⟨7 / 10, Duration.millis 100, 3 / 10⟩, 0, Duration.secs 120⟩ := by
    decide +kernel
  obtain ⟨n, hn, hserves⟩ := (h _ hroute).serves ⟨0⟩ List.mem_cons_self
  have hdisabled : (g.nodeById ⟨0⟩).any (·.available) = false := by decide +kernel
  rw [hn, Option.any_some, hserves.available] at hdisabled
  cases hdisabled

end ATP
