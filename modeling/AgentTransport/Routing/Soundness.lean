import AgentTransport.Routing.Router

/-! Soundness of the router: every route it returns is a non-empty list of different agents that may
    serve the request, its metrics meet the constraints, and a pipeline's metrics are exactly those
    of its agents in order. One lemma for each way a route comes about, then the two entry points:

        draft_refine, parallel_merge, cascade, ensemble ─┐
        cheapest single agent                           ─┼──▶ find_route, find_routes
        Bellman-Ford: front, then all candidates        ─┘

    No law of the arithmetic is used: the statements hold for rounded numbers, NaN included. -/

namespace ATP
open F64 Collections
variable {F : Type} [F64 F]

/-- The capability for the task type an agent advertises in the graph. -/
def capabilityOf (g : AgentGraph F) (t : TaskType) (id : AgentId) : Option (Capability F) :=
  (g.nodeById id).bind (·.capabilityFor t)

/-- Transfer latency between two agents, 5 ms where the graph has no edge. -/
def transferBetween (g : AgentGraph F) (a b : AgentId) : Duration :=
  ((g.indexOf a).bind fun i => (g.indexOf b).bind (g.transferLatency i)).getD (Duration.millis 5)

/-- Transfer latencies along a list of agents. -/
def transfersAlong (g : AgentGraph F) : List AgentId → List Duration
  | a :: b :: rest => transferBetween g a b :: transfersAlong g (b :: rest)
  | _ => []

/-- The metrics of a sequential chain: the product of the clamped qualities, the sum of the agent
    and transfer latencies, the sum of the costs. -/
def PipelineMetrics (g : AgentGraph F) (t : TaskType) (agents : List AgentId)
    (m : RouteMetrics F) : Prop :=
  ∃ caps : List (Capability F), agents.map (capabilityOf g t) = caps.map some ∧
    m.quality = product (caps.map fun c => clamp c.estimatedQuality 0 1) ∧
    m.latency = (caps.map (·.estimatedLatency)).sum + (transfersAlong g agents).sum ∧
    m.cost = sum (caps.map (·.costPerTask))

/-- A route the router may return. -/
structure Route.Admissible (r : Route F) (g : AgentGraph F) (t : TaskType)
    (qos : QoSConstraints F) : Prop where
  nonempty : r.agents ≠ []
  nodup : r.agents.Nodup
  serves : ∀ id ∈ r.agents, ∃ n, g.nodeById id = some n ∧ AgentGraph.Serves n t qos.minTrust
  meets : r.metrics.Meets qos
  pipeline : r.pattern = .pipeline → PipelineMetrics g t r.agents r.metrics

/-! ### Routes of the patterns -/

section Patterns
variable {g : AgentGraph F} {t : TaskType} {qos : QoSConstraints F} {ttl : Duration}
  {stamp : Stamp} {r : Route F}

/-- What a pattern checks before it returns is enough, if it selected different agents. -/
theorem checkedRoute_admissible {pattern : RoutingPattern} {selection : Option (Selection F)}
    (hp : pattern ≠ .pipeline)
    (hsound : ∀ s, selection = some s → s.Sound (extractAgents g t qos.minTrust))
    (h : checkedRoute pattern selection qos ttl stamp = .ok r) : r.Admissible g t qos := by
  obtain ⟨s, hs, hm, rfl⟩ := checkedRoute_eq_ok.mp h
  have hsel := hsound s hs
  refine ⟨?_, hsel.nodup, ?_, hm, fun h => absurd h hp⟩
  · simpa [makeRoute] using hsel.nonempty
  · intro id hid
    obtain ⟨a, ha, rfl⟩ := List.mem_map.mp hid
    exact serves_of_mem_extractAgents (hsel.mem a ha)

theorem draftRefine_admissible (h : draftRefine g t qos ttl stamp = .ok r) :
    r.Admissible g t qos :=
  checkedRoute_admissible (by simp) (fun _ => draftRefineSelection_sound) h

theorem parallelMerge_admissible {n : ℕ} (h : parallelMerge g t qos ttl n stamp = .ok r) :
    r.Admissible g t qos :=
  checkedRoute_admissible (by simp) (fun _ => redundantSelection_sound
    (nodup_ids_extractAgents g t qos.minTrust) (sortDesc_perm _ _)) h

theorem ensemble_admissible {n : ℕ} (h : ensemble g t qos ttl n stamp = .ok r) :
    r.Admissible g t qos :=
  checkedRoute_admissible (by simp) (fun _ => redundantSelection_sound
    (nodup_ids_extractAgents g t qos.minTrust)
    ((List.perm_insertionSort _ _).trans (sortDesc_perm _ _))) h

theorem cascade_admissible {c : F} (h : cascade g t qos ttl c stamp = .ok r) :
    r.Admissible g t qos :=
  checkedRoute_admissible (by simp) (fun _ => cascadeSelection_sound
    (nodup_ids_extractAgents g t qos.minTrust)) h

/-- The metrics of one agent are those of a chain of one. -/
theorem pipelineMetrics_solo {a : AgentInfo F} {minTrust : F}
    (h : a ∈ extractAgents g t minTrust) : PipelineMetrics g t [a.id] (soloMetrics a) := by
  obtain ⟨n, hn, hid, hcap⟩ := node_of_mem_extractAgents h
  refine ⟨[a.capability], ?_, rfl, by simp [soloMetrics, CostModel.computeRouteMetrics,
    transfersAlong], rfl⟩
  rw [← hid]
  simp [capabilityOf, AgentGraph.nodeById_of_node hn, hcap]

theorem cheapestSingle_eq_ok {agents : List (AgentInfo F)}
    (h : cheapestSingle agents qos ttl stamp = .ok r) : ∃ a ∈ agents, (soloMetrics a).Meets qos ∧
      r = makeRoute .pipeline [a.id] (soloMetrics a) ttl stamp := by
  unfold cheapestSingle at h
  split at h
  · rename_i a hfind
    have hsat : CostModel.satisfiesConstraints (soloMetrics a) qos = true := by
      simpa using List.find?_some hfind
    exact ⟨a, mem_sortAsc.mp (List.mem_of_find?_eq_some hfind),
      satisfiesConstraints_iff.mp hsat, (Except.ok.inj h).symm⟩
  · simp at h

theorem cheapestSingle_admissible
    (h : cheapestSingle (extractAgents g t qos.minTrust) qos ttl stamp = .ok r) :
    r.Admissible g t qos := by
  obtain ⟨a, ha, hm, rfl⟩ := cheapestSingle_eq_ok h
  refine ⟨by simp [makeRoute], by simp [makeRoute], ?_, hm, fun _ => pipelineMetrics_solo ha⟩
  intro id hid
  obtain rfl := List.mem_singleton.mp hid
  exact serves_of_mem_extractAgents ha

theorem autoSelectPattern_admissible (h : autoSelectPattern g t qos ttl stamp = .ok r) :
    r.Admissible g t qos := by
  rcases autoSelectPattern_cases h with ⟨_, h⟩ | ⟨_, h⟩ | ⟨_, h⟩ | ⟨_, h⟩ | h
  · exact cascade_admissible h
  · exact draftRefine_admissible h
  · exact ensemble_admissible h
  · exact parallelMerge_admissible h
  · exact cheapestSingle_admissible h

end Patterns

/-! ### Routes of the exploration -/

section Paths
variable {g : AgentGraph F} {t : TaskType}

omit [F64 F] in
theorem indexOf_of_node {i : ℕ} {n : AgentNode F} (h : g.node i = some n) :
    g.indexOf n.id = some i := AgentGraph.indexOf_eq_some.mpr ⟨n, h, rfl⟩

omit [F64 F] in
theorem transferBetween_of_nodes {i j : ℕ} {n m : AgentNode F} (hi : g.node i = some n)
    (hj : g.node j = some m) : transferBetween g n.id m.id =
      (g.transferLatency i j).getD CostModel.defaultTransferLatency := by
  simp [transferBetween, indexOf_of_node hi, indexOf_of_node hj, CostModel.defaultTransferLatency]

omit [F64 F] in
/-- Capabilities along a path of indices are those of its agents. -/
theorem capabilities_agents : ∀ {path : List ℕ}, (∀ i ∈ path, ∃ n, g.node i = some n) →
    (pathToAgentIds g path).map (capabilityOf g t) =
      path.map fun i => (g.node i).bind (·.capabilityFor t)
  | [], _ => rfl
  | i :: path, h => by
    obtain ⟨n, hn⟩ := h i List.mem_cons_self
    have hid : g.agentId i = some n.id := by rw [AgentGraph.agentId, hn]; rfl
    have ih := capabilities_agents (fun j hj => h j (List.mem_cons_of_mem _ hj))
    rw [pathToAgentIds, List.filterMap_cons_some hid, List.map_cons, List.map_cons, hn,
      capabilityOf, AgentGraph.nodeById_of_node hn]
    exact congrArg _ ih

omit [F64 F] in
/-- Transfers along a path of indices are those between its agents. -/
theorem pathTransfers_agents : ∀ {path : List ℕ}, (∀ i ∈ path, ∃ n, g.node i = some n) →
    pathTransfers g path = transfersAlong g (pathToAgentIds g path)
  | [], _ => rfl
  | [i], h => by
    obtain ⟨n, hn⟩ := h i List.mem_cons_self
    simp [pathTransfers, pathToAgentIds, AgentGraph.agentId, hn, transfersAlong]
  | i :: j :: path, h => by
    obtain ⟨n, hn⟩ := h i List.mem_cons_self
    obtain ⟨m, hm⟩ := h j (by simp)
    have hi : g.agentId i = some n.id := by rw [AgentGraph.agentId, hn]; rfl
    have hj : g.agentId j = some m.id := by rw [AgentGraph.agentId, hm]; rfl
    have ih : pathTransfers g (j :: path) = transfersAlong g (pathToAgentIds g (j :: path)) :=
      pathTransfers_agents (fun k hk => h k (List.mem_cons_of_mem _ hk))
    rw [pathToAgentIds, List.filterMap_cons_some hj] at ih
    rw [pathToAgentIds, List.filterMap_cons_some hi, List.filterMap_cons_some hj, transfersAlong,
      pathTransfers, ih, transferBetween_of_nodes hn hm]

/-- The metrics computed for a path of indices are those of its agents. -/
theorem computePathMetrics_pipeline {path : List ℕ} {m : RouteMetrics F}
    (h : computePathMetrics g path t = some m) :
    PipelineMetrics g t (pathToAgentIds g path) m := by
  obtain ⟨hne, caps, hcaps, rfl⟩ := computePathMetrics_eq_some h
  have hnodes : ∀ i ∈ path, ∃ n, g.node i = some n := by
    intro i hi
    have hmem := List.mem_map_of_mem (f := fun i => (g.node i).bind (·.capabilityFor t)) hi
    rw [hcaps] at hmem
    obtain ⟨cap, _, hcap⟩ := List.mem_map.mp hmem
    obtain ⟨n, hn, _⟩ := Option.bind_eq_some_iff.mp hcap.symm
    exact ⟨n, hn⟩
  have hcne : ¬ caps.isEmpty = true := by
    intro hnil
    rw [List.isEmpty_iff.mp hnil] at hcaps
    exact hne (List.map_eq_nil_iff.mp hcaps)
  refine ⟨caps, by rw [capabilities_agents hnodes, hcaps], ?_⟩
  rw [CostModel.computeRouteMetrics, if_neg hcne, pathTransfers_agents hnodes]
  exact ⟨rfl, rfl, rfl⟩

end Paths

namespace EconomicRouter
variable {router : EconomicRouter F} {t : TaskType} {qos : QoSConstraints F}
  {hs : RandomState (BellmanFordResult F)}

/-- A successful exploration selects from sound candidates, every capable agent alone among
    them. -/
theorem explore_eq_ok {n : ℕ} {top : List (ParetoRoute F)}
    (h : router.explore hs t qos n = .ok top) : ∃ results,
      (∀ r ∈ results, r.Sound router.graph t qos.minTrust) ∧
      (∀ i ∈ router.graph.capableAgents t qos.minTrust, ∃ r ∈ results, r.path = [i]) ∧
      selectTopRoutes hs results qos (CostModel.weightsFromConstraints qos) router.costModel n =
        .ok top := by
  rcases multiObjective_spec router.graph t qos.minTrust router.costModel with
    ⟨_, herr⟩ | ⟨results, hok, _, hsound, hsolo⟩
  · rw [explore, herr] at h
    simp [Bind.bind, Except.bind] at h
  · rw [explore, hok] at h
    exact ⟨results, hsound, hsolo, h⟩

/-- A route of the exploration comes from a sound candidate that meets the constraints. -/
theorem of_mem_explore {n : ℕ} {top : List (ParetoRoute F)}
    (h : router.explore hs t qos n = .ok top) {x : ParetoRoute F} (hx : x ∈ top) :
    ∃ c : BellmanFordResult F, c.Sound router.graph t qos.minTrust ∧ x.path = c.path ∧
      x.metrics = c.metrics ∧ c.metrics.Meets qos := by
  obtain ⟨results, hsound, _, hselect⟩ := explore_eq_ok h
  obtain ⟨y, hy, hpath, hmet⟩ := of_mem_selectTopRoutes hselect x hx
  obtain ⟨⟨c, hc, rfl⟩, hm⟩ := of_mem_feasibleRoutes hy
  exact ⟨c, hsound c hc, hpath, hmet, hm⟩

theorem routeOfPath_admissible {stamp : Stamp} {n : ℕ} {top : List (ParetoRoute F)}
    (h : router.explore hs t qos n = .ok top) {x : ParetoRoute F} (hx : x ∈ top) :
    (router.routeOfPath stamp x).Admissible router.graph t qos := by
  obtain ⟨c, hc, hpath, hmet, hm⟩ := of_mem_explore h hx
  have hserves : ∀ i ∈ c.path, ∃ m, router.graph.node i = some m ∧
      AgentGraph.Serves m t qos.minTrust :=
    fun i hi => AgentGraph.mem_capableAgents.mp (hc.capable i hi)
  refine ⟨?_, ?_, ?_, ?_, fun _ => ?_⟩
  · obtain ⟨i, hi⟩ := List.exists_mem_of_ne_nil _ hc.nonempty
    obtain ⟨m, hm, _⟩ := hserves i hi
    refine List.ne_nil_of_mem (a := m.id) (List.mem_filterMap.mpr ⟨i, by rw [hpath]; exact hi, ?_⟩)
    rw [AgentGraph.agentId, hm]
    rfl
  · refine AgentGraph.nodup_filterMap_agentId _ ?_
    rw [hpath]
    exact hc.nodup
  · intro id hid
    obtain ⟨i, hi, hid⟩ := List.mem_filterMap.mp hid
    obtain ⟨m, hm, hs⟩ := hserves i (by rw [← hpath]; exact hi)
    rw [AgentGraph.agentId, hm] at hid
    obtain rfl := Option.some.inj hid
    exact ⟨m, AgentGraph.nodeById_of_node hm, hs⟩
  · rw [routeOfPath, makeRoute, hmet]
    exact hm
  · rw [routeOfPath, makeRoute, hmet, hpath]
    exact computePathMetrics_pipeline hc.metrics

theorem bestPipeline_eq_ok {stamp : Stamp} {route : Route F}
    (h : router.bestPipeline hs t qos stamp = .ok route) : ∃ top x,
      router.explore hs t qos 1 = .ok top ∧ x ∈ top ∧ route = router.routeOfPath stamp x := by
  unfold bestPipeline at h
  cases he : router.explore hs t qos 1 with
  | error e => rw [he] at h; simp [Bind.bind, Except.bind] at h
  | ok top =>
    rw [he] at h
    cases top with
    | nil => simp [Bind.bind, Except.bind] at h
    | cons x top => exact ⟨_, x, rfl, List.mem_cons_self, (Except.ok.inj h).symm⟩

/-- A route carries the pattern it was built by. -/
theorem tryPattern_pattern {pattern : RoutingPattern} {stamp : Stamp} {route : Route F}
    (h : router.tryPattern hs pattern t qos stamp = .ok route) : route.pattern = pattern := by
  cases pattern with
  | draftRefine => exact checkedRoute_pattern h
  | parallelMerge => exact checkedRoute_pattern h
  | cascade => exact checkedRoute_pattern h
  | ensemble => exact checkedRoute_pattern h
  | pipeline =>
    obtain ⟨top, x, -, -, rfl⟩ := bestPipeline_eq_ok h
    rfl

theorem tryPattern_admissible {pattern : RoutingPattern} {stamp : Stamp} {route : Route F}
    (h : router.tryPattern hs pattern t qos stamp = .ok route) :
    route.Admissible router.graph t qos := by
  cases pattern with
  | draftRefine => exact draftRefine_admissible h
  | parallelMerge => exact parallelMerge_admissible h
  | cascade => exact cascade_admissible h
  | ensemble => exact ensemble_admissible h
  | pipeline =>
    obtain ⟨top, x, he, hx, rfl⟩ := bestPipeline_eq_ok h
    exact routeOfPath_admissible he hx

/-- The three ways `find_route` comes to its route. -/
theorem findRoute_cases {hsPattern hsFallback : RandomState (BellmanFordResult F)}
    {preferred : Option RoutingPattern} {stamp : Stamp} {route : Route F}
    (h : router.findRoute hsPattern hsFallback t qos preferred stamp = .ok route) :
    (∃ pattern, preferred = some pattern ∧
      router.tryPattern hsPattern pattern t qos stamp = .ok route) ∨
    autoSelectPattern router.graph t qos router.config.routeTtl stamp = .ok route ∨
    router.bestPipeline hsFallback t qos stamp = .ok route := by
  unfold findRoute at h
  cases hv : router.graph.validate with
  | error e => rw [hv] at h; simp [Bind.bind, Except.bind] at h
  | ok u =>
    rw [hv] at h
    rcases attempt_eq_ok h with ⟨_, h⟩ | h
    · left
      cases preferred with
      | none => simp [tryPreferred] at h
      | some pattern => exact ⟨pattern, rfl, h⟩
    · right
      exact (attempt_eq_ok h).imp_left And.right

/-- What `find_routes` lists: all routes collected, sorted, without repeated lists of agents. -/
theorem findRoutes_eq_ok {stamps : ℕ → Stamp} {routes : List (Route F)}
    (h : router.findRoutes hs t qos stamps = .ok routes) : ∃ sorted : List (Route F),
      sorted ≠ [] ∧ sorted.Perm (router.collectPatternRoutes hs t qos stamps ++
        router.pipelineRoutes hs t qos stamps) ∧
      routes = (retainNew (·.agents) [] sorted).take router.config.maxRoutes := by
  simp only [findRoutes] at h
  cases hv : router.graph.validate with
  | error e => rw [hv] at h; simp [Bind.bind, Except.bind] at h
  | ok u =>
    rw [hv] at h
    simp only [Bind.bind, Except.bind] at h
    split at h
    · simp at h
    · rename_i hall
      have hperm := sortAsc_perm (fun route : Route F => router.costModel.scalarRouteCost
        route.metrics (CostModel.weightsFromConstraints qos))
          (router.collectPatternRoutes hs t qos stamps ++ router.pipelineRoutes hs t qos stamps)
      refine ⟨_, ?_, hperm, (Except.ok.inj h).symm⟩
      intro hnil
      rw [hnil] at hperm
      exact hall (List.isEmpty_iff.mpr hperm.nil_eq.symm)

/-- Every route listed by `find_routes` is one of a pattern or one of the exploration. -/
theorem findRoutes_cases {stamps : ℕ → Stamp} {routes : List (Route F)}
    (h : router.findRoutes hs t qos stamps = .ok routes) {route : Route F} (hr : route ∈ routes) :
    (∃ pattern ∈ collectedPatterns, ∃ i,
      router.tryPattern hs pattern t qos (stamps i) = .ok route) ∨
    ∃ top x i, router.explore hs t qos router.config.maxRoutes = .ok top ∧ x ∈ top ∧
      route = router.routeOfPath (stamps i) x := by
  obtain ⟨sorted, -, hperm, rfl⟩ := findRoutes_eq_ok h
  have hmem := hperm.mem_iff.mp (mem_of_mem_retainNew _ (List.mem_of_mem_take hr))
  rcases List.mem_append.mp hmem with hmem | hmem
  · left
    obtain ⟨⟨pattern, i⟩, hp, hok⟩ := List.mem_filterMap.mp hmem
    refine ⟨pattern, List.mem_of_getElem? (List.mem_zipIdx_iff_getElem?.mp hp), i, ?_⟩
    cases htry : router.tryPattern hs pattern t qos (stamps i) with
    | error e => simp [htry, Except.toOption] at hok
    | ok r => simp only [htry, Except.toOption, Option.some.injEq] at hok; rw [hok]
  · right
    unfold pipelineRoutes at hmem
    split at hmem
    · rename_i top he
      obtain ⟨⟨x, i⟩, hx, rfl⟩ := List.mem_map.mp hmem
      exact ⟨top, x, _, he, List.mem_of_getElem? (List.mem_zipIdx_iff_getElem?.mp hx), rfl⟩
    · simp at hmem

theorem findRoute_admissible {hsPattern hsFallback : RandomState (BellmanFordResult F)}
    {preferred : Option RoutingPattern} {stamp : Stamp} {route : Route F}
    (h : router.findRoute hsPattern hsFallback t qos preferred stamp = .ok route) :
    route.Admissible router.graph t qos := by
  rcases findRoute_cases h with ⟨pattern, _, h⟩ | h | h
  · exact tryPattern_admissible h
  · exact autoSelectPattern_admissible h
  · obtain ⟨top, x, he, hx, rfl⟩ := bestPipeline_eq_ok h
    exact routeOfPath_admissible he hx

theorem findRoutes_admissible {stamps : ℕ → Stamp} {routes : List (Route F)}
    (h : router.findRoutes hs t qos stamps = .ok routes) {route : Route F} (hr : route ∈ routes) :
    route.Admissible router.graph t qos := by
  rcases findRoutes_cases h hr with ⟨pattern, _, i, h⟩ | ⟨top, x, i, he, hx, rfl⟩
  · exact tryPattern_admissible h
  · exact routeOfPath_admissible he hx

/-- Router soundness: whatever the graph, the cost model, the request and the preferred pattern,
    every route `find_route` or `find_routes` returns is admissible. -/
theorem routes_admissible (router : EconomicRouter F) (t : TaskType) (qos : QoSConstraints F) :
    (∀ hsPattern hsFallback preferred stamp route,
      router.findRoute hsPattern hsFallback t qos preferred stamp = .ok route →
        route.Admissible router.graph t qos) ∧
    (∀ hs stamps routes, router.findRoutes hs t qos stamps = .ok routes →
      ∀ route ∈ routes, route.Admissible router.graph t qos) :=
  ⟨fun _ _ _ _ _ h => findRoute_admissible h, fun _ _ _ h _ hr => findRoutes_admissible h hr⟩

theorem exists_ok {ε α : Type} {e : Except ε α} (h : e.toOption.isSome = true) :
    ∃ a, e = .ok a := by
  cases e with
  | ok a => exact ⟨a, rfl⟩
  | error e => simp [Except.toOption] at h

theorem routes_admissible_twins :
    let qos : QoSConstraints ℚ := ⟨1 / 2, Duration.secs 10, 5, 1 / 2⟩
    (∃ route, twins.findRoute (.insertion _) (.insertion _) .analysis qos none ⟨0, 0⟩ = .ok route ∧
      route.Admissible twins.graph .analysis qos) ∧
    ∃ routes, twins.findRoutes (.insertion _) .analysis qos (fun i => ⟨i, 0⟩) = .ok routes ∧
      ∀ route ∈ routes, route.Admissible twins.graph .analysis qos := by
  intro qos
  have hone := exists_ok (e := twins.findRoute (.insertion _) (.insertion _) .analysis qos none
    ⟨0, 0⟩) (by decide +kernel)
  have hmany := exists_ok (e := twins.findRoutes (.insertion _) .analysis qos (fun i => ⟨i, 0⟩))
    (by decide +kernel)
  obtain ⟨route, hroute⟩ := hone
  obtain ⟨routes, hroutes⟩ := hmany
  have hsound := routes_admissible twins .analysis qos
  exact ⟨⟨route, hroute, hsound.1 _ _ _ _ _ hroute⟩, routes, hroutes, hsound.2 _ _ _ hroutes⟩

end EconomicRouter

end ATP
