import AgentTransport.Routing.Soundness

/-! Which requests the router can serve. Both entry points succeed exactly when some pattern does;
    they differ in which patterns they try:

        find_routes      every pattern
        find_route       cascade and draft-refine when the budget is tight, the ensemble when
                         quality is paramount, parallel-merge when latency is tight, and always
                         the exploration

    What serves a request serves every weaker one with the same candidates. -/

namespace ATP
open F64 Collections
variable {F : Type} [F64 F]

/-- What a pattern other than the pipeline selects from the capable agents. -/
def patternSelection (g : AgentGraph F) (agents : List (AgentInfo F)) :
    RoutingPattern → Option (Selection F)
  | .draftRefine => draftRefineSelection g agents
  | .parallelMerge => parallelMergeSelection agents 3
  | .cascade => cascadeSelection g agents (lit (7 / 10))
  | .ensemble => ensembleSelection agents 3
  | .pipeline => none

/-- The patterns an automatic selection tries. -/
def autoTries (agents : List (AgentInfo F)) (qos : QoSConstraints F) : RoutingPattern → Bool
  | .draftRefine => budgetGate agents qos
  | .parallelMerge => latencyGate agents qos
  | .cascade => budgetGate agents qos
  | .ensemble => qualityGate agents qos
  | .pipeline => true

theorem two_le_of_autoTries {agents : List (AgentInfo F)} {qos : QoSConstraints F}
    {pattern : RoutingPattern} (h : autoTries agents qos pattern = true)
    (hp : pattern ≠ .pipeline) : 2 ≤ agents.length := by
  cases pattern with
  | pipeline => exact absurd rfl hp
  | _ =>
    simp only [autoTries, budgetGate, latencyGate, qualityGate, Bool.and_eq_true,
      decide_eq_true_eq] at h
    exact h.2

namespace EconomicRouter
variable {router : EconomicRouter F} {t : TaskType} {qos : QoSConstraints F}

/-- A pattern can serve a request: its selection, or some path explored, meets the constraints. -/
def Feasible (router : EconomicRouter F) (t : TaskType) (qos : QoSConstraints F) :
    RoutingPattern → Prop
  | .pipeline => ∃ results, multiObjectiveBellmanFord router.graph t qos.minTrust router.costModel =
      .ok results ∧ ∃ c ∈ results, c.metrics.Meets qos
  | pattern => ∃ s, patternSelection router.graph (extractAgents router.graph t qos.minTrust)
      pattern = some s ∧ s.metrics.Meets qos

theorem explore_ne_nil {hs : RandomState (BellmanFordResult F)} {n : ℕ}
    {top : List (ParetoRoute F)} (hn : 1 ≤ n) (h : router.explore hs t qos n = .ok top) :
    top ≠ [] := by
  obtain ⟨results, _, _, hselect⟩ := explore_eq_ok h
  exact selectTopRoutes_ne_nil hn hselect

theorem findRoutes_ne_nil {hs : RandomState (BellmanFordResult F)} {stamps : ℕ → Stamp}
    {routes : List (Route F)} (hmax : 1 ≤ router.config.maxRoutes)
    (h : router.findRoutes hs t qos stamps = .ok routes) : routes ≠ [] := by
  obtain ⟨sorted, hne, -, rfl⟩ := findRoutes_eq_ok h
  simp only [ne_eq, List.take_eq_nil_iff, not_or]
  exact ⟨by omega, retainNew_ne_nil _ hne⟩

section Order
variable [OrderedF64 F]

theorem explore_ok_iff {hs : RandomState (BellmanFordResult F)} {n : ℕ} :
    (∃ top, router.explore hs t qos n = .ok top) ↔ router.Feasible t qos .pipeline := by
  rcases multiObjective_spec router.graph t qos.minTrust router.costModel with
    ⟨_, herr⟩ | ⟨results, hok, _⟩
  · simp [explore, Feasible, herr, Bind.bind, Except.bind]
  · simp only [explore, Feasible, hok, Bind.bind, Except.bind, Except.ok.injEq, exists_eq_left']
    exact selectTopRoutes_ok_iff

theorem bestPipeline_ok_iff {hs : RandomState (BellmanFordResult F)} {stamp : Stamp} :
    (∃ route, router.bestPipeline hs t qos stamp = .ok route) ↔
      router.Feasible t qos .pipeline := by
  constructor
  · rintro ⟨route, h⟩
    obtain ⟨top, _, he, _⟩ := bestPipeline_eq_ok h
    exact explore_ok_iff.mp ⟨top, he⟩
  · intro h
    obtain ⟨top, he⟩ := (explore_ok_iff : (∃ top, router.explore hs t qos 1 = .ok top) ↔ _).mpr h
    obtain ⟨best, rest, rfl⟩ := List.exists_cons_of_ne_nil (explore_ne_nil (by omega) he)
    exact ⟨router.routeOfPath stamp best, by rw [bestPipeline, he]; rfl⟩

/-- A pattern returns a route exactly when it can serve the request. -/
theorem tryPattern_ok_iff {hs : RandomState (BellmanFordResult F)} {pattern : RoutingPattern}
    {stamp : Stamp} : (∃ route, router.tryPattern hs pattern t qos stamp = .ok route) ↔
      router.Feasible t qos pattern := by
  cases pattern with
  | pipeline => exact bestPipeline_ok_iff
  | draftRefine => exact checkedRoute_ok_iff
  | parallelMerge => exact checkedRoute_ok_iff
  | cascade => exact checkedRoute_ok_iff
  | ensemble => exact checkedRoute_ok_iff

omit [OrderedF64 F] in
/-- A graph with a route has a node. -/
theorem validate_of_admissible {route : Route F} (h : route.Admissible router.graph t qos) :
    router.graph.validate = .ok () := by
  obtain ⟨id, hid⟩ := List.exists_mem_of_ne_nil _ h.nonempty
  obtain ⟨n, hn, -⟩ := h.serves id hid
  obtain ⟨i, -, hi⟩ := Option.bind_eq_some_iff.mp hn
  have hne : router.graph.nodes ≠ [] := List.ne_nil_of_mem (List.mem_of_getElem? hi)
  simp [AgentGraph.validate, hne]

/-- A graph that can serve a request has a node. -/
theorem validate_of_feasible {pattern : RoutingPattern} (h : router.Feasible t qos pattern) :
    router.graph.validate = .ok () := by
  obtain ⟨route, hroute⟩ := (tryPattern_ok_iff :
    (∃ route, router.tryPattern (.insertion _) pattern t qos ⟨0, 0⟩ = .ok route) ↔ _).mpr h
  exact validate_of_admissible (tryPattern_admissible hroute)

omit [OrderedF64 F] in
/-- Every capable agent by itself is a path of the exploration, which has sound paths only. -/
theorem exists_solo_result {a : AgentInfo F}
    (ha : a ∈ extractAgents router.graph t qos.minTrust) : ∃ results,
      multiObjectiveBellmanFord router.graph t qos.minTrust router.costModel = .ok results ∧
        (∀ r ∈ results, r.Sound router.graph t qos.minTrust) ∧
        ∃ c ∈ results, c.metrics = soloMetrics a := by
  have hcap := (mem_extractAgents.mp ha).1
  rcases multiObjective_spec router.graph t qos.minTrust router.costModel with
    ⟨hnil, _⟩ | ⟨results, hok, _, hsound, hsolo⟩
  · rw [hnil] at hcap
    simp at hcap
  · obtain ⟨c, hc, hpath⟩ := hsolo a.index hcap
    obtain ⟨n, hn, _, hncap⟩ := node_of_mem_extractAgents ha
    have hsingle : (router.graph.node a.index).bind (·.capabilityFor t) = some a.capability := by
      rw [hn]; exact hncap
    have hmet := (hsound c hc).metrics
    rw [hpath, computePathMetrics_single hsingle] at hmet
    exact ⟨results, hok, hsound, c, hc, (Option.some.inj hmet).symm⟩

omit [OrderedF64 F] in
/-- An agent that meets the constraints by itself makes the exploration succeed. -/
theorem feasible_of_solo {a : AgentInfo F}
    (ha : a ∈ extractAgents router.graph t qos.minTrust) (hm : (soloMetrics a).Meets qos) :
    router.Feasible t qos .pipeline := by
  obtain ⟨results, hok, -, c, hc, hmet⟩ := exists_solo_result ha
  exact ⟨results, hok, c, hc, hmet ▸ hm⟩

/-- A route comes from a pattern that was tried and can serve the request. -/
theorem findRoute_pattern {hsPattern hsFallback : RandomState (BellmanFordResult F)}
    {stamp : Stamp} {route : Route F}
    (h : router.findRoute hsPattern hsFallback t qos none stamp = .ok route) :
    autoTries (extractAgents router.graph t qos.minTrust) qos route.pattern = true ∧
      router.Feasible t qos route.pattern := by
  rcases findRoute_cases h with ⟨pattern, hp, _⟩ | h | h
  · simp at hp
  · rcases autoSelectPattern_cases h with ⟨hg, h⟩ | ⟨hg, h⟩ | ⟨hg, h⟩ | ⟨hg, h⟩ | h
    · obtain ⟨s, hs, hm, rfl⟩ := checkedRoute_eq_ok.mp h
      exact ⟨hg, s, hs, hm⟩
    · obtain ⟨s, hs, hm, rfl⟩ := checkedRoute_eq_ok.mp h
      exact ⟨hg, s, hs, hm⟩
    · obtain ⟨s, hs, hm, rfl⟩ := checkedRoute_eq_ok.mp h
      exact ⟨hg, s, hs, hm⟩
    · obtain ⟨s, hs, hm, rfl⟩ := checkedRoute_eq_ok.mp h
      exact ⟨hg, s, hs, hm⟩
    · obtain ⟨a, ha, hm, rfl⟩ := cheapestSingle_eq_ok h
      exact ⟨rfl, feasible_of_solo ha hm⟩
  · have hf := bestPipeline_ok_iff.mp ⟨route, h⟩
    obtain ⟨_, _, _, _, rfl⟩ := bestPipeline_eq_ok h
    exact ⟨rfl, hf⟩

omit [OrderedF64 F] in
/-- A pattern that is tried and can serve the request makes the automatic selection succeed. -/
theorem autoSelectPattern_ok {pattern : RoutingPattern} {ttl : Duration} {stamp : Stamp}
    (hp : pattern ≠ .pipeline)
    (hg : autoTries (extractAgents router.graph t qos.minTrust) qos pattern = true)
    (hf : router.Feasible t qos pattern) :
    ∃ route, autoSelectPattern router.graph t qos ttl stamp = .ok route := by
  have hagents : (extractAgents router.graph t qos.minTrust).isEmpty ≠ true := by
    intro hnil
    have hlen := two_le_of_autoTries hg hp
    rw [List.isEmpty_iff.mp hnil] at hlen
    simp at hlen
  simp only [autoSelectPattern, if_neg hagents, attempt_ok_iff]
  cases pattern with
  | pipeline => exact absurd rfl hp
  | cascade => exact Or.inl ⟨hg, checkedRoute_ok_iff.mpr hf⟩
  | draftRefine => exact Or.inr (Or.inl ⟨hg, checkedRoute_ok_iff.mpr hf⟩)
  | ensemble => exact Or.inr (Or.inr (Or.inl ⟨hg, checkedRoute_ok_iff.mpr hf⟩))
  | parallelMerge => exact Or.inr (Or.inr (Or.inr (Or.inl ⟨hg, checkedRoute_ok_iff.mpr hf⟩)))

/-- The automatic selection followed by the exploration serves exactly the requests that a
    pattern it tries can serve. -/
theorem findRoute_ok_iff {hsPattern hsFallback : RandomState (BellmanFordResult F)}
    {stamp : Stamp} :
    (∃ route, router.findRoute hsPattern hsFallback t qos none stamp = .ok route) ↔
      ∃ pattern, autoTries (extractAgents router.graph t qos.minTrust) qos pattern = true ∧
        router.Feasible t qos pattern := by
  constructor
  · rintro ⟨route, h⟩
    exact ⟨route.pattern, findRoute_pattern h⟩
  · rintro ⟨pattern, hg, hf⟩
    rw [findRoute, validate_of_feasible hf]
    simp only [Bind.bind, Except.bind, attempt_ok_iff, true_and]
    right
    rcases eq_or_ne pattern .pipeline with rfl | hp
    · exact Or.inr (bestPipeline_ok_iff.mpr hf)
    · exact Or.inl (autoSelectPattern_ok hp hg hf)

theorem mem_collectPatternRoutes {hs : RandomState (BellmanFordResult F)} {stamps : ℕ → Stamp}
    {pattern : RoutingPattern} (hp : pattern ∈ collectedPatterns)
    (hf : router.Feasible t qos pattern) : router.collectPatternRoutes hs t qos stamps ≠ [] := by
  obtain ⟨i, hi⟩ := List.mem_iff_getElem?.mp hp
  obtain ⟨route, hroute⟩ := (tryPattern_ok_iff :
    (∃ route, router.tryPattern hs pattern t qos (stamps i) = .ok route) ↔ _).mpr hf
  refine List.ne_nil_of_mem (a := route) (List.mem_filterMap.mpr ⟨(pattern, i),
    List.mem_zipIdx_iff_getElem?.mpr hi, ?_⟩)
  simp [hroute, Except.toOption]

/-- Collecting from every pattern serves exactly the requests that some pattern can serve. -/
theorem findRoutes_ok_iff {hs : RandomState (BellmanFordResult F)} {stamps : ℕ → Stamp}
    (hmax : 1 ≤ router.config.maxRoutes) :
    (∃ routes, router.findRoutes hs t qos stamps = .ok routes) ↔
      ∃ pattern, router.Feasible t qos pattern := by
  constructor
  · rintro ⟨routes, h⟩
    obtain ⟨route, hroute⟩ := List.exists_mem_of_ne_nil _ (findRoutes_ne_nil hmax h)
    rcases findRoutes_cases h hroute with ⟨pattern, _, i, h⟩ | ⟨top, _, _, he, _⟩
    · exact ⟨pattern, tryPattern_ok_iff.mp ⟨route, h⟩⟩
    · exact ⟨.pipeline, explore_ok_iff.mp ⟨top, he⟩⟩
  · rintro ⟨pattern, hf⟩
    have hall : router.collectPatternRoutes hs t qos stamps ++
        router.pipelineRoutes hs t qos stamps ≠ [] := by
      rcases eq_or_ne pattern .pipeline with rfl | hp
      · obtain ⟨top, he⟩ := (explore_ok_iff :
          (∃ top, router.explore hs t qos router.config.maxRoutes = .ok top) ↔ _).mpr hf
        obtain ⟨x, rest, rfl⟩ := List.exists_cons_of_ne_nil (explore_ne_nil hmax he)
        simp [pipelineRoutes, he]
      · have hmem : pattern ∈ collectedPatterns := by
          cases pattern <;> simp_all [collectedPatterns]
        exact fun h => mem_collectPatternRoutes hmem hf (List.append_eq_nil_iff.mp h).1
    rw [findRoutes, validate_of_feasible hf]
    simp only [Bind.bind, Except.bind, List.isEmpty_iff, if_neg hall]
    exact ⟨_, rfl⟩

/-! ### Relaxing a request -/

/-- With the same candidates, a pattern that can serve a request can serve every weaker one. -/
theorem Feasible.relaxed {q q' : QoSConstraints F} {pattern : RoutingPattern}
    (hq : q'.AtMostAsStrict q) (hsame : router.graph.capableAgents t q'.minTrust =
      router.graph.capableAgents t q.minTrust) (h : router.Feasible t q pattern) :
    router.Feasible t q' pattern := by
  have hagents : extractAgents router.graph t q'.minTrust =
      extractAgents router.graph t q.minTrust := by rw [extractAgents, hsame, extractAgents]
  have hexplore : multiObjectiveBellmanFord router.graph t q'.minTrust router.costModel =
      multiObjectiveBellmanFord router.graph t q.minTrust router.costModel := by
    rw [multiObjectiveBellmanFord, hsame, multiObjectiveBellmanFord]
  cases pattern with
  | pipeline =>
    obtain ⟨results, hok, c, hc, hm⟩ := h
    exact ⟨results, by rw [hexplore]; exact hok, c, hc, hm.relaxed hq⟩
  | _ =>
    obtain ⟨s, hs, hm⟩ := h
    exact ⟨s, by rw [hagents]; exact hs, hm.relaxed hq⟩

/-- An agent that serves a request by itself serves every weaker one. -/
theorem feasible_of_single_agent {q q' : QoSConstraints F} {route : Route F} {id : AgentId}
    (hq : q'.AtMostAsStrict q) (hadm : route.Admissible router.graph t q)
    (hp : route.pattern = .pipeline) (hids : route.agents = [id]) :
    router.Feasible t q' .pipeline := by
  obtain ⟨n, hn, hserves⟩ := hadm.serves id (by simp [hids])
  obtain ⟨i, hidx, hi⟩ := Option.bind_eq_some_iff.mp hn
  have hcapable : i ∈ router.graph.capableAgents t q'.minTrust :=
    AgentGraph.mem_capableAgents.mpr ⟨n, hi, hserves.available,
      F64.le_trans hq.trust hserves.trusted, hserves.capable⟩
  obtain ⟨a, ha, rfl⟩ := exists_mem_extractAgents hcapable
  obtain ⟨m, hm, _, hcap⟩ := node_of_mem_extractAgents ha
  obtain rfl := Option.some.inj (hi.symm.trans hm)
  obtain ⟨caps, hcaps, hquality, hlatency, hcost⟩ := hadm.pipeline hp
  rw [hids, List.map_cons, List.map_nil, capabilityOf, hn, Option.bind_some, hcap] at hcaps
  obtain rfl : [a.capability] = caps := List.map_injective_iff.mpr (Option.some_injective _) hcaps
  have hsolo : route.metrics = soloMetrics a := by
    have hsum : (transfersAlong router.graph route.agents).sum = 0 := by
      rw [hids]; rfl
    cases hmet : route.metrics
    simp only [hmet] at hquality hlatency hcost
    rw [hsum] at hlatency
    simp [soloMetrics, CostModel.computeRouteMetrics, hquality, hlatency, hcost]
  exact feasible_of_solo ha ((hsolo ▸ hadm.meets).relaxed hq)

end Order

end EconomicRouter

end ATP
