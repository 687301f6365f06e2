import AgentTransport.Routing.Feasibility
import AgentTransport.Lib.Double

/-! Pipelines of several agents are never selected. When costs are not negative and latencies are
    positive, a path is beaten by an agent on it: alone, the agent has at least the quality (a
    clamped product only shrinks), at most the cost, and less latency.

    With rounded arithmetic two latencies may have the same number of seconds, so the agent taken
    is the faster of the first two: it needs at most half the time of the path. The same factor of
    two keeps a route of the front within the deadline of any path it beats, so the candidates
    behind the front never put a longer path forward. -/

namespace ATP
open F64 Collections
variable {F : Type} [F64 F]

/-- No capability has a negative cost or takes no time. -/
def AgentGraph.PositiveCosts (g : AgentGraph F) : Prop :=
  ∀ n ∈ g.nodes, ∀ c ∈ n.capabilities, 0 ≤ c.costPerTask ∧ 0 < c.estimatedLatency

/-- The lesser of the first two terms is at most half the sum. -/
theorem exists_half_sum : ∀ l : List ℕ, 2 ≤ l.length → ∃ x ∈ l, 2 * x ≤ l.sum
  | a :: b :: rest, _ => by
    simp only [List.sum_cons]
    by_cases hab : a ≤ b
    · exact ⟨a, by simp, by omega⟩
    · exact ⟨b, by simp, by omega⟩

/-- Each of several positive terms is below the sum. -/
theorem lt_sum : ∀ l : List ℕ, 2 ≤ l.length → (∀ x ∈ l, 0 < x) → ∀ x ∈ l, x < l.sum
  | a :: b :: rest, _, hpos, x, hx => by
    have ha := hpos a (by simp)
    have hb := hpos b (by simp)
    simp only [List.sum_cons]
    rcases List.mem_cons.mp hx with rfl | hx
    · omega
    rcases List.mem_cons.mp hx with rfl | hx
    · omega
    · have hle := List.single_le_sum (fun _ _ => Nat.zero_le _) _ hx
      omega

section Metrics
variable {caps : List (Capability F)} {transfers : List Duration} {cap : Capability F}

theorem latency_solo : (CostModel.computeRouteMetrics [cap] []).latency = cap.estimatedLatency := by
  simp [CostModel.computeRouteMetrics]

theorem sum_le_latency : (caps.map (·.estimatedLatency)).sum ≤
    (CostModel.computeRouteMetrics caps transfers).latency := by
  cases caps with
  | nil => simp
  | cons c cs => exact Nat.le_add_right _ _

/-- The faster of the first two agents takes at most half the time of the path. -/
theorem exists_half_latency (transfers : List Duration) (h : 2 ≤ caps.length) : ∃ c ∈ caps,
    2 * c.estimatedLatency ≤ (CostModel.computeRouteMetrics caps transfers).latency := by
  obtain ⟨x, hx, hhalf⟩ := exists_half_sum (caps.map (·.estimatedLatency)) (by simpa using h)
  obtain ⟨c, hc, rfl⟩ := List.mem_map.mp hx
  exact ⟨c, hc, Nat.le_trans hhalf sum_le_latency⟩

/-- With positive latencies every agent of a longer path is faster than the path. -/
theorem latency_lt (h : 2 ≤ caps.length) (hpos : ∀ c ∈ caps, 0 < c.estimatedLatency)
    (hcap : cap ∈ caps) : cap.estimatedLatency <
      (CostModel.computeRouteMetrics caps transfers).latency := by
  have hlt := lt_sum (caps.map (·.estimatedLatency)) (by simpa using h) (by simpa using hpos) _
    (List.mem_map_of_mem hcap)
  exact Nat.lt_of_lt_of_le hlt sum_le_latency

/-- The metrics of a path that is not empty. -/
theorem computeRouteMetrics_of_mem (hcap : cap ∈ caps) :
    CostModel.computeRouteMetrics caps transfers =
      { quality := product (caps.map fun c => clamp c.estimatedQuality 0 1)
        latency := (caps.map (·.estimatedLatency)).sum + transfers.sum
        cost := sum (caps.map (·.costPerTask)) } := by
  cases caps with
  | nil => simp at hcap
  | cons c cs => rfl

variable [LawfulF64 F]

/-- Alone, an agent of a path has at least the quality of the path. -/
theorem quality_solo_ge (hcap : cap ∈ caps)
    (hnum : IsNum (CostModel.computeRouteMetrics caps transfers).quality) :
    (CostModel.computeRouteMetrics [cap] []).quality ≥
      (CostModel.computeRouteMetrics caps transfers).quality := by
  rw [computeRouteMetrics_of_mem hcap] at hnum ⊢
  have h1 : IsNum (1 : F) := IsNum.of_le_right LawfulF64.zero_le_one
  have hfactors := (isNum_of_foldl_mul _ _ hnum).2
  have hunit : ∀ x ∈ caps.map (fun c => clamp c.estimatedQuality 0 1), 0 ≤ x ∧ x ≤ 1 := by
    intro x hx
    obtain ⟨c, _, rfl⟩ := List.mem_map.mp hx
    exact clamp_unit (isNum_of_clamp (hfactors _ hx))
  have hle := (foldl_mul_unit _ 1 LawfulF64.zero_le_one h1 hunit).2.2 _
    (List.mem_map_of_mem (f := fun c => clamp c.estimatedQuality 0 1) hcap)
  rw [computeRouteMetrics_of_mem (List.mem_singleton.mpr rfl)]
  simp only [product, List.map_cons, List.map_nil, List.foldl_cons, List.foldl_nil]
  exact F64.le_trans hle (LawfulF64.le_one_mul _ (IsNum.of_le_right hle))

/-- Alone, an agent of a path costs at most what the path costs. -/
theorem cost_solo_le (hcap : cap ∈ caps) (hcost : ∀ c ∈ caps, 0 ≤ c.costPerTask) :
    (CostModel.computeRouteMetrics [cap] []).cost ≤
      (CostModel.computeRouteMetrics caps transfers).cost := by
  have h0 : (0 : F) ≤ 0 := IsNum.of_le_left LawfulF64.zero_le_one
  have hle := (foldl_add_nonneg (caps.map (·.costPerTask)) 0 h0 (by simpa using hcost)).2 _
    (List.mem_map_of_mem (f := (·.costPerTask)) hcap)
  rw [computeRouteMetrics_of_mem hcap, computeRouteMetrics_of_mem (List.mem_singleton.mpr rfl)]
  simp only [sum, List.map_cons, List.map_nil, List.foldl_cons, List.foldl_nil]
  exact F64.le_trans (LawfulF64.zero_add_le _ (IsNum.of_le_left hle)) hle

end Metrics

/-! ### A longer path is beaten by an agent on it -/

section Candidates
variable {g : AgentGraph F} {t : TaskType} {minTrust : F} {c s : BellmanFordResult F} {i : ℕ}

theorem capability_positive (hpos : g.PositiveCosts) {cap : Capability F}
    (h : (g.node i).bind (·.capabilityFor t) = some cap) :
    0 ≤ cap.costPerTask ∧ 0 < cap.estimatedLatency := by
  obtain ⟨n, hn, hcap⟩ := Option.bind_eq_some_iff.mp h
  exact hpos n (List.mem_of_getElem? hn) cap (List.mem_of_find?_eq_some hcap)

/-- The metrics of a sound candidate are those of the capabilities along its path. -/
theorem BellmanFordResult.Sound.caps (hc : c.Sound g t minTrust) (hpos : g.PositiveCosts) :
    ∃ caps, c.metrics = CostModel.computeRouteMetrics caps (pathTransfers g c.path) ∧
      caps.length = c.path.length ∧
      (∀ cap ∈ caps, 0 ≤ cap.costPerTask ∧ 0 < cap.estimatedLatency ∧
        ∃ i ∈ c.path, (g.node i).bind (·.capabilityFor t) = some cap) ∧
      ∀ i ∈ c.path, ∃ cap ∈ caps, (g.node i).bind (·.capabilityFor t) = some cap := by
  obtain ⟨_, caps, hcaps, hm⟩ := computePathMetrics_eq_some hc.metrics
  refine ⟨caps, hm, by simpa using (congrArg List.length hcaps).symm, ?_, ?_⟩
  · intro cap hcap
    have hmem : some cap ∈ c.path.map fun i => (g.node i).bind (·.capabilityFor t) := by
      rw [hcaps]; exact List.mem_map_of_mem hcap
    obtain ⟨i, hi, hicap⟩ := List.mem_map.mp hmem
    obtain ⟨h0, hlat⟩ := capability_positive hpos hicap
    exact ⟨h0, hlat, i, hi, hicap⟩
  · intro i hi
    have hmem := List.mem_map_of_mem (f := fun i => (g.node i).bind (·.capabilityFor t)) hi
    rw [hcaps] at hmem
    obtain ⟨cap, hcap, hicap⟩ := List.mem_map.mp hmem
    exact ⟨cap, hcap, hicap.symm⟩

theorem BellmanFordResult.Sound.solo (hs : s.Sound g t minTrust) (hp : s.path = [i])
    {cap : Capability F} (h : (g.node i).bind (·.capabilityFor t) = some cap) :
    s.metrics = CostModel.computeRouteMetrics [cap] [] := by
  have hmet := hs.metrics
  rw [hp, computePathMetrics_single h] at hmet
  exact (Option.some.inj hmet).symm

variable [LawfulF64 F]

/-- Some agent of a longer path beats it, in at most half its time. -/
theorem exists_agent_above (hpos : g.PositiveCosts) (hc : c.Sound g t minTrust)
    (hlen : 2 ≤ c.path.length) (hnum : IsNum c.metrics.quality)
    (hmax : c.metrics.latency ≤ maxDuration) :
    ∃ i ∈ c.path, ∀ s : BellmanFordResult F, s.Sound g t minTrust → s.path = [i] →
      s.metrics.Dominates c.metrics ∧ 0 < s.metrics.latency ∧
        2 * s.metrics.latency ≤ c.metrics.latency := by
  obtain ⟨caps, hm, hcl, hcaps, _⟩ := hc.caps hpos
  obtain ⟨cap, hcap, hhalf⟩ := exists_half_latency (pathTransfers g c.path) (hcl ▸ hlen)
  obtain ⟨_, hlat, i, hi, hicap⟩ := hcaps cap hcap
  refine ⟨i, hi, fun s hs hp => ?_⟩
  rw [hs.solo hp hicap, hm]
  rw [hm] at hnum hmax
  have hlt : (asSecs (CostModel.computeRouteMetrics [cap] []).latency : F) <
      asSecs (CostModel.computeRouteMetrics caps (pathTransfers g c.path)).latency := by
    rw [latency_solo]
    exact LawfulF64.asSecs_lt _ _ hlat hhalf hmax
  exact ⟨⟨quality_solo_ge hcap hnum, F64.le_of_lt hlt,
    cost_solo_le hcap (fun c hc => (hcaps c hc).1), Or.inr (Or.inl hlt)⟩, by
      rw [latency_solo]; exact ⟨hlat, hhalf⟩⟩

/-- In exact arithmetic every agent of a longer path beats it. -/
theorem agent_above (hexact : F64.Exact F) (hpos : g.PositiveCosts) (hc : c.Sound g t minTrust)
    (hlen : 2 ≤ c.path.length) (hi : i ∈ c.path) (hs : s.Sound g t minTrust)
    (hp : s.path = [i]) : s.metrics.Dominates c.metrics := by
  obtain ⟨caps, hm, hcl, hcaps, hpath⟩ := hc.caps hpos
  obtain ⟨cap, hcap, hicap⟩ := hpath i hi
  rw [hs.solo hp hicap, hm]
  have hlt : (asSecs (CostModel.computeRouteMetrics [cap] []).latency : F) <
      asSecs (CostModel.computeRouteMetrics caps (pathTransfers g c.path)).latency := by
    rw [latency_solo]
    exact hexact.asSecs_lt _ _ (latency_lt (hcl ▸ hlen) (fun c hc => (hcaps c hc).2.1) hcap)
  exact ⟨quality_solo_ge hcap (hexact.isNum _), F64.le_of_lt hlt,
    cost_solo_le hcap (fun c hc => (hcaps c hc).1), Or.inr (Or.inl hlt)⟩

end Candidates

/-! ### What is selected -/

section Selection
variable {g : AgentGraph F} {t : TaskType} {minTrust : F} {qos : QoSConstraints F}
  {results : List (BellmanFordResult F)} {hs : RandomState (BellmanFordResult F)}
variable [LawfulF64 F]

omit [LawfulF64 F] in
/-- The representative of an agent alone among the merged candidates. -/
theorem exists_solo_candidate (hs : RandomState (BellmanFordResult F))
    (hsound : ∀ r ∈ results, r.Sound g t minTrust)
    (hsolo : ∀ i ∈ g.capableAgents t minTrust, ∃ r ∈ results, r.path = [i]) {i : ℕ}
    (hi : i ∈ g.capableAgents t minTrust) :
    ∃ u ∈ uniqueCandidates hs results, u.Sound g t minTrust ∧ u.path = [i] := by
  obtain ⟨r, hr, hp⟩ := hsolo i hi
  obtain ⟨u, hu, hup⟩ := exists_uniqueCandidate hs hr
  exact ⟨u, hu, hsound u (of_mem_uniqueCandidates hu), hup.trans hp⟩

/-- A feasible route has one agent, whether it is on the front or only behind it. -/
theorem feasibleRoutes_single (hpos : g.PositiveCosts)
    (hsound : ∀ r ∈ results, r.Sound g t minTrust)
    (hsolo : ∀ i ∈ g.capableAgents t minTrust, ∃ r ∈ results, r.path = [i])
    (hmax : qos.maxLatency ≤ maxDuration) {x : ParetoRoute F}
    (hx : x ∈ feasibleRoutes hs results qos) : ∃ i, x.path = [i] := by
  obtain ⟨⟨c, hc, rfl⟩, hm⟩ := of_mem_feasibleRoutes hx
  have hcs := hsound c hc
  by_contra hmany
  have hlen : 2 ≤ c.path.length := by
    by_contra hshort
    match hp : c.path with
    | [] => exact hcs.nonempty hp
    | [i] => exact hmany ⟨i, hp⟩
    | _ :: _ :: _ => simp [hp] at hshort
  have hfits : c.metrics.latency ≤ maxDuration := Nat.le_trans hm.latency hmax
  obtain ⟨i, hi, habove⟩ := exists_agent_above hpos hcs hlen (IsNum.of_le_right hm.quality) hfits
  obtain ⟨u, hu, hus, hup⟩ := exists_solo_candidate hs hsound hsolo (hcs.capable i hi)
  obtain ⟨hdom, hulat, hhalf⟩ := habove u hus hup
  simp only [feasibleRoutes] at hx
  split at hx
  · -- behind the front: some route of the front is feasible after all
    rename_i hempty
    obtain ⟨y, hy, hyu⟩ := exists_front_above hs hu
    have hcq : u.metrics.quality ≤ y.metrics.quality ∧ y.metrics.cost ≤ u.metrics.cost ∧
        ¬ (asSecs u.metrics.latency : F) < asSecs y.metrics.latency := by
      rcases hyu with h | h
      · rw [h]
        exact ⟨IsNum.of_le_right hdom.quality, IsNum.of_le_left hdom.cost, F64.lt_irrefl _⟩
      · exact ⟨h.quality, h.cost, fun hlt => ((OrderedF64.lt_iff _ _).mp hlt).2 h.latency⟩
    have hymeets : y.metrics.Meets qos := by
      refine ⟨F64.le_trans (F64.le_trans hm.quality hdom.quality) hcq.1, ?_,
        F64.le_trans hcq.2.1 (F64.le_trans hdom.cost hm.cost)⟩
      by_contra hlate
      have hle : c.metrics.latency ≤ y.metrics.latency :=
        Nat.le_trans hm.latency (Nat.le_of_lt (Nat.lt_of_not_le hlate))
      exact hcq.2.2 (F64.lt_of_lt_of_le (LawfulF64.asSecs_lt _ _ hulat hhalf hfits)
        (LawfulF64.asSecs_le _ _ hle))
    have hmem := mem_filterByConstraints.mpr ⟨hy, hymeets⟩
    rw [List.isEmpty_iff.mp hempty] at hmem
    simp at hmem
  · -- on the front: the agent alone would beat it
    obtain ⟨hfront, _⟩ := mem_filterByConstraints.mp hx
    obtain ⟨r, _, hunbeaten, heq⟩ := mem_paretoFront.mp hfront
    have hmet : c.metrics = r.metrics := congrArg ParetoRoute.metrics heq
    rw [hmet] at hdom
    exact hunbeaten u hu hdom

omit [LawfulF64 F] in
/-- In exact arithmetic the candidates behind the front never help: what meets the constraints is
    matched by a route of the front that does. -/
theorem fallback_empty [OrderedF64 F] (hexact : F64.Exact F)
    (hsound : ∀ r ∈ results, r.Sound g t minTrust)
    (h : filterByConstraints (paretoFront hs results) qos = []) :
    filterByConstraints (results.map (·.toPareto)) qos = [] := by
  by_contra hne
  obtain ⟨x, hx⟩ := List.exists_mem_of_ne_nil _ hne
  obtain ⟨hx, hm⟩ := mem_filterByConstraints.mp hx
  obtain ⟨r, hr, rfl⟩ := List.mem_map.mp hx
  obtain ⟨u, hu, hup⟩ := exists_uniqueCandidate hs hr
  have hmet : u.metrics = r.metrics := by
    have h₁ := (hsound u (of_mem_uniqueCandidates hu)).metrics
    rw [hup, (hsound r hr).metrics] at h₁
    exact (Option.some.inj h₁).symm
  obtain ⟨y, hy, hyu⟩ := exists_front_above hs hu
  rw [hmet] at hyu
  have hymeets : y.metrics.Meets qos := by
    rcases hyu with hyu | hyu
    · rw [hyu]; exact hm
    · refine ⟨F64.le_trans hm.quality hyu.quality, ?_, F64.le_trans hyu.cost hm.cost⟩
      -- in exact arithmetic more nanoseconds are more seconds
      by_contra hlate
      have hlt : r.metrics.latency < y.metrics.latency :=
        Nat.lt_of_le_of_lt hm.latency (Nat.lt_of_not_le hlate)
      exact ((OrderedF64.lt_iff _ _).mp (hexact.asSecs_lt _ _ hlt)).2 hyu.latency
  have hmem := mem_filterByConstraints.mpr ⟨hy, hymeets⟩
  rw [h] at hmem
  simp at hmem

end Selection

namespace EconomicRouter
variable {router : EconomicRouter F} {t : TaskType} {qos : QoSConstraints F}
  {hs : RandomState (BellmanFordResult F)}
variable [LawfulF64 F]

theorem explore_single (hpos : router.graph.PositiveCosts) (hmax : qos.maxLatency ≤ maxDuration)
    {n : ℕ} {top : List (ParetoRoute F)} (h : router.explore hs t qos n = .ok top)
    {x : ParetoRoute F} (hx : x ∈ top) :
    ∃ i, x.path = [i] := by
  obtain ⟨results, hsound, hsolo, hselect⟩ := explore_eq_ok h
  obtain ⟨y, hy, hpath, _⟩ := of_mem_selectTopRoutes hselect x hx
  rw [hpath]
  exact feasibleRoutes_single hpos hsound hsolo hmax hy

theorem routeOfPath_single (hpos : router.graph.PositiveCosts)
    (hmax : qos.maxLatency ≤ maxDuration) {n : ℕ} {top : List (ParetoRoute F)}
    (h : router.explore hs t qos n = .ok top) {x : ParetoRoute F} (hx : x ∈ top)
    (stamp : Stamp) : (router.routeOfPath stamp x).agents.length = 1 := by
  obtain ⟨i, hi⟩ := explore_single hpos hmax h hx
  have hne : (router.routeOfPath stamp x).agents ≠ [] := (routeOfPath_admissible h hx).nonempty
  have hle : (router.routeOfPath stamp x).agents.length ≤ 1 := by
    have := List.length_filterMap_le router.graph.agentId x.path
    simpa [routeOfPath, makeRoute, pathToAgentIds, hi] using this
  have := List.length_pos_iff.mpr hne
  omega

theorem tryPattern_single (hpos : router.graph.PositiveCosts)
    (hmax : qos.maxLatency ≤ maxDuration) {pattern : RoutingPattern} {stamp : Stamp}
    {route : Route F} (h : router.tryPattern hs pattern t qos stamp = .ok route)
    (hp : route.pattern = .pipeline) : route.agents.length = 1 := by
  obtain rfl : pattern = .pipeline := (tryPattern_pattern h).symm.trans hp
  obtain ⟨top, x, he, hx, rfl⟩ := bestPipeline_eq_ok h
  exact routeOfPath_single hpos hmax he hx stamp

omit [LawfulF64 F] in
theorem autoSelectPattern_single {ttl : Duration} {stamp : Stamp} {route : Route F}
    (h : autoSelectPattern router.graph t qos ttl stamp = .ok route)
    (hp : route.pattern = .pipeline) : route.agents.length = 1 := by
  rcases autoSelectPattern_cases h with ⟨_, h⟩ | ⟨_, h⟩ | ⟨_, h⟩ | ⟨_, h⟩ | h
  · exact absurd (hp.symm.trans (checkedRoute_pattern h)) (by simp)
  · exact absurd (hp.symm.trans (checkedRoute_pattern h)) (by simp)
  · exact absurd (hp.symm.trans (checkedRoute_pattern h)) (by simp)
  · exact absurd (hp.symm.trans (checkedRoute_pattern h)) (by simp)
  · obtain ⟨a, _, _, rfl⟩ := cheapestSingle_eq_ok h
    rfl

/-- Multi-agent pipelines are never selected: every pipeline the router returns is one agent. In
    exact arithmetic each longer path explored is beaten by every agent on it alone, and the
    candidates behind the front add nothing when no route of the front is feasible. The deadline is
    a `Duration`. -/
theorem pipelines_are_single (router : EconomicRouter F) (t : TaskType) (qos : QoSConstraints F)
    (hpos : router.graph.PositiveCosts) (hmax : qos.maxLatency ≤ maxDuration) :
    (∀ hsPattern hsFallback preferred stamp route,
      router.findRoute hsPattern hsFallback t qos preferred stamp = .ok route →
        route.pattern = .pipeline → route.agents.length = 1) ∧
    (∀ hs stamps routes, router.findRoutes hs t qos stamps = .ok routes →
      ∀ route ∈ routes, route.pattern = .pipeline → route.agents.length = 1) ∧
    (F64.Exact F → ∀ results,
      multiObjectiveBellmanFord router.graph t qos.minTrust router.costModel = .ok results →
        (∀ c ∈ results, 2 ≤ c.path.length → ∀ i ∈ c.path, ∃ s ∈ results, s.path = [i] ∧
          dominates s.metrics c.metrics = true) ∧
        ∀ hs, filterByConstraints (paretoFront hs results) qos = [] →
          filterByConstraints (results.map (·.toPareto)) qos = []) := by
  refine ⟨?_, ?_, ?_⟩
  -- a preferred pattern, the automatic selection, or the exploration
  · intro hsPattern hsFallback preferred stamp route h hp
    rcases findRoute_cases h with ⟨pattern, _, h⟩ | h | h
    · exact tryPattern_single hpos hmax h hp
    · exact autoSelectPattern_single h hp
    · obtain ⟨top, x, he, hx, rfl⟩ := bestPipeline_eq_ok h
      exact routeOfPath_single hpos hmax he hx stamp
  -- a pattern route, or a route of the front
  · intro hs stamps routes h route hr hp
    rcases findRoutes_cases h hr with ⟨pattern, _, i, h⟩ | ⟨top, x, i, he, hx, rfl⟩
    · exact tryPattern_single hpos hmax h hp
    · exact routeOfPath_single hpos hmax he hx (stamps i)
  · intro hexact results hok
    rcases multiObjective_spec router.graph t qos.minTrust router.costModel with
      ⟨_, herr⟩ | ⟨results', hok', _, hsound, hsolo⟩
    · rw [herr] at hok
      simp at hok
    · obtain rfl := Except.ok.inj (hok'.symm.trans hok)
      refine ⟨?_, fun hs h => fallback_empty hexact hsound h⟩
      intro c hc hlen i hi
      obtain ⟨s, hs, hp⟩ := hsolo i ((hsound c hc).capable i hi)
      exact ⟨s, hs, hp, dominates_iff.mpr
        (agent_above hexact hpos (hsound c hc) hlen hi (hsound s hs) hp)⟩

theorem pipelines_are_single_twins :
    let qos : QoSConstraints ℚ := ⟨1 / 2, Duration.secs 10, 5, 1 / 2⟩
    (∃ route, twins.findRoute (.insertion _) (.insertion _) .analysis qos (some .pipeline) ⟨0, 0⟩ =
      .ok route ∧ route.pattern = .pipeline ∧ route.agents.length = 1) ∧
    ∃ results c, multiObjectiveBellmanFord twins.graph .analysis qos.minTrust twins.costModel =
      .ok results ∧ c ∈ results ∧ 2 ≤ c.path.length ∧ ∀ i ∈ c.path, ∃ s ∈ results,
        s.path = [i] ∧ dominates s.metrics c.metrics = true := by
  intro qos
  have hpos : twins.graph.PositiveCosts := by
    unfold AgentGraph.PositiveCosts
    decide +kernel
  have h : twins.findRoute (.insertion _) (.insertion _) .analysis qos (some .pipeline) ⟨0, 0⟩ =
      .ok ⟨0, .pipeline, [⟨1⟩], ⟨7 / 10, Duration.millis 100, 3 / 10⟩, 0, Duration.secs 120⟩ := by
    decide +kernel
  have hsingle := pipelines_are_single twins .analysis qos hpos (by decide)
  refine ⟨⟨_, h, rfl, hsingle.1 _ _ _ _ _ h rfl⟩, ?_⟩
  have hlong : (multiObjectiveBellmanFord twins.graph .analysis qos.minTrust
      twins.costModel).toOption.any (·.any fun c => decide (2 ≤ c.path.length)) = true := by
    decide +kernel
  obtain ⟨results, hok⟩ : ∃ results, multiObjectiveBellmanFord twins.graph .analysis qos.minTrust
      twins.costModel = .ok results := exists_ok (by decide +kernel)
  rw [hok] at hlong
  obtain ⟨c, hc, hlen⟩ := List.any_eq_true.mp hlong
  exact ⟨results, c, hok, hc, of_decide_eq_true hlen,
    (hsingle.2.2 exact_field results hok).1 c hc (of_decide_eq_true hlen)⟩

/-- With rounding the candidates behind the front do come in: two analysts at a deadline of 230
    days, the better one a nanosecond late. The seconds of both are the same, so that the late one
    alone is on the front. -/
theorem fallback_fires :
    let router : EconomicRouter Double := separate
      [(lit (8 / 10), ⟨.analysis, lit (9 / 10), Duration.secs 20000000 + 1, lit (1 / 10)⟩),
        (lit (8 / 10), ⟨.analysis, lit (8 / 10), Duration.secs 20000000, lit (1 / 10)⟩)]
    let qos : QoSConstraints Double := ⟨lit (1 / 2), Duration.secs 20000000, lit 5, lit (1 / 2)⟩
    router.graph.PositiveCosts ∧ ∃ results,
      multiObjectiveBellmanFord router.graph .analysis qos.minTrust router.costModel =
        .ok results ∧
      filterByConstraints (paretoFront (.insertion _) results) qos = [] ∧
        filterByConstraints (results.map (·.toPareto)) qos ≠ [] := by
  intro router qos
  have hfallback : (multiObjectiveBellmanFord router.graph .analysis qos.minTrust
      router.costModel).toOption.any (fun results =>
        (filterByConstraints (paretoFront (.insertion _) results) qos).isEmpty &&
          !(filterByConstraints (results.map (·.toPareto)) qos).isEmpty) = true := by
    decide +kernel
  have hpos : router.graph.PositiveCosts := by
    unfold AgentGraph.PositiveCosts
    decide +kernel
  obtain ⟨results, hresults, hboth⟩ := (Option.any_eq_true _ _).mp hfallback
  rw [Bool.and_eq_true, Bool.not_eq_true', List.isEmpty_iff, List.isEmpty_eq_false_iff] at hboth
  exact ⟨hpos, results, Collections.eq_ok_of_toOption hresults, hboth⟩

end EconomicRouter

end ATP
