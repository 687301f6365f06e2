import AgentTransport.Routing.RankedRoutes
import AgentTransport.Routing.Feasibility

/-! Whether `find_route` returns the top-ranked route. It takes the first of its choices that meets
    the constraints; `find_routes` ranks all of them by scalar cost:

        find_route    cascade, draft-refine ─▶ ensemble ─▶ parallel-merge ─▶ cheapest agent ─▶ paths
                      (the first four when their gates are open)
        find_routes   all four patterns, and the paths of the front, the cheapest first

    So it does exactly when its first choice is no dearer than any pattern or path on offer. -/

namespace ATP
open F64 Collections

/-- The patterns of the automatic selection, in the order they are tried. -/
def autoOrder : List RoutingPattern := [.cascade, .draftRefine, .ensemble, .parallelMerge]

namespace EconomicRouter

section Choices
variable {F : Type} [F64 F] (router : EconomicRouter F) (t : TaskType) (qos : QoSConstraints F)

/-- The cost routes are ranked by. -/
def rankCost (m : RouteMetrics F) : F :=
  router.costModel.scalarRouteCost m (CostModel.weightsFromConstraints qos)

/-- What a pattern has on offer: the metrics of its selection, if they meet the constraints. -/
def offer (pattern : RoutingPattern) : Option (RouteMetrics F) :=
  ((patternSelection router.graph (extractAgents router.graph t qos.minTrust) pattern).map
    (·.metrics)).filter fun m => CostModel.satisfiesConstraints m qos

/-- The first pattern with an open gate that has something on offer, or else the cheapest agent that
    meets the constraints by itself. -/
def firstChoice : Option (RouteMetrics F) :=
  let agents := extractAgents router.graph t qos.minTrust
  (autoOrder.findSome? fun pattern =>
      if autoTries agents qos pattern then router.offer t qos pattern else none).or
    (((sortedByCost agents).find? fun a =>
      CostModel.satisfiesConstraints (soloMetrics a) qos).map soloMetrics)

/-- Metrics of a path of the exploration that meets the constraints and that no path dominates. -/
def Explored (m : RouteMetrics F) : Prop :=
  ∃ results, multiObjectiveBellmanFord router.graph t qos.minTrust router.costModel = .ok results ∧
    ∃ c ∈ results, c.metrics = m ∧ m.Meets qos ∧ ∀ b ∈ results, ¬ b.metrics.Dominates m

/-- A pattern or a path has these metrics on offer. -/
def Offered (m : RouteMetrics F) : Prop :=
  (∃ pattern, router.offer t qos pattern = some m) ∨ router.Explored t qos m

/-- The first choice is no dearer than anything on offer. Without a first choice, some path is. -/
structure RanksFirst : Prop where
  chosen : ∀ c, router.firstChoice t qos = some c → ∀ m, router.Offered t qos m →
    router.rankCost qos c ≤ router.rankCost qos m
  explored : router.firstChoice t qos = none → ∀ c, router.Explored t qos c →
    ∀ m, router.Offered t qos m → ∃ c', router.Explored t qos c' ∧
      router.rankCost qos c' ≤ router.rankCost qos m

variable {router t qos}

omit [F64 F] in
/-- The metrics of an attempt are those of its route, behind an open gate, or of what follows. -/
theorem attempt_metrics (gate : Bool) (route next : Except RoutingError (Route F)) :
    (attempt gate route next).toOption.map (·.metrics) =
      (if gate then route.toOption.map (·.metrics) else none).or
        (next.toOption.map (·.metrics)) := by
  cases gate <;> cases route <;> rfl

theorem checkedRoute_metrics (pattern : RoutingPattern) (selection : Option (Selection F))
    (ttl : Duration) (stamp : Stamp) :
    (checkedRoute pattern selection qos ttl stamp).toOption.map (·.metrics) =
      (selection.map (·.metrics)).filter fun m => CostModel.satisfiesConstraints m qos := by
  cases selection with
  | none => rfl
  | some s =>
    simp only [checkedRoute, Option.map_some, Option.filter_some]
    split <;> rfl

theorem cheapestSingle_metrics (agents : List (AgentInfo F)) (ttl : Duration) (stamp : Stamp) :
    (cheapestSingle agents qos ttl stamp).toOption.map (·.metrics) =
      ((sortedByCost agents).find? fun a =>
        CostModel.satisfiesConstraints (soloMetrics a) qos).map soloMetrics := by
  unfold cheapestSingle
  split
  · rename_i a hfind
    rw [hfind]
    rfl
  · rename_i hfind
    rw [hfind]
    rfl

/-- The automatic selection returns its first choice. -/
theorem autoSelectPattern_metrics (ttl : Duration) (stamp : Stamp) :
    (autoSelectPattern router.graph t qos ttl stamp).toOption.map (·.metrics) =
      router.firstChoice t qos := by
  have hor : ∀ (f : RoutingPattern → Option (RouteMetrics F)) (p : RoutingPattern)
      (ps : List RoutingPattern), (p :: ps).findSome? f = (f p).or (ps.findSome? f) := by
    intro f p ps
    rw [List.findSome?_cons]
    cases f p <;> rfl
  simp only [autoSelectPattern, firstChoice]
  split
  · -- nobody serves the request, so no gate is open
    rename_i hempty
    have hclosed : ∀ p, p ≠ .pipeline → autoTries ([] : List (AgentInfo F)) qos p = false := by
      intro p hp
      rw [← Bool.not_eq_true]
      intro h
      exact absurd (two_le_of_autoTries h hp) (by simp)
    rw [List.isEmpty_iff.mp hempty]
    simp [autoOrder, hor, hclosed, sortedByCost, sortAsc, Except.toOption]
  · simp only [attempt_metrics, cheapestSingle_metrics, cascade, draftRefine, ensemble,
      parallelMerge, checkedRoute_metrics, autoOrder, hor, List.findSome?_nil, Option.or_none,
      ← Option.or_assoc]
    rfl

/-- A pattern other than the pipeline returns what it has on offer. -/
theorem tryPattern_metrics (hs : RandomState (BellmanFordResult F)) {pattern : RoutingPattern}
    (hp : pattern ≠ .pipeline) (stamp : Stamp) :
    (router.tryPattern hs pattern t qos stamp).toOption.map (·.metrics) =
      router.offer t qos pattern := by
  cases pattern with
  | pipeline => exact absurd rfl hp
  | draftRefine => exact checkedRoute_metrics _ _ _ _
  | parallelMerge => exact checkedRoute_metrics _ _ _ _
  | cascade => exact checkedRoute_metrics _ _ _ _
  | ensemble => exact checkedRoute_metrics _ _ _ _

/-- Over a graph with a node, `find_route` returns its first choice, or else the best path. -/
theorem findRoute_metrics (hsPattern hsFallback : RandomState (BellmanFordResult F))
    (t : TaskType) (qos : QoSConstraints F) (stamp : Stamp)
    (hv : router.graph.validate = .ok ()) :
    (router.findRoute hsPattern hsFallback t qos none stamp).toOption.map (·.metrics) =
      (router.firstChoice t qos).or
        ((router.bestPipeline hsFallback t qos stamp).toOption.map (·.metrics)) := by
  rw [findRoute, hv]
  simp only [Bind.bind, Except.bind, tryPreferred, attempt_metrics, autoSelectPattern_metrics]
  rfl

omit [F64 F] in
theorem exists_of_metrics {e : Except RoutingError (Route F)} {m : RouteMetrics F}
    (h : e.toOption.map (·.metrics) = some m) : ∃ route, e = .ok route ∧ route.metrics = m := by
  cases e with
  | error e => cases h
  | ok route => exact ⟨route, rfl, Option.some.inj h⟩

omit [F64 F] in
theorem metrics_of_ok {e : Except RoutingError (Route F)} {route : Route F} (h : e = .ok route) :
    e.toOption.map (·.metrics) = some route.metrics := by
  rw [h]
  rfl

/-- The best path of an exploration is the first one selected. -/
theorem bestPipeline_head {hs : RandomState (BellmanFordResult F)} {stamp : Stamp}
    {route : Route F} (h : router.bestPipeline hs t qos stamp = .ok route) :
    ∃ x top, router.explore hs t qos 1 = .ok (x :: top) ∧ route.metrics = x.metrics := by
  unfold bestPipeline at h
  cases he : router.explore hs t qos 1 with
  | error e => rw [he] at h; cases h
  | ok top =>
    rw [he] at h
    cases top with
    | nil => cases h
    | cons x top =>
      obtain rfl := Except.ok.inj h
      exact ⟨x, top, rfl, rfl⟩

/-- The candidates behind a successful exploration. -/
theorem explore_results {hs : RandomState (BellmanFordResult F)} {n : ℕ}
    {top : List (ParetoRoute F)} (h : router.explore hs t qos n = .ok top) : ∃ results,
      multiObjectiveBellmanFord router.graph t qos.minTrust router.costModel = .ok results ∧
        Consistent results ∧ selectTopRoutes hs results qos (CostModel.weightsFromConstraints qos)
          router.costModel n = .ok top := by
  rcases multiObjective_spec router.graph t qos.minTrust router.costModel with
    ⟨-, herr⟩ | ⟨results, hok, -, hsound, -⟩
  · rw [explore, herr] at h
    cases h
  · rw [explore, hok] at h
    exact ⟨results, hok, consistent_of_sound hsound, h⟩

end Choices

section Exact
variable {K : Type} [Field K] [LinearOrder K] [IsStrictOrderedRing K] [FloorRing K]
  {router : EconomicRouter K} {hs : RandomState (BellmanFordResult K)} {t : TaskType}
  {qos : QoSConstraints K}

theorem explored_of_mem_top {n : ℕ} {top : List (ParetoRoute K)}
    (h : router.explore hs t qos n = .ok top) {x : ParetoRoute K} (hx : x ∈ top) :
    router.Explored t qos x.metrics := by
  obtain ⟨results, hok, hc, hselect⟩ := explore_results h
  obtain ⟨y, hy, -, hmetrics⟩ := of_mem_selectTopRoutes hselect x hx
  obtain ⟨⟨r, hr, rfl⟩, hmeets⟩ := of_mem_feasibleRoutes hy
  rw [feasibleRoutes_eq hc (tellsApart_field K _)] at hy
  rw [hmetrics]
  exact ⟨results, hok, r, hr, rfl, hmeets, front_undominated hc (mem_filterByConstraints.mp hy).1⟩

/-- The first path selected is no dearer than any that is explored. -/
theorem explore_head_le {n : ℕ} {top : List (ParetoRoute K)}
    (h : router.explore hs t qos n = .ok top) {x : ParetoRoute K} (hx : top.head? = some x)
    {m : RouteMetrics K} (hm : router.Explored t qos m) :
    router.rankCost qos x.metrics ≤ router.rankCost qos m := by
  obtain ⟨results, hok, hc, hselect⟩ := explore_results h
  obtain ⟨results', hok', r, hr, rfl, hmeets, hund⟩ := hm
  obtain rfl := Except.ok.inj (hok.symm.trans hok')
  obtain ⟨u, hu, -, hmetrics⟩ := exists_representative hs hc hr
  have hfront : u.toPareto ∈ filterByConstraints (paretoFront hs results) qos := by
    have hbest : Unbeaten (uniqueCandidates hs results) u := fun b hb hdom =>
      hund b (of_mem_uniqueCandidates hb) (hmetrics ▸ hdom)
    have hmeets' : u.metrics.Meets qos := hmetrics ▸ hmeets
    exact mem_filterByConstraints.mpr ⟨mem_paretoFront.mpr ⟨u, hu, hbest, rfl⟩, hmeets'⟩
  obtain ⟨-, -, rfl⟩ := selectTopRoutes_eq_ok.mp hselect
  rw [feasibleRoutes_eq hc (tellsApart_field K _)] at hx
  have hle := selectTopRoutes_head_le (fun _ _ => isNum_field _) hx hfront
  rw [← hmetrics]
  exact hle

omit [IsStrictOrderedRing K] in
theorem Explored.feasible {m : RouteMetrics K} (h : router.Explored t qos m) :
    router.Feasible t qos .pipeline := by
  obtain ⟨results, hok, c, hc, rfl, hmeets, -⟩ := h
  exact ⟨results, hok, c, hc, hmeets⟩

omit [IsStrictOrderedRing K] in
theorem Explored.head {m : RouteMetrics K} (h : router.Explored t qos m)
    (hs : RandomState (BellmanFordResult K)) {n : ℕ} (hn : 1 ≤ n) :
    ∃ x top, router.explore hs t qos n = .ok (x :: top) := by
  obtain ⟨top, htop⟩ := (explore_ok_iff :
    (∃ top, router.explore hs t qos n = .ok top) ↔ _).mpr h.feasible
  obtain ⟨x, rest, rfl⟩ := List.exists_cons_of_ne_nil (explore_ne_nil hn htop)
  exact ⟨x, rest, htop⟩

omit [IsStrictOrderedRing K] in
theorem feasible_of_offer {pattern : RoutingPattern} {m : RouteMetrics K}
    (h : router.offer t qos pattern = some m) : router.Feasible t qos pattern := by
  obtain ⟨hmap, hmeets⟩ := Option.filter_eq_some_iff.mp h
  obtain ⟨s, hs, rfl⟩ := Option.map_eq_some_iff.mp hmap
  cases pattern with
  | pipeline => cases hs
  | _ => exact ⟨s, hs, satisfiesConstraints_iff.mp hmeets⟩

omit [IsStrictOrderedRing K] in
theorem validate_of_firstChoice {m : RouteMetrics K} (h : router.firstChoice t qos = some m) :
    router.graph.validate = .ok () := by
  rw [← autoSelectPattern_metrics router.config.routeTtl ⟨0, 0⟩] at h
  obtain ⟨route, hroute, -⟩ := exists_of_metrics h
  exact validate_of_admissible (autoSelectPattern_admissible hroute)

/-- A route that is listed has its metrics on offer. -/
theorem offered_of_mem {stamps : ℕ → Stamp} {route : Route K}
    (h : route ∈ router.allRoutes hs t qos stamps) : router.Offered t qos route.metrics := by
  rcases List.mem_append.mp h with h | h
  · obtain ⟨hp, i, -, htry⟩ := of_mem_collectPatternRoutes h
    exact Or.inl ⟨route.pattern, (tryPattern_metrics hs hp _).symm.trans (metrics_of_ok htry)⟩
  · obtain ⟨-, top, x, htop, hx, hmetrics⟩ := of_mem_pipelineRoutes h
    rw [hmetrics]
    exact Or.inr (explored_of_mem_top htop hx)

/-- Whatever is on offer, a route collected is no dearer. -/
theorem exists_mem_of_offered (hmax : 1 ≤ router.config.maxRoutes)
    (hs : RandomState (BellmanFordResult K)) (stamps : ℕ → Stamp) {m : RouteMetrics K}
    (h : router.Offered t qos m) : ∃ route ∈ router.allRoutes hs t qos stamps,
      router.rankCost qos route.metrics ≤ router.rankCost qos m := by
  rcases h with ⟨pattern, h⟩ | h
  · have hp : pattern ≠ .pipeline := by
      rintro rfl
      cases h
    have hmem : pattern ∈ collectedPatterns := by
      cases pattern <;> simp_all [collectedPatterns]
    obtain ⟨i, hi⟩ := List.mem_iff_getElem?.mp hmem
    obtain ⟨route, hroute, rfl⟩ :=
      exists_of_metrics ((tryPattern_metrics hs hp (stamps i)).trans h)
    refine ⟨route, List.mem_append_left _ (List.mem_filterMap.mpr ⟨(pattern, i),
      List.mem_zipIdx_iff_getElem?.mpr hi, ?_⟩), le_rfl⟩
    simp only [hroute, Except.toOption]
  · obtain ⟨x, top, htop⟩ := h.head hs hmax
    refine ⟨router.routeOfPath (stamps 4) x, List.mem_append_right _ ?_,
      explore_head_le htop rfl h⟩
    rw [pipelineRoutes, htop]
    exact List.mem_map.mpr ⟨(x, 0), by simp, rfl⟩

omit [IsStrictOrderedRing K] in
theorem exists_findRoutes (hmax : 1 ≤ router.config.maxRoutes)
    (hs : RandomState (BellmanFordResult K)) (stamps : ℕ → Stamp) {m : RouteMetrics K}
    (h : router.Offered t qos m) : ∃ routes, router.findRoutes hs t qos stamps = .ok routes := by
  rcases h with ⟨pattern, h⟩ | h
  · exact (findRoutes_ok_iff hmax).mpr ⟨pattern, feasible_of_offer h⟩
  · exact (findRoutes_ok_iff hmax).mpr ⟨.pipeline, h.feasible⟩

/-- A bound on what is listed is a bound on what is on offer. -/
theorem findRoutes_le_iff (hmax : 1 ≤ router.config.maxRoutes) {stamps : ℕ → Stamp}
    {routes : List (Route K)} (h : router.findRoutes hs t qos stamps = .ok routes) (x : K) :
    (∀ r ∈ routes, x ≤ router.rankCost qos r.metrics) ↔
      ∀ m, router.Offered t qos m → x ≤ router.rankCost qos m := by
  constructor
  · intro hall m hm
    obtain ⟨route, hroute, hle⟩ := exists_mem_of_offered hmax hs stamps hm
    refine le_trans ?_ hle
    -- the first of the list is the first of all routes, sorted
    have hsorted := pairwise_sortAsc (fun r : Route K => router.rankCost qos r.metrics)
      (router.allRoutes hs t qos stamps)
    have hmem : route ∈ sortAsc (fun r : Route K => router.rankCost qos r.metrics)
        (router.allRoutes hs t qos stamps) := mem_sortAsc.mpr hroute
    have hroutes := findRoutes_sorted h
    change routes = (retainNew (·.agents) [] (sortAsc (fun r : Route K =>
      router.rankCost qos r.metrics) (router.allRoutes hs t qos stamps))).take _ at hroutes
    obtain ⟨first, rest, hfirst⟩ := List.exists_cons_of_ne_nil (findRoutes_ne_nil hmax h)
    have hhead : (sortAsc (fun r : Route K => router.rankCost qos r.metrics)
        (router.allRoutes hs t qos stamps)).head? = some first := by
      rw [← head?_retainNew (·.agents), ← List.head?_cons (a := first) (l := rest), ← hfirst,
        hroutes, List.head?_take, if_neg (by omega)]
    obtain ⟨tail, htail⟩ := List.head?_eq_some_iff.mp hhead
    refine (hall first (by rw [hfirst]; exact List.mem_cons_self)).trans ?_
    rw [htail] at hmem hsorted
    rcases List.mem_cons.mp hmem with rfl | hmem
    · exact le_rfl
    · exact (List.pairwise_cons.mp hsorted).1 route hmem
  · intro hall r hr
    rw [findRoutes_sorted h] at hr
    exact hall r.metrics (offered_of_mem (mem_sortAsc.mp
      (mem_of_mem_retainNew _ (List.mem_of_mem_take hr))))

/-- What `find_route` returns: its first choice, or else the cheapest path explored. -/
theorem findRoute_spec {hsPattern hsFallback : RandomState (BellmanFordResult K)} {stamp : Stamp}
    {route : Route K} (h : router.findRoute hsPattern hsFallback t qos none stamp = .ok route) :
    router.firstChoice t qos = some route.metrics ∨
      router.firstChoice t qos = none ∧ router.Explored t qos route.metrics ∧
        ∀ m, router.Explored t qos m →
          router.rankCost qos route.metrics ≤ router.rankCost qos m := by
  have hmetrics := findRoute_metrics hsPattern hsFallback t qos stamp
    (validate_of_admissible (findRoute_admissible h))
  rw [metrics_of_ok h] at hmetrics
  cases hfirst : router.firstChoice t qos with
  | some c =>
    rw [hfirst, Option.some_or] at hmetrics
    exact Or.inl hmetrics.symm
  | none =>
    rw [hfirst, Option.none_or] at hmetrics
    obtain ⟨best, hbest, hbm⟩ := exists_of_metrics hmetrics.symm
    obtain ⟨x, top, hexplore, hx⟩ := bestPipeline_head hbest
    rw [← hbm, hx]
    exact Or.inr ⟨rfl, explored_of_mem_top hexplore List.mem_cons_self,
      fun m hm => explore_head_le hexplore rfl hm⟩

omit [IsStrictOrderedRing K] in
/-- With a first choice, or a path explored, there is a route. -/
theorem exists_findRoute (hsPattern hsFallback : RandomState (BellmanFordResult K)) (stamp : Stamp)
    (h : (∃ c, router.firstChoice t qos = some c) ∨ ∃ c, router.Explored t qos c) :
    ∃ route, router.findRoute hsPattern hsFallback t qos none stamp = .ok route := by
  rcases h with ⟨c, hc⟩ | ⟨c, hc⟩
  · have hmetrics := findRoute_metrics hsPattern hsFallback t qos stamp (validate_of_firstChoice hc)
    rw [hc, Option.some_or] at hmetrics
    obtain ⟨route, hroute, -⟩ := exists_of_metrics hmetrics
    exact ⟨route, hroute⟩
  · exact findRoute_ok_iff.mpr ⟨.pipeline, rfl, hc.feasible⟩

/-- `find_route` returns a route that nothing listed beats exactly when its first choice is no
    dearer than anything on offer. -/
theorem findRoute_top_ranked_iff (hmax : 1 ≤ router.config.maxRoutes)
    (hs hsPattern hsFallback : RandomState (BellmanFordResult K)) (stamps : ℕ → Stamp)
    (stamp : Stamp) :
    (∀ route routes, router.findRoute hsPattern hsFallback t qos none stamp = .ok route →
        router.findRoutes hs t qos stamps = .ok routes →
          ∀ r ∈ routes, router.rankCost qos route.metrics ≤ router.rankCost qos r.metrics) ↔
      router.RanksFirst t qos := by
  constructor
  · intro htop
    have hbest : ∀ {route}, router.findRoute hsPattern hsFallback t qos none stamp = .ok route →
        ∀ m, router.Offered t qos m →
          router.rankCost qos route.metrics ≤ router.rankCost qos m := by
      intro route hroute m hm
      obtain ⟨routes, hroutes⟩ := exists_findRoutes hmax hs stamps hm
      exact (findRoutes_le_iff hmax hroutes _).mp (htop route routes hroute hroutes) m hm
    -- there is a route to compare as soon as something is on offer
    refine ⟨fun c hc m hm => ?_, fun hnone c hc m hm => ?_⟩
    · obtain ⟨route, hroute⟩ := exists_findRoute hsPattern hsFallback stamp (Or.inl ⟨c, hc⟩)
      rcases findRoute_spec hroute with hfirst | ⟨hfirst, -⟩
      · obtain rfl := Option.some.inj (hc.symm.trans hfirst)
        exact hbest hroute m hm
      · rw [hc] at hfirst
        cases hfirst
    · obtain ⟨route, hroute⟩ := exists_findRoute hsPattern hsFallback stamp (Or.inr ⟨c, hc⟩)
      rcases findRoute_spec hroute with hfirst | ⟨-, hexplored, -⟩
      · rw [hnone] at hfirst
        cases hfirst
      · exact ⟨route.metrics, hexplored, hbest hroute m hm⟩
  · intro hranks route routes hroute hroutes
    refine (findRoutes_le_iff hmax hroutes _).mpr fun m hm => ?_
    rcases findRoute_spec hroute with hfirst | ⟨hnone, hexplored, hleast⟩
    · exact hranks.chosen _ hfirst m hm
    · obtain ⟨c, hc, hle⟩ := hranks.explored hnone _ hexplored m hm
      exact (hleast c hc).trans hle

end Exact
end EconomicRouter
end ATP
