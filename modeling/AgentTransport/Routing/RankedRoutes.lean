import AgentTransport.Routing.ParetoSelection
import AgentTransport.Routing.Soundness

/-! What `find_routes` lists: routes with different agents, the cheapest first, and none that
    another of its pattern beats. Each pattern adds at most one route, so two routes of one pattern
    are both paths of the exploration, and those are all of the Pareto front. -/

namespace ATP
open F64 Collections

/-- At least as good in quality, latency and cost and strictly better in one, the latencies compared
    as the durations they are. -/
structure RouteMetrics.Beats {F : Type} [F64 F] (a b : RouteMetrics F) : Prop where
  quality : a.quality ≥ b.quality
  latency : a.latency ≤ b.latency
  cost : a.cost ≤ b.cost
  strict : a.quality > b.quality ∨ a.latency < b.latency ∨ a.cost < b.cost

theorem RouteMetrics.Beats.irrefl {F : Type} [F64 F] [OrderedF64 F] {a : RouteMetrics F}
    (h : a.Beats a) : False := by
  rcases h.strict with h | h | h
  · exact F64.lt_irrefl _ h
  · exact Nat.lt_irrefl _ h
  · exact F64.lt_irrefl _ h

/-- The selection sees that `a` beats `b` when it can tell the latency of `a` apart. -/
theorem RouteMetrics.Beats.dominates {F : Type} [F64 F] [LawfulF64 F] {a b : RouteMetrics F}
    {limit : ℕ} (h : a.Beats b) (htell : TellsApart F limit) (ha : a.latency ≤ limit) :
    a.Dominates b where
  quality := h.quality
  latency := LawfulF64.asSecs_le _ _ h.latency
  cost := h.cost
  strict := h.strict.imp_right fun hs => hs.imp_left (htell _ _ ha)

namespace EconomicRouter

section Patterns
variable {F : Type} [F64 F] {router : EconomicRouter F} {hs : RandomState (BellmanFordResult F)}
  {t : TaskType} {qos : QoSConstraints F}

/-- A collected route is that of its pattern, which is not a pipeline. -/
theorem of_mem_collectPatternRoutes {stamps : ℕ → Stamp} {route : Route F}
    (h : route ∈ router.collectPatternRoutes hs t qos stamps) : route.pattern ≠ .pipeline ∧
      ∃ i, collectedPatterns[i]? = some route.pattern ∧
        router.tryPattern hs route.pattern t qos (stamps i) = .ok route := by
  obtain ⟨⟨pattern, i⟩, hp, hok⟩ := List.mem_filterMap.mp h
  have hpattern : collectedPatterns[i]? = some pattern := List.mem_zipIdx_iff_getElem?.mp hp
  cases htry : router.tryPattern hs pattern t qos (stamps i) with
  | error e => simp [htry, Except.toOption] at hok
  | ok r =>
    simp only [htry, Except.toOption, Option.some.injEq] at hok
    subst hok
    obtain rfl := tryPattern_pattern htry
    refine ⟨?_, i, hpattern, htry⟩
    have hmem := List.mem_of_getElem? hpattern
    intro hpipe
    rw [hpipe] at hmem
    exact absurd hmem (by decide)

/-- No pattern adds two routes. -/
theorem collectPatternRoutes_unique {stamps : ℕ → Stamp} {a b : Route F}
    (ha : a ∈ router.collectPatternRoutes hs t qos stamps)
    (hb : b ∈ router.collectPatternRoutes hs t qos stamps) (h : a.pattern = b.pattern) : a = b := by
  obtain ⟨-, i, hi, ha⟩ := of_mem_collectPatternRoutes ha
  obtain ⟨-, j, hj, hb⟩ := of_mem_collectPatternRoutes hb
  have hnodup : collectedPatterns.Nodup := by decide
  have hlt : i < collectedPatterns.length := (List.getElem?_eq_some_iff.mp hi).1
  obtain rfl : i = j := (List.getElem?_inj hlt hnodup).mp (by rw [hi, hj, h])
  rw [h, hb] at ha
  exact (Except.ok.inj ha).symm

theorem of_mem_pipelineRoutes {stamps : ℕ → Stamp} {route : Route F}
    (h : route ∈ router.pipelineRoutes hs t qos stamps) : route.pattern = .pipeline ∧
      ∃ top x, router.explore hs t qos router.config.maxRoutes = .ok top ∧ x ∈ top ∧
        route.metrics = x.metrics := by
  unfold pipelineRoutes at h
  split at h
  · rename_i top he
    obtain ⟨⟨x, i⟩, hx, rfl⟩ := List.mem_map.mp h
    exact ⟨rfl, top, x, he, List.mem_of_getElem? (List.mem_zipIdx_iff_getElem?.mp hx), rfl⟩
  · simp at h

/-- All routes of `find_routes`, before they are sorted. -/
def allRoutes (router : EconomicRouter F) (hs : RandomState (BellmanFordResult F)) (t : TaskType)
    (qos : QoSConstraints F) (stamps : ℕ → Stamp) : List (Route F) :=
  router.collectPatternRoutes hs t qos stamps ++ router.pipelineRoutes hs t qos stamps

/-- `find_routes` sorts all routes, drops repeated lists of agents, and keeps the first. -/
theorem findRoutes_sorted {stamps : ℕ → Stamp} {routes : List (Route F)}
    (h : router.findRoutes hs t qos stamps = .ok routes) :
    routes = (retainNew (·.agents) [] (sortAsc (fun route => router.costModel.scalarRouteCost
      route.metrics (CostModel.weightsFromConstraints qos))
        (router.allRoutes hs t qos stamps))).take router.config.maxRoutes := by
  simp only [findRoutes] at h
  cases hv : router.graph.validate with
  | error e => rw [hv] at h; simp [Bind.bind, Except.bind] at h
  | ok u =>
    rw [hv] at h
    simp only [Bind.bind, Except.bind] at h
    split at h
    · simp at h
    · exact (Except.ok.inj h).symm

end Patterns

section Consistent
variable {F : Type} [F64 F] {g : AgentGraph F} {t : TaskType} {minTrust : F}
  {results : List (BellmanFordResult F)}

/-- Candidates of an exploration with one path have the metrics of that path. -/
theorem consistent_of_sound (h : ∀ r ∈ results, r.Sound g t minTrust) : Consistent results := by
  intro a ha b hb hpath
  have hma := (h a ha).metrics
  rw [hpath, (h b hb).metrics] at hma
  exact (Option.some.inj hma).symm

end Consistent

section Rounded
variable {F : Type} [F64 F] {router : EconomicRouter F} {hs : RandomState (BellmanFordResult F)}
  {t : TaskType} {qos : QoSConstraints F}

/-- The routes of an exploration meet the constraints. -/
theorem explore_meets {n : ℕ} {top : List (ParetoRoute F)}
    (h : router.explore hs t qos n = .ok top) : ∀ x ∈ top, x.metrics.Meets qos := by
  intro x hx
  obtain ⟨results, -, -, hselect⟩ := explore_eq_ok h
  obtain ⟨y, hy, -, hmetrics⟩ := of_mem_selectTopRoutes hselect x hx
  rw [hmetrics]
  exact (of_mem_feasibleRoutes hy).2

/-- The routes of an exploration are all of the front. -/
theorem explore_undominated [OrderedF64 F] (htell : TellsApart F qos.maxLatency) {n : ℕ}
    {top : List (ParetoRoute F)} (h : router.explore hs t qos n = .ok top) :
    ∀ x ∈ top, ∀ y ∈ top, ¬ y.metrics.Dominates x.metrics := by
  intro x hx y hy
  obtain ⟨results, hsound, -, hselect⟩ := explore_eq_ok h
  have hc := consistent_of_sound hsound
  obtain ⟨x', hx', -, hmx⟩ := of_mem_selectTopRoutes hselect x hx
  obtain ⟨y', hy', -, hmy⟩ := of_mem_selectTopRoutes hselect y hy
  rw [feasibleRoutes_eq hc htell] at hx'
  obtain ⟨⟨r, hr, rfl⟩, -⟩ := of_mem_feasibleRoutes hy'
  rw [hmx, hmy]
  exact front_undominated hc (mem_filterByConstraints.mp hx').1 r hr

/-- The list of `find_routes`: different agents, at most as many as configured, in the order of
    their scalar costs when these are numbers, and, up to a deadline below which no two durations
    have the same seconds, no route beaten by another of its pattern. -/
theorem findRoutes_ranked [LawfulF64 F] {stamps : ℕ → Stamp} {routes : List (Route F)}
    (h : router.findRoutes hs t qos stamps = .ok routes) :
    (routes.map (·.agents)).Nodup ∧ routes.length ≤ router.config.maxRoutes ∧
      ((∀ r ∈ router.allRoutes hs t qos stamps, IsNum (router.costModel.scalarRouteCost r.metrics
          (CostModel.weightsFromConstraints qos))) →
        routes.Pairwise (fun a b =>
          router.costModel.scalarRouteCost a.metrics (CostModel.weightsFromConstraints qos) ≤
            router.costModel.scalarRouteCost b.metrics (CostModel.weightsFromConstraints qos))) ∧
      (TellsApart F qos.maxLatency →
        ∀ a ∈ routes, ∀ b ∈ routes, a.pattern = b.pattern → ¬ a.metrics.Beats b.metrics) := by
  have hall : ∀ r ∈ routes, r ∈ router.allRoutes hs t qos stamps := by
    intro r hr
    rw [findRoutes_sorted h] at hr
    exact mem_sortAsc.mp (mem_of_mem_retainNew _ (List.mem_of_mem_take hr))
  refine ⟨?_, ?_, fun hnum => ?_, fun htell a ha b hb hpattern hbeats => ?_⟩
  · rw [findRoutes_sorted h, List.map_take]
    exact (nodup_map_retainNew _ _ _).1.sublist (List.take_sublist _ _)
  · rw [findRoutes_sorted h]
    exact List.length_take_le _ _
  · rw [findRoutes_sorted h]
    exact (pairwise_sortAsc_of_isNum hnum).sublist
      ((List.take_sublist _ _).trans (retainNew_sublist _ _ _))
  -- each of the four builders adds one route, so two of one pattern come from the front
  · rcases List.mem_append.mp (hall a ha) with ha | ha
    · rcases List.mem_append.mp (hall b hb) with hb | hb
      · obtain rfl := collectPatternRoutes_unique ha hb hpattern
        exact hbeats.irrefl
      · rw [(of_mem_pipelineRoutes hb).1] at hpattern
        exact (of_mem_collectPatternRoutes ha).1 hpattern
    · rcases List.mem_append.mp (hall b hb) with hb | hb
      · rw [(of_mem_pipelineRoutes ha).1] at hpattern
        exact (of_mem_collectPatternRoutes hb).1 hpattern.symm
      · obtain ⟨-, top, x, htop, hx, hmx⟩ := of_mem_pipelineRoutes ha
        obtain ⟨-, top', y, htop', hy, hmy⟩ := of_mem_pipelineRoutes hb
        obtain rfl := Except.ok.inj (htop.symm.trans htop')
        rw [hmx, hmy] at hbeats
        exact explore_undominated htell htop y hy x hx
          (hbeats.dominates htell (explore_meets htop x hx).latency)

end Rounded

theorem findRoutes_ranked_twins :
    let qos : QoSConstraints ℚ := ⟨1 / 2, Duration.secs 10, 5, 1 / 2⟩
    ∃ routes, twins.findRoutes (.insertion _) .analysis qos (fun i => ⟨i, 0⟩) = .ok routes ∧
      (routes.map (·.agents)).Nodup ∧
      ∀ a ∈ routes, ∀ b ∈ routes, a.pattern = b.pattern → ¬ a.metrics.Beats b.metrics := by
  intro qos
  obtain ⟨routes, hroutes⟩ := exists_ok (e := twins.findRoutes (.insertion _) .analysis qos
    (fun i => ⟨i, 0⟩)) (by decide +kernel)
  obtain ⟨hnodup, -, -, hundominated⟩ := findRoutes_ranked hroutes
  exact ⟨routes, hroutes, hnodup, hundominated (tellsApart_field ℚ _)⟩

/-- Rounding lists a beaten route: of two analysts that differ by a nanosecond in 230 days both
    pipelines are listed. And where no cost is too high, an infinite gain costs a NaN, which stands
    in no order. -/
theorem rounding_lists_beaten :
    let slow : EconomicRouter Double := separate
      [(lit (8 / 10), ⟨.analysis, lit (9 / 10), Duration.secs 20000000, lit (1 / 10)⟩),
        (lit (8 / 10), ⟨.analysis, lit (9 / 10), Duration.secs 20000000 + 1, lit (1 / 10)⟩)]
    let patient : QoSConstraints Double :=
      ⟨lit (1 / 2), Duration.secs 20000001, lit 5, lit (1 / 2)⟩
    let paying : EconomicRouter Double := separate
      [(lit (8 / 10), ⟨.analysis, lit (9 / 10), Duration.millis 100, lit 1⟩),
        (lit (8 / 10), ⟨.analysis, lit (8 / 10), Duration.millis 50, -Double.infinity⟩)]
    let boundless : QoSConstraints Double :=
      ⟨lit (1 / 2), Duration.secs 10, Double.infinity, lit (1 / 2)⟩
    (∃ routes, slow.findRoutes (.insertion _) .analysis patient (fun i => ⟨i, 0⟩) = .ok routes ∧
      ∃ a ∈ routes, ∃ b ∈ routes, a.pattern = b.pattern ∧ a.metrics.Beats b.metrics) ∧
    0 ≤ boundless.maxCost ∧ ∃ routes,
      paying.findRoutes (.insertion _) .analysis boundless (fun i => ⟨i, 0⟩) = .ok routes ∧
        ¬ routes.Pairwise fun a b =>
          paying.costModel.scalarRouteCost a.metrics (CostModel.weightsFromConstraints boundless) ≤
            paying.costModel.scalarRouteCost b.metrics
              (CostModel.weightsFromConstraints boundless) := by
  intro slow patient paying boundless
  -- the two counterexamples are evaluated as one decision each
  have hbeaten : (slow.findRoutes (.insertion _) .analysis patient
      (fun i => ⟨i, 0⟩)).toOption.any (fun routes => routes.any fun a => routes.any fun b =>
        decide (a.pattern = b.pattern ∧ a.metrics.quality ≥ b.metrics.quality ∧
          a.metrics.latency < b.metrics.latency ∧ a.metrics.cost ≤ b.metrics.cost)) = true := by
    decide +kernel
  have hunsorted : (paying.findRoutes (.insertion _) .analysis boundless
      (fun i => ⟨i, 0⟩)).toOption.any (fun routes => decide (¬ routes.Pairwise fun a b =>
        paying.costModel.scalarRouteCost a.metrics (CostModel.weightsFromConstraints boundless) ≤
          paying.costModel.scalarRouteCost b.metrics
            (CostModel.weightsFromConstraints boundless))) = true := by
    decide +kernel
  obtain ⟨routes, hroutes, hany⟩ := (Option.any_eq_true _ _).mp hbeaten
  obtain ⟨a, ha, hany⟩ := List.any_eq_true.mp hany
  obtain ⟨b, hb, hab⟩ := List.any_eq_true.mp hany
  obtain ⟨hpattern, hquality, hlatency, hcost⟩ := of_decide_eq_true hab
  obtain ⟨routes', hroutes', hnot⟩ := (Option.any_eq_true _ _).mp hunsorted
  exact ⟨⟨routes, eq_ok_of_toOption hroutes, a, ha, b, hb, hpattern,
    ⟨hquality, hlatency.le, hcost, Or.inr (Or.inl hlatency)⟩⟩, by decide +kernel, routes',
    eq_ok_of_toOption hroutes', of_decide_eq_true hnot⟩

end EconomicRouter
end ATP
