import AgentTransport.Routing.Optimizer
import AgentTransport.Routing.ScalarCost
import AgentTransport.Lib.StableSort
import AgentTransport.Lib.Double

/-! Selection from the Pareto front loses nothing. Above every candidate there is a route of the
    front; a route that is above a feasible one is feasible, and costs no more. So the dominated
    candidates are never needed:

        candidate meets the constraints ─▶ some front route above it meets them, at no more cost

    Dropping all but one candidate of a path needs that candidates with one path have the same
    metrics. And the front compares latencies in rounded seconds, the constraints in nanoseconds: a
    route above a feasible one is feasible only up to a deadline below which no two durations have
    the same seconds. -/

namespace ATP
open F64 Collections

/-- Candidates with the same path have the same metrics. -/
def Consistent {F : Type} (results : List (BellmanFordResult F)) : Prop :=
  ∀ a ∈ results, ∀ b ∈ results, a.path = b.path → a.metrics = b.metrics

section Front
variable {F : Type} [F64 F] {hs : RandomState (BellmanFordResult F)}
  {results : List (BellmanFordResult F)}

/-- The candidate kept for a path has the metrics of every candidate with that path. -/
theorem exists_representative (hs : RandomState (BellmanFordResult F)) (hc : Consistent results)
    {r : BellmanFordResult F} (hr : r ∈ results) :
    ∃ u ∈ uniqueCandidates hs results, u.path = r.path ∧ u.metrics = r.metrics := by
  obtain ⟨u, hu, hpath⟩ := exists_uniqueCandidate hs hr
  exact ⟨u, hu, hpath, hc u (of_mem_uniqueCandidates hu) r hr hpath⟩

variable [OrderedF64 F]

theorem exists_front_above_result (hs : RandomState (BellmanFordResult F))
    (hc : Consistent results) {r : BellmanFordResult F} (hr : r ∈ results) :
    ∃ x ∈ paretoFront hs results, x.metrics = r.metrics ∨ x.metrics.Dominates r.metrics := by
  obtain ⟨u, hu, -, hmetrics⟩ := exists_representative hs hc hr
  rw [← hmetrics]
  exact exists_front_above hs hu

/-- No candidate dominates a route of the front. -/
theorem front_undominated (hc : Consistent results) {x : ParetoRoute F}
    (hx : x ∈ paretoFront hs results) : ∀ r ∈ results, ¬ r.metrics.Dominates x.metrics := by
  intro r hr hdom
  obtain ⟨y, -, hbest, rfl⟩ := mem_paretoFront.mp hx
  obtain ⟨u, hu, -, hmetrics⟩ := exists_representative hs hc hr
  rw [← hmetrics] at hdom
  exact hbest u hu hdom

end Front

section Select
variable {F : Type} [F64 F] {hs : RandomState (BellmanFordResult F)}
  {results : List (BellmanFordResult F)} {qos : QoSConstraints F} {w : CostWeights F}
  {cm : CostModel F} {maxRoutes : ℕ}

theorem selectTopRoutes_error_iff : selectTopRoutes hs results qos w cm maxRoutes =
    .error .noFeasibleRoute ↔ ¬ ∃ top, selectTopRoutes hs results qos w cm maxRoutes = .ok top := by
  simp only [selectTopRoutes]
  split
  · simp
  · split <;> simp

section Order
variable [OrderedF64 F]

/-- What is above metrics that meet the constraints meets them. -/
theorem RouteMetrics.Dominates.meets {a b : RouteMetrics F} (h : a.Dominates b)
    (htell : TellsApart F qos.maxLatency) (hb : b.Meets qos) : a.Meets qos where
  quality := F64.le_trans hb.quality h.quality
  latency := (htell.le_of_le hb.latency h.latency).trans hb.latency
  cost := F64.le_trans h.cost hb.cost

/-- The dominated candidates are never looked at: with none of the front, there is none at all. -/
theorem feasibleRoutes_eq (hc : Consistent results) (htell : TellsApart F qos.maxLatency) :
    feasibleRoutes hs results qos = filterByConstraints (paretoFront hs results) qos := by
  simp only [feasibleRoutes]
  split
  · rename_i hempty
    rw [List.isEmpty_iff] at hempty
    rw [hempty, ← List.isEmpty_iff, ← Bool.not_eq_false, List.isEmpty_eq_false_iff]
    intro hne
    obtain ⟨y, hy⟩ := List.exists_mem_of_ne_nil _ hne
    obtain ⟨hy, hmeets⟩ := mem_filterByConstraints.mp hy
    obtain ⟨r, hr, rfl⟩ := List.mem_map.mp hy
    obtain ⟨x, hx, heq | hdom⟩ := exists_front_above_result hs hc hr
    · exact List.ne_nil_of_mem (mem_filterByConstraints.mpr ⟨hx, heq ▸ hmeets⟩) hempty
    · exact List.ne_nil_of_mem
        (mem_filterByConstraints.mpr ⟨hx, hdom.meets htell hmeets⟩) hempty
  · rfl

/-- A ranked list is sorted by the scalar costs of its metrics. -/
theorem pairwise_rankRoutes {routes : List (ParetoRoute F)}
    (hnum : ∀ x ∈ routes, IsNum (cm.scalarRouteCost x.metrics w)) :
    (rankRoutes routes w cm).Pairwise fun x y =>
      cm.scalarRouteCost x.metrics w ≤ cm.scalarRouteCost y.metrics w := by
  let ranked := routes.map fun r => { r with scalarCost := cm.scalarRouteCost r.metrics w }
  have hcost : ∀ x ∈ ranked,
      x.scalarCost = cm.scalarRouteCost x.metrics w ∧ IsNum x.scalarCost := by
    intro x hx
    obtain ⟨y, hy, rfl⟩ := List.mem_map.mp hx
    exact ⟨rfl, hnum y hy⟩
  have hsorted : (rankRoutes routes w cm).Pairwise fun x y => x.scalarCost ≤ y.scalarCost :=
    pairwise_sortAsc_of_isNum fun x hx => (hcost x hx).2
  refine hsorted.imp_of_mem fun {x y} hx hy hle => ?_
  rw [← (hcost x (mem_sortAsc.mp hx)).1, ← (hcost y (mem_sortAsc.mp hy)).1]
  exact hle

/-- The first of the selected routes is a cheapest one. -/
theorem selectTopRoutes_head_le {routes : List (ParetoRoute F)}
    (hnum : ∀ x ∈ routes, IsNum (cm.scalarRouteCost x.metrics w)) {x y : ParetoRoute F}
    (hx : ((retainNew (·.path) [] (rankRoutes routes w cm)).take maxRoutes).head? = some x)
    (hy : y ∈ routes) : cm.scalarRouteCost x.metrics w ≤ cm.scalarRouteCost y.metrics w := by
  have hhead : (rankRoutes routes w cm).head? = some x := by
    rw [← head?_retainNew (·.path), ← hx, List.head?_take, if_neg]
    rintro rfl
    simp at hx
  obtain ⟨rest, hrest⟩ := List.head?_eq_some_iff.mp hhead
  have hmem : { y with scalarCost := cm.scalarRouteCost y.metrics w } ∈ rankRoutes routes w cm := by
    rw [rankRoutes, mem_sortAsc]
    exact List.mem_map_of_mem hy
  have hsorted := pairwise_rankRoutes hnum
  rw [hrest] at hmem hsorted
  rcases List.mem_cons.mp hmem with rfl | hmem
  · exact hnum y hy
  · have hle := (List.pairwise_cons.mp hsorted).1 _ hmem
    exact hle

end Order

variable [RoundedF64 F]

theorem RouteMetrics.Dominates.scalarRouteCost_le {a b : RouteMetrics F} (h : a.Dominates b)
    (hw : w.NonNeg) (hcm : cm.Positive) (ha : cm.Measures w a) (hb : cm.Measures w b) :
    cm.scalarRouteCost a w ≤ cm.scalarRouteCost b w :=
  CostModel.weighted_mono hw hcm h.quality h.latency h.cost ha.ratio hb.ratio ha.total hb.total

/-- Some route of the front is at least as good as a candidate that meets the constraints. -/
theorem exists_feasible_front (hs : RandomState (BellmanFordResult F)) (hc : Consistent results)
    (hw : w.NonNeg) (hcm : cm.Positive) (htell : TellsApart F qos.maxLatency)
    (hnum : ∀ r ∈ results, r.metrics.Meets qos → cm.Measures w r.metrics)
    {r : BellmanFordResult F} (hr : r ∈ results) (hmeets : r.metrics.Meets qos) :
    ∃ x ∈ filterByConstraints (paretoFront hs results) qos,
      cm.scalarRouteCost x.metrics w ≤ cm.scalarRouteCost r.metrics w := by
  obtain ⟨x, hx, heq | hdom⟩ := exists_front_above_result hs hc hr
  · refine ⟨x, mem_filterByConstraints.mpr ⟨hx, heq ▸ hmeets⟩, ?_⟩
    rw [heq]
    exact (hnum r hr hmeets).total
  · have hxmeets := hdom.meets htell hmeets
    obtain ⟨y, hy, rfl, -⟩ := of_mem_paretoFront hx
    have hxnum := hnum y (of_mem_uniqueCandidates hy) hxmeets
    exact ⟨_, mem_filterByConstraints.mpr ⟨hx, hxmeets⟩,
      hdom.scalarRouteCost_le hw hcm hxnum (hnum r hr hmeets)⟩

/-- Three candidates at the deadline: the best is one nanosecond late, but its rounded seconds are
    those of the second, which it hides. -/
def late : List (BellmanFordResult Double) :=
  [⟨.default, [0], 0, ⟨lit (9 / 10), Duration.secs 20000000 + 1, lit (1 / 10)⟩⟩,
    ⟨.default, [1], 0, ⟨lit (8 / 10), Duration.secs 20000000, lit (1 / 10)⟩⟩,
    ⟨.default, [2], 0, ⟨lit (5 / 10), Duration.secs 1, lit (2 / 10)⟩⟩]

/-- A candidate without any loss of quality. -/
def perfect : BellmanFordResult Double :=
  ⟨.default, [0], 0, ⟨lit 1, Duration.secs 1, lit (1 / 10)⟩⟩

end Select
end ATP
