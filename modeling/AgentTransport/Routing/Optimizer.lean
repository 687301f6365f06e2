import AgentTransport.Routing.BellmanFord
import AgentTransport.Lib.Dominance

/-! Pareto-front route selection: of the candidates, keep the routes that no other beats on all
    three objectives, filter them by the QoS constraints and rank them by scalar cost. Only when no
    route of the front meets the constraints are the dominated candidates looked at. -/

namespace ATP
open F64 Collections
variable {F : Type} [F64 F]

/-- A route on the Pareto front with its associated metadata. -/
structure ParetoRoute (F : Type) where
  path : List ℕ
  metrics : RouteMetrics F
  scalarCost : F

/-- `a` is at least as good on all objectives and strictly better on at least one. -/
def dominates (a b : RouteMetrics F) : Bool :=
  (decide (a.quality ≥ b.quality) && decide ((asSecs a.latency : F) ≤ asSecs b.latency) &&
    decide (a.cost ≤ b.cost)) &&
  (decide (a.quality > b.quality) || decide ((asSecs a.latency : F) < asSecs b.latency) ||
    decide (a.cost < b.cost))

/-- Enter a candidate under its path unless one with no larger scalar cost is there. -/
def keepBest (m : HashMap (List ℕ) (BellmanFordResult F)) (r : BellmanFordResult F) :
    HashMap (List ℕ) (BellmanFordResult F) :=
  match m.lookup r.path with
  | some existing => if r.scalarCost < existing.scalarCost then m.insert r.path r else m
  | none => m.insert r.path r

/-- The best candidate of each path, in the order the map yields them. -/
def uniqueCandidates (hs : RandomState (BellmanFordResult F))
    (results : List (BellmanFordResult F)) : List (BellmanFordResult F) :=
  hs.order ((results.foldl keepBest ∅).entries.map (·.2))

def BellmanFordResult.toPareto (r : BellmanFordResult F) : ParetoRoute F :=
  ⟨r.path, r.metrics, r.scalarCost⟩

/-- Another candidate dominates the one at position `i`. -/
def isDominated (candidates : List (BellmanFordResult F)) (candidate : BellmanFordResult F)
    (i : ℕ) : Bool :=
  candidates.zipIdx.any fun p => decide (i ≠ p.2) && dominates p.1.metrics candidate.metrics

/-- Extract the Pareto front from a set of Bellman-Ford results. -/
def paretoFront (hs : RandomState (BellmanFordResult F)) (results : List (BellmanFordResult F)) :
    List (ParetoRoute F) :=
  let candidates := uniqueCandidates hs results
  (candidates.zipIdx.filter fun p => !isDominated candidates p.1 p.2).map (·.1.toPareto)

/-- Filter Pareto routes by QoS constraints. -/
def filterByConstraints (routes : List (ParetoRoute F)) (qos : QoSConstraints F) :
    List (ParetoRoute F) :=
  routes.filter fun r => CostModel.satisfiesConstraints r.metrics qos

/-- Rank routes by scalar cost under given weights (lowest first). -/
def rankRoutes (routes : List (ParetoRoute F)) (w : CostWeights F) (cm : CostModel F) :
    List (ParetoRoute F) :=
  sortAsc (·.scalarCost)
    (routes.map fun r => { r with scalarCost := cm.scalarRouteCost r.metrics w })

/-- The routes to rank: those of the front that meet the constraints, or else all candidates that
    do. -/
def feasibleRoutes (hs : RandomState (BellmanFordResult F)) (results : List (BellmanFordResult F))
    (qos : QoSConstraints F) : List (ParetoRoute F) :=
  let feasible := filterByConstraints (paretoFront hs results) qos
  if feasible.isEmpty then filterByConstraints (results.map (·.toPareto)) qos else feasible

/-- Select the top routes from the Pareto front, filtered by constraints and ranked by weighted
    cost. -/
def selectTopRoutes (hs : RandomState (BellmanFordResult F))
    (results : List (BellmanFordResult F)) (qos : QoSConstraints F) (w : CostWeights F)
    (cm : CostModel F) (maxRoutes : ℕ) : Except RoutingError (List (ParetoRoute F)) :=
  if (paretoFront hs results).isEmpty then .error .noFeasibleRoute
  else
    let feasible := feasibleRoutes hs results qos
    if feasible.isEmpty then .error .noFeasibleRoute
    else .ok ((retainNew (·.path) [] (rankRoutes feasible w cm)).take maxRoutes)

/-! ### Dominance -/

/-- Dominance of metrics, as a proposition. -/
structure RouteMetrics.Dominates (a b : RouteMetrics F) : Prop where
  quality : a.quality ≥ b.quality
  latency : (asSecs a.latency : F) ≤ asSecs b.latency
  cost : a.cost ≤ b.cost
  strict : a.quality > b.quality ∨ (asSecs a.latency : F) < asSecs b.latency ∨ a.cost < b.cost

theorem dominates_iff {a b : RouteMetrics F} : dominates a b = true ↔ a.Dominates b := by
  simp only [dominates, Bool.and_eq_true, Bool.or_eq_true, decide_eq_true_eq]
  constructor
  · rintro ⟨⟨⟨hq, hl⟩, hc⟩, (hs | hs) | hs⟩
    · exact ⟨hq, hl, hc, Or.inl hs⟩
    · exact ⟨hq, hl, hc, Or.inr (Or.inl hs)⟩
    · exact ⟨hq, hl, hc, Or.inr (Or.inr hs)⟩
  · rintro ⟨hq, hl, hc, hs | hs | hs⟩
    · exact ⟨⟨⟨hq, hl⟩, hc⟩, Or.inl (Or.inl hs)⟩
    · exact ⟨⟨⟨hq, hl⟩, hc⟩, Or.inl (Or.inr hs)⟩
    · exact ⟨⟨⟨hq, hl⟩, hc⟩, Or.inr hs⟩

section Order
variable [OrderedF64 F]

theorem RouteMetrics.Dominates.irrefl (a : RouteMetrics F) : ¬ a.Dominates a := by
  intro h
  rcases h.strict with h | h | h <;> exact F64.lt_irrefl _ h

theorem RouteMetrics.Dominates.trans {a b c : RouteMetrics F} (hab : a.Dominates b)
    (hbc : b.Dominates c) : a.Dominates c where
  quality := F64.le_trans hbc.quality hab.quality
  latency := F64.le_trans hab.latency hbc.latency
  cost := F64.le_trans hab.cost hbc.cost
  strict := by
    rcases hab.strict with h | h | h
    · exact Or.inl (F64.lt_of_le_of_lt hbc.quality h)
    · exact Or.inr (Or.inl (F64.lt_of_lt_of_le h hbc.latency))
    · exact Or.inr (Or.inr (F64.lt_of_lt_of_le h hbc.cost))

end Order

/-! ### Selection returns candidates -/

/-- The map holds, under each path, a candidate with that path. -/
theorem keepBest_sound : ∀ (results : List (BellmanFordResult F))
    (m : HashMap (List ℕ) (BellmanFordResult F)) (p : List ℕ) (r : BellmanFordResult F),
    (results.foldl keepBest m).lookup p = some r →
      m.lookup p = some r ∨ r ∈ results ∧ r.path = p
  | [], _, _, _, h => Or.inl h
  | x :: xs, m, p, r, h => by
    rcases keepBest_sound xs (keepBest m x) p r h with h | ⟨hr, hp⟩
    · have hins : (m.insert x.path x).lookup p = some r →
          m.lookup p = some r ∨ r ∈ x :: xs ∧ r.path = p := by
        intro h
        rcases eq_or_ne p x.path with rfl | hp
        · rw [AList.lookup_insert] at h
          obtain rfl := Option.some.inj h
          exact Or.inr ⟨List.mem_cons_self, rfl⟩
        · rw [AList.lookup_insert_ne hp] at h
          exact Or.inl h
      unfold keepBest at h
      split at h
      · split at h
        · exact hins h
        · exact Or.inl h
      · exact hins h
    · exact Or.inr ⟨List.mem_cons_of_mem _ hr, hp⟩

/-- Every path of a candidate stays in the map. -/
theorem keepBest_complete : ∀ (results : List (BellmanFordResult F))
    (m : HashMap (List ℕ) (BellmanFordResult F)) (p : List ℕ),
    ((m.lookup p).isSome ∨ ∃ r ∈ results, r.path = p) →
      ((results.foldl keepBest m).lookup p).isSome
  | [], _, _, h => by simpa using h
  | x :: xs, m, p, h => by
    refine keepBest_complete xs (keepBest m x) p ?_
    -- a candidate replaces one of the same path, or comes in under a new one
    have hkeep : (m.lookup p).isSome ∨ x.path = p → ((keepBest m x).lookup p).isSome := by
      intro h
      rcases eq_or_ne p x.path with rfl | hp
      · unfold keepBest
        split
        · split
          · simp
          · simp [*]
        · simp
      · have hm := h.resolve_right (fun h => hp h.symm)
        unfold keepBest
        split
        · split
          · rw [AList.lookup_insert_ne hp]; exact hm
          · exact hm
        · rw [AList.lookup_insert_ne hp]; exact hm
    rcases h with h | ⟨r, hr, hp⟩
    · exact Or.inl (hkeep (Or.inl h))
    · rcases List.mem_cons.mp hr with rfl | hr
      · exact Or.inl (hkeep (Or.inr hp))
      · exact Or.inr ⟨r, hr, hp⟩

theorem mem_uniqueCandidates {hs : RandomState (BellmanFordResult F)}
    {results : List (BellmanFordResult F)} {r : BellmanFordResult F} :
    r ∈ uniqueCandidates hs results ↔ ∃ p, (results.foldl keepBest ∅).lookup p = some r := by
  rw [uniqueCandidates, RandomState.mem_order, List.mem_map]
  constructor
  · rintro ⟨⟨p, r⟩, h, rfl⟩
    exact ⟨p, AList.mem_lookup_iff.mpr h⟩
  · rintro ⟨p, h⟩
    exact ⟨⟨p, r⟩, AList.mem_lookup_iff.mp h, rfl⟩

theorem of_mem_uniqueCandidates {hs : RandomState (BellmanFordResult F)}
    {results : List (BellmanFordResult F)} {r : BellmanFordResult F}
    (h : r ∈ uniqueCandidates hs results) : r ∈ results := by
  obtain ⟨p, hp⟩ := mem_uniqueCandidates.mp h
  rcases keepBest_sound results ∅ p r hp with h | ⟨h, _⟩
  · simp at h
  · exact h

/-- Each path of the candidates has its representative. -/
theorem exists_uniqueCandidate (hs : RandomState (BellmanFordResult F))
    {results : List (BellmanFordResult F)} {r : BellmanFordResult F} (h : r ∈ results) :
    ∃ u ∈ uniqueCandidates hs results, u.path = r.path := by
  obtain ⟨u, hu⟩ := Option.isSome_iff_exists.mp
    (keepBest_complete results ∅ r.path (Or.inr ⟨r, h, rfl⟩))
  refine ⟨u, mem_uniqueCandidates.mpr ⟨_, hu⟩, ?_⟩
  rcases keepBest_sound results ∅ r.path u hu with h | ⟨_, h⟩
  · simp at h
  · exact h

theorem of_mem_paretoFront {hs : RandomState (BellmanFordResult F)}
    {results : List (BellmanFordResult F)} {x : ParetoRoute F} (h : x ∈ paretoFront hs results) :
    ∃ r ∈ uniqueCandidates hs results, x = r.toPareto ∧
      ∃ i, isDominated (uniqueCandidates hs results) r i = false := by
  simp only [paretoFront, List.mem_map, List.mem_filter, Bool.not_eq_true',
    List.mem_zipIdx_iff_getElem?, Prod.exists] at h
  obtain ⟨r, i, ⟨hr, hd⟩, rfl⟩ := h
  exact ⟨r, List.mem_of_getElem? hr, rfl, i, hd⟩

theorem mem_filterByConstraints {routes : List (ParetoRoute F)} {qos : QoSConstraints F}
    {x : ParetoRoute F} :
    x ∈ filterByConstraints routes qos ↔ x ∈ routes ∧ x.metrics.Meets qos := by
  rw [filterByConstraints, List.mem_filter, satisfiesConstraints_iff]

/-- Every feasible route is a candidate that meets the constraints. -/
theorem of_mem_feasibleRoutes {hs : RandomState (BellmanFordResult F)}
    {results : List (BellmanFordResult F)} {qos : QoSConstraints F} {x : ParetoRoute F}
    (h : x ∈ feasibleRoutes hs results qos) :
    (∃ r ∈ results, x = r.toPareto) ∧ x.metrics.Meets qos := by
  simp only [feasibleRoutes] at h
  split at h
  · obtain ⟨hx, hm⟩ := mem_filterByConstraints.mp h
    obtain ⟨r, hr, rfl⟩ := List.mem_map.mp hx
    exact ⟨⟨r, hr, rfl⟩, hm⟩
  · obtain ⟨hx, hm⟩ := mem_filterByConstraints.mp h
    obtain ⟨r, hr, rfl, _⟩ := of_mem_paretoFront hx
    exact ⟨⟨r, of_mem_uniqueCandidates hr, rfl⟩, hm⟩

theorem feasibleRoutes_ne_nil_iff {hs : RandomState (BellmanFordResult F)}
    {results : List (BellmanFordResult F)} {qos : QoSConstraints F} :
    feasibleRoutes hs results qos ≠ [] ↔ ∃ r ∈ results, r.metrics.Meets qos := by
  constructor
  · intro h
    obtain ⟨x, hx⟩ := List.exists_mem_of_ne_nil _ h
    obtain ⟨⟨r, hr, rfl⟩, hm⟩ := of_mem_feasibleRoutes hx
    exact ⟨r, hr, hm⟩
  · rintro ⟨r, hr, hm⟩
    simp only [feasibleRoutes]
    split
    · exact List.ne_nil_of_mem
        (mem_filterByConstraints.mpr ⟨List.mem_map.mpr ⟨r, hr, rfl⟩, hm⟩)
    · rename_i h
      exact fun hnil => h (List.isEmpty_iff.mpr hnil)

/-- Ranking changes the scalar cost only. -/
theorem mem_rankRoutes {routes : List (ParetoRoute F)} {w : CostWeights F} {cm : CostModel F}
    {x : ParetoRoute F} (h : x ∈ rankRoutes routes w cm) :
    ∃ r ∈ routes, x.path = r.path ∧ x.metrics = r.metrics := by
  rw [rankRoutes, mem_sortAsc, List.mem_map] at h
  obtain ⟨r, hr, rfl⟩ := h
  exact ⟨r, hr, rfl, rfl⟩

/-- What a successful selection returns. -/
theorem selectTopRoutes_eq_ok {hs : RandomState (BellmanFordResult F)}
    {results : List (BellmanFordResult F)} {qos : QoSConstraints F} {w : CostWeights F}
    {cm : CostModel F} {n : ℕ} {top : List (ParetoRoute F)} :
    selectTopRoutes hs results qos w cm n = .ok top ↔ paretoFront hs results ≠ [] ∧
      feasibleRoutes hs results qos ≠ [] ∧
      top = (retainNew (·.path) [] (rankRoutes (feasibleRoutes hs results qos) w cm)).take n := by
  unfold selectTopRoutes
  by_cases hf : paretoFront hs results = []
  · simp [hf]
  · by_cases hr : feasibleRoutes hs results qos = []
    · simp [hf, hr]
    · rw [if_neg (by simpa using hf)]
      simp only [List.isEmpty_iff, hr, if_false, Except.ok.injEq, ne_eq, not_false_eq_true, hf,
        true_and]
      exact eq_comm

/-- A selected route has the path and the metrics of a feasible one. -/
theorem of_mem_selectTopRoutes {hs : RandomState (BellmanFordResult F)}
    {results : List (BellmanFordResult F)} {qos : QoSConstraints F} {w : CostWeights F}
    {cm : CostModel F} {n : ℕ} {top : List (ParetoRoute F)}
    (h : selectTopRoutes hs results qos w cm n = .ok top) :
    ∀ x ∈ top, ∃ y ∈ feasibleRoutes hs results qos, x.path = y.path ∧ x.metrics = y.metrics := by
  intro x hx
  obtain ⟨_, _, rfl⟩ := selectTopRoutes_eq_ok.mp h
  exact mem_rankRoutes (mem_of_mem_retainNew _ (List.mem_of_mem_take hx))

theorem selectTopRoutes_ne_nil {hs : RandomState (BellmanFordResult F)}
    {results : List (BellmanFordResult F)} {qos : QoSConstraints F} {w : CostWeights F}
    {cm : CostModel F} {n : ℕ} {top : List (ParetoRoute F)} (hn : 1 ≤ n)
    (h : selectTopRoutes hs results qos w cm n = .ok top) : top ≠ [] := by
  obtain ⟨_, hf, rfl⟩ := selectTopRoutes_eq_ok.mp h
  have hrank : rankRoutes (feasibleRoutes hs results qos) w cm ≠ [] := by
    intro h0
    have hlen := congrArg List.length h0
    simp only [rankRoutes, length_sortAsc, List.length_map, List.length_nil] at hlen
    exact hf (List.length_eq_zero_iff.mp hlen)
  simp only [ne_eq, List.take_eq_nil_iff, not_or]
  exact ⟨by omega, retainNew_ne_nil _ hrank⟩

/-! ### The front holds an undominated route above every candidate -/

section Front
variable [OrderedF64 F]

/-- `candidate` is dominated by no candidate. -/
abbrev Unbeaten (results : List (BellmanFordResult F)) (r : BellmanFordResult F) : Prop :=
  Dominance.Undominated (fun a b => a.metrics.Dominates b.metrics) results r

/-- Dominance being irreflexive, comparing positions makes no difference. -/
theorem mem_paretoFront {hs : RandomState (BellmanFordResult F)}
    {results : List (BellmanFordResult F)} {x : ParetoRoute F} :
    x ∈ paretoFront hs results ↔ ∃ r ∈ uniqueCandidates hs results,
      Unbeaten (uniqueCandidates hs results) r ∧ x = r.toPareto := by
  simp only [paretoFront, List.mem_map, List.mem_filter, Bool.not_eq_true',
    List.mem_zipIdx_iff_getElem?, Prod.exists]
  have hbeaten : ∀ (r : BellmanFordResult F) (i : ℕ),
      (uniqueCandidates hs results)[i]? = some r →
        (isDominated (uniqueCandidates hs results) r i = false ↔
          Unbeaten (uniqueCandidates hs results) r) := by
    -- the code skips position `i` itself; dominance is irreflexive, so nothing changes
    intro r i hr
    simp only [isDominated, List.any_eq_false, Prod.forall, List.mem_zipIdx_iff_getElem?,
      Bool.and_eq_true, decide_eq_true_eq, dominates_iff, not_and]
    constructor
    · intro h b hb hd
      obtain ⟨j, hj⟩ := List.mem_iff_getElem?.mp hb
      rcases eq_or_ne i j with rfl | hij
      · obtain rfl := Option.some.inj (hr.symm.trans hj)
        exact RouteMetrics.Dominates.irrefl _ hd
      · exact h b j hj hij hd
    · intro h b j hj _ hd
      exact h b (List.mem_of_getElem? hj) hd
  constructor
  · rintro ⟨r, i, ⟨hr, hd⟩, rfl⟩
    exact ⟨r, List.mem_of_getElem? hr, (hbeaten r i hr).mp hd, rfl⟩
  · rintro ⟨r, hr, hu, rfl⟩
    obtain ⟨i, hi⟩ := List.mem_iff_getElem?.mp hr
    exact ⟨r, i, ⟨hi, (hbeaten r i hi).mpr hu⟩, rfl⟩

/-- Above every candidate that survives the merge there is a route of the front. -/
theorem exists_front_above (hs : RandomState (BellmanFordResult F))
    {results : List (BellmanFordResult F)} {r : BellmanFordResult F}
    (h : r ∈ uniqueCandidates hs results) : ∃ x ∈ paretoFront hs results,
      x.metrics = r.metrics ∨ x.metrics.Dominates r.metrics := by
  obtain ⟨b, hb, hu, habove⟩ := @Dominance.exists_undominated_above (BellmanFordResult F)
    (fun a b => a.metrics.Dominates b.metrics) (fun a => RouteMetrics.Dominates.irrefl a.metrics)
    (fun hab hbc => RouteMetrics.Dominates.trans hab hbc) _ r h
  refine ⟨b.toPareto, mem_paretoFront.mpr ⟨b, hb, hu, rfl⟩, ?_⟩
  rcases habove with rfl | habove
  · exact Or.inl rfl
  · exact Or.inr habove

theorem paretoFront_ne_nil (hs : RandomState (BellmanFordResult F))
    {results : List (BellmanFordResult F)} (h : results ≠ []) : paretoFront hs results ≠ [] := by
  obtain ⟨r, hr⟩ := List.exists_mem_of_ne_nil _ h
  obtain ⟨u, hu, _⟩ := exists_uniqueCandidate hs hr
  obtain ⟨x, hx, _⟩ := exists_front_above hs hu
  exact List.ne_nil_of_mem hx

/-- Selection succeeds exactly when some candidate meets the constraints. -/
theorem selectTopRoutes_ok_iff {hs : RandomState (BellmanFordResult F)}
    {results : List (BellmanFordResult F)} {qos : QoSConstraints F} {w : CostWeights F}
    {cm : CostModel F} {n : ℕ} :
    (∃ top, selectTopRoutes hs results qos w cm n = .ok top) ↔
      ∃ r ∈ results, r.metrics.Meets qos := by
  constructor
  · rintro ⟨top, h⟩
    exact feasibleRoutes_ne_nil_iff.mp (selectTopRoutes_eq_ok.mp h).2.1
  · intro hmeets
    obtain ⟨r, hr, _⟩ := id hmeets
    exact ⟨_, selectTopRoutes_eq_ok.mpr ⟨paretoFront_ne_nil hs (List.ne_nil_of_mem hr),
      feasibleRoutes_ne_nil_iff.mpr hmeets, rfl⟩⟩

end Front

end ATP
