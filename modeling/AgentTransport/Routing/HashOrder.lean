import AgentTransport.Routing.TopRanked
import AgentTransport.Lib.Ties

/-! What `find_routes` owes to the hash map of the Pareto front. The front comes out in the map's
    order and is sorted stably, so paths with the same scalar cost stay in that order, and
    truncation may keep one or the other:

        same costs, place by place          in every order
        same pattern, agents and metrics    wherever no two paths tie -/

namespace ATP
open F64 Collections

/-- What a route offers: all but its identifier and its time. -/
def Route.listing {F : Type} (r : Route F) : RoutingPattern × List AgentId × RouteMetrics F :=
  (r.pattern, r.agents, r.metrics)

/-- Two runs fail alike, or return lists that are alike place by place. -/
def Alike {E α : Type} (R : α → α → Prop) : Except E (List α) → Except E (List α) → Prop
  | .ok l, .ok l' => List.Forall₂ R l l'
  | .error e, .error e' => e = e'
  | _, _ => False

/-! ### The front as a set -/

section Front
variable {F : Type} [F64 F] {results : List (BellmanFordResult F)}

theorem nodup_uniqueCandidates (hs : RandomState (BellmanFordResult F))
    (results : List (BellmanFordResult F)) :
    ((uniqueCandidates hs results).map (·.path)).Nodup := by
  refine ((hs.perm _).map _).nodup_iff.mpr ?_
  have hkeys : ((results.foldl keepBest ∅).entries.map (·.2)).map (·.path) =
      (results.foldl keepBest ∅).keys := by
    rw [List.map_map]
    refine List.map_congr_left fun e he => ?_
    rcases keepBest_sound results ∅ e.1 e.2 (AList.mem_lookup_iff.mpr he) with h | ⟨-, h⟩
    · simp at h
    · exact h
  rw [hkeys]
  exact AList.keys_nodup _

theorem nodup_paretoFront (hs : RandomState (BellmanFordResult F)) :
    ((paretoFront hs results).map (·.path)).Nodup := by
  refine (nodup_uniqueCandidates hs results).sublist ?_
  have hmap : (paretoFront hs results).map (·.path) =
      (((uniqueCandidates hs results).zipIdx.filter fun p =>
        !isDominated (uniqueCandidates hs results) p.1 p.2).map (·.1)).map (·.path) := by
    simp only [paretoFront, List.map_map]
    rfl
  rw [hmap]
  refine List.Sublist.map _ ?_
  have hfst : (uniqueCandidates hs results).zipIdx.map (·.1) = uniqueCandidates hs results :=
    List.zipIdx_map_fst _ _
  conv_rhs => rw [← hfst]
  exact List.filter_sublist.map _

variable [OrderedF64 F]

/-- The front is the same set of routes in every order of the map. -/
theorem paretoFront_perm (hs hs' : RandomState (BellmanFordResult F)) :
    (paretoFront hs results).Perm (paretoFront hs' results) := by
  refine (List.perm_ext_iff_of_nodup (nodup_paretoFront hs).of_map
    (nodup_paretoFront hs').of_map).mpr fun x => ?_
  have hmem : ∀ r, r ∈ uniqueCandidates hs results ↔ r ∈ uniqueCandidates hs' results :=
    fun r => mem_uniqueCandidates.trans mem_uniqueCandidates.symm
  simp only [mem_paretoFront, Dominance.Undominated, hmem]

end Front

namespace EconomicRouter

/-! ### Routes without identifier and time -/

section Listings
variable {F : Type} [F64 F] (router : EconomicRouter F) (hs : RandomState (BellmanFordResult F))
  (t : TaskType) (qos : QoSConstraints F)

/-- What a pattern offers. -/
def patternListing (pattern : RoutingPattern) :
    Option (RoutingPattern × List AgentId × RouteMetrics F) :=
  ((patternSelection router.graph (extractAgents router.graph t qos.minTrust) pattern).filter
    fun s => CostModel.satisfiesConstraints s.metrics qos).map fun s =>
      (pattern, s.agents.map (·.id), s.metrics)

/-- What the patterns offer, in the order they are collected. -/
def patternListings : List (RoutingPattern × List AgentId × RouteMetrics F) :=
  collectedPatterns.filterMap (router.patternListing t qos)

/-- What a path of the front offers. -/
def pathListing (x : ParetoRoute F) : RoutingPattern × List AgentId × RouteMetrics F :=
  (.pipeline, pathToAgentIds router.graph x.path, x.metrics)

/-- The paths of the front that meet the constraints, ranked. -/
def rankedFront (results : List (BellmanFordResult F)) : List (ParetoRoute F) :=
  rankRoutes (filterByConstraints (paretoFront hs results) qos)
    (CostModel.weightsFromConstraints qos) router.costModel

/-- What the paths of the front offer, in the order they are ranked. -/
def pathListings : List (RoutingPattern × List AgentId × RouteMetrics F) :=
  match multiObjectiveBellmanFord router.graph t qos.minTrust router.costModel with
  | .ok results => (router.rankedFront hs qos results).map router.pathListing
  | .error _ => []

/-- The cost a listing is ranked by. -/
def listingCost (p : RoutingPattern × List AgentId × RouteMetrics F) : F :=
  router.rankCost qos p.2.2

variable {router hs t qos}

theorem pathListings_ok {results : List (BellmanFordResult F)}
    (h : multiObjectiveBellmanFord router.graph t qos.minTrust router.costModel = .ok results) :
    router.pathListings hs t qos = (router.rankedFront hs qos results).map router.pathListing := by
  rw [pathListings, h]

theorem pathListings_error {e : RoutingError}
    (h : multiObjectiveBellmanFord router.graph t qos.minTrust router.costModel = .error e) :
    router.pathListings hs t qos = [] := by
  rw [pathListings, h]

theorem tryPattern_listing {pattern : RoutingPattern} (hp : pattern ≠ .pipeline) (stamp : Stamp) :
    (router.tryPattern hs pattern t qos stamp).toOption.map Route.listing =
      router.patternListing t qos pattern := by
  have hchecked : ∀ s : Option (Selection F),
      (checkedRoute pattern s qos router.config.routeTtl stamp).toOption.map Route.listing =
        (s.filter fun s => CostModel.satisfiesConstraints s.metrics qos).map fun s =>
          (pattern, s.agents.map (·.id), s.metrics) := by
    intro s
    cases s with
    | none => rfl
    | some s =>
      simp only [checkedRoute, Option.filter_some]
      split <;> rfl
  cases pattern with
  | pipeline => exact absurd rfl hp
  | draftRefine => exact hchecked _
  | parallelMerge => exact hchecked _
  | cascade => exact hchecked _
  | ensemble => exact hchecked _

theorem collectPatternRoutes_listing (stamps : ℕ → Stamp) :
    (router.collectPatternRoutes hs t qos stamps).map Route.listing =
      router.patternListings t qos := by
  have hfst : collectedPatterns.zipIdx.map (·.1) = collectedPatterns := List.zipIdx_map_fst _ _
  rw [patternListings]
  conv_rhs => rw [← hfst, List.filterMap_map]
  rw [collectPatternRoutes, List.map_filterMap]
  refine List.filterMap_congr fun p hp => ?_
  have hmem : p.1 ∈ collectedPatterns :=
    List.mem_of_getElem? (List.mem_zipIdx_iff_getElem?.mp hp)
  have hne : p.1 ≠ .pipeline := by
    intro h
    rw [h] at hmem
    exact absurd hmem (by decide)
  exact tryPattern_listing hne _

omit [F64 F] in
/-- Two paths of the graph have two lists of agents. -/
theorem pathToAgentIds_inj {g : AgentGraph F} : ∀ {p q : List ℕ},
    (∀ i ∈ p, ∃ n, g.node i = some n) → (∀ j ∈ q, ∃ n, g.node j = some n) →
    pathToAgentIds g p = pathToAgentIds g q → p = q
  | [], [], _, _, _ => rfl
  | [], j :: q, _, hq, h => by
    obtain ⟨n, hn⟩ := hq j List.mem_cons_self
    simp [pathToAgentIds, AgentGraph.agentId, hn] at h
  | i :: p, [], hp, _, h => by
    obtain ⟨n, hn⟩ := hp i List.mem_cons_self
    simp [pathToAgentIds, AgentGraph.agentId, hn] at h
  | i :: p, j :: q, hp, hq, h => by
    obtain ⟨n, hn⟩ := hp i List.mem_cons_self
    obtain ⟨m, hm⟩ := hq j List.mem_cons_self
    simp only [pathToAgentIds, AgentGraph.agentId, List.filterMap_cons, hn, hm, Option.map_some,
      List.cons.injEq] at h
    obtain rfl := AgentGraph.index_unique hn hm h.1
    rw [pathToAgentIds_inj (fun k hk => hp k (List.mem_cons_of_mem _ hk))
      (fun k hk => hq k (List.mem_cons_of_mem _ hk)) h.2]

end Listings

section Exact
variable {K : Type} [Field K] [LinearOrder K] [FloorRing K]
  (router : EconomicRouter K) (hs hs' : RandomState (BellmanFordResult K)) (t : TaskType)
  (qos : QoSConstraints K)

/-- Two paths on the front meet the constraints and have this scalar cost. -/
def Tied (c : K) : Prop :=
  ∃ results, multiObjectiveBellmanFord router.graph t qos.minTrust router.costModel = .ok results ∧
    ∃ a ∈ results, ∃ b ∈ results, a.path ≠ b.path ∧ ∀ r ∈ [a, b], r.metrics.Meets qos ∧
      (∀ r' ∈ results, ¬ r'.metrics.Dominates r.metrics) ∧ router.rankCost qos r.metrics = c

variable {router hs hs' t qos} {results : List (BellmanFordResult K)}

theorem nodup_rankedFront : ((router.rankedFront hs qos results).map (·.path)).Nodup := by
  have hperm : ((router.rankedFront hs qos results).map (·.path)).Perm
      ((filterByConstraints (paretoFront hs results) qos).map (·.path)) := by
    refine ((sortAsc_perm _ _).map _).trans ?_
    rw [List.map_map]
    exact List.Perm.refl _
  exact hperm.nodup_iff.mpr ((nodup_paretoFront hs).sublist (List.filter_sublist.map _))

theorem rankedFront_perm :
    (router.rankedFront hs qos results).Perm (router.rankedFront hs' qos results) :=
  (sortAsc_perm _ _).trans ((((paretoFront_perm hs hs').filter _).map _).trans
    (sortAsc_perm _ _).symm)

/-- A ranked path is that of a candidate on the front. -/
theorem of_mem_rankedFront (hc : Consistent results) {x : ParetoRoute K}
    (hx : x ∈ router.rankedFront hs qos results) : ∃ r ∈ results, x.path = r.path ∧
      x.metrics = r.metrics ∧ r.metrics.Meets qos ∧
        ∀ r' ∈ results, ¬ r'.metrics.Dominates r.metrics := by
  obtain ⟨y, hy, hpath, hmetrics⟩ := mem_rankRoutes hx
  obtain ⟨hy, hmeets⟩ := mem_filterByConstraints.mp hy
  have hund := front_undominated hc hy
  obtain ⟨r, hr, -, rfl⟩ := mem_paretoFront.mp hy
  exact ⟨r, of_mem_uniqueCandidates hr, hpath, hmetrics, hmeets, hund⟩

theorem sorted_pathListings :
    Sorted (router.listingCost qos) (router.pathListings hs t qos) := by
  cases hbf : multiObjectiveBellmanFord router.graph t qos.minTrust router.costModel with
  | error e =>
    rw [pathListings_error hbf]
    exact List.Pairwise.nil
  | ok results =>
    rw [pathListings_ok hbf]
    exact List.pairwise_map.mpr (pairwise_rankRoutes fun _ _ => isNum_field _)

theorem pathListings_perm :
    (router.pathListings hs t qos).Perm (router.pathListings hs' t qos) := by
  cases hbf : multiObjectiveBellmanFord router.graph t qos.minTrust router.costModel with
  | error e => rw [pathListings_error hbf, pathListings_error hbf]
  | ok results =>
    rw [pathListings_ok hbf, pathListings_ok hbf]
    exact rankedFront_perm.map _

theorem nodup_pathListings : ((router.pathListings hs t qos).map (·.2.1)).Nodup := by
  rcases multiObjective_spec router.graph t qos.minTrust router.costModel with
    ⟨-, herr⟩ | ⟨results, hok, -, hsound, -⟩
  · rw [pathListings_error herr]
    exact List.nodup_nil
  · have hagents : ((router.pathListings hs t qos).map (·.2.1)) =
        ((router.rankedFront hs qos results).map (·.path)).map (pathToAgentIds router.graph) := by
      rw [pathListings_ok hok, List.map_map, List.map_map]
      rfl
    have hnodes : ∀ p ∈ (router.rankedFront hs qos results).map (·.path),
        ∀ i ∈ p, ∃ n, router.graph.node i = some n := by
      intro p hp i hi
      obtain ⟨x, hx, rfl⟩ := List.mem_map.mp hp
      obtain ⟨r, hr, hpath, -⟩ := of_mem_rankedFront (consistent_of_sound hsound) hx
      rw [hpath] at hi
      obtain ⟨n, hn, -⟩ := AgentGraph.mem_capableAgents.mp ((hsound r hr).capable i hi)
      exact ⟨n, hn⟩
    rw [hagents]
    exact nodup_rankedFront.map_on fun p hp q hq h =>
      pathToAgentIds_inj (hnodes p hp) (hnodes q hq) h

/-- Where no two paths tie, the order of the map makes no difference. -/
theorem group_pathListings {c : K} (h : ¬ router.Tied t qos c) :
    group (router.listingCost qos) c (router.pathListings hs t qos) =
      group (router.listingCost qos) c (router.pathListings hs' t qos) := by
  have hany : ∀ l : List (RoutingPattern × List AgentId × RouteMetrics K),
      l.Pairwise fun _ _ => True := fun l => List.pairwise_of_forall fun _ _ => trivial
  refine List.Perm.eq_of_pairwise (fun p q hp hq _ _ => ?_) (hany _) (hany _)
    (pathListings_perm.filter _)
  obtain ⟨hp, hpc⟩ := mem_group.mp hp
  obtain ⟨hq, hqc⟩ := mem_group.mp hq
  rcases multiObjective_spec router.graph t qos.minTrust router.costModel with
    ⟨-, herr⟩ | ⟨results, hok, -, hsound, -⟩
  · rw [pathListings_error herr] at hp
    cases hp
  · have hc := consistent_of_sound hsound
    rw [pathListings_ok hok] at hp hq
    obtain ⟨x, hx, rfl⟩ := List.mem_map.mp hp
    obtain ⟨y, hy, rfl⟩ := List.mem_map.mp hq
    obtain ⟨a, ha, hxp, hxm, hameets, haund⟩ := of_mem_rankedFront hc hx
    obtain ⟨b, hb, hyp, hym, hbmeets, hbund⟩ := of_mem_rankedFront hc hy
    rcases eq_or_ne a.path b.path with heq | hne
    · simp only [pathListing, hxp, hyp, hxm, hym, heq, hc a ha b hb heq]
    -- two paths of one cost would be a tie
    · refine absurd ⟨results, hok, a, ha, b, hb, hne, fun r hr => ?_⟩ h
      rcases List.mem_cons.mp hr with rfl | hr
      · exact ⟨hameets, haund, hxm ▸ hpc⟩
      · obtain rfl := List.mem_singleton.mp hr
        exact ⟨hbmeets, hbund, hym ▸ hqc⟩

theorem map_sortAsc_listing (l : List (Route K)) :
    (sortAsc (fun r => router.rankCost qos r.metrics) l).map Route.listing =
      sortAsc (router.listingCost qos) (l.map Route.listing) :=
  List.map_insertionSort _ _ Route.listing l fun _ _ _ _ => Iff.rfl

theorem findRoutes_outcome (router : EconomicRouter K) (hs : RandomState (BellmanFordResult K))
    (t : TaskType) (qos : QoSConstraints K) (stamps : ℕ → Stamp) :
    (∃ e, router.graph.validate = .error e ∧ router.findRoutes hs t qos stamps = .error e) ∨
    router.graph.validate = .ok () ∧
      (router.allRoutes hs t qos stamps = [] ∧
          router.findRoutes hs t qos stamps = .error .noFeasibleRoute ∨
        router.allRoutes hs t qos stamps ≠ [] ∧
          ∃ routes, router.findRoutes hs t qos stamps = .ok routes) := by
  rw [findRoutes, ← allRoutes]
  cases hv : router.graph.validate with
  | error e => exact Or.inl ⟨e, rfl, rfl⟩
  | ok u =>
    refine Or.inr ⟨rfl, ?_⟩
    rcases eq_or_ne (router.allRoutes hs t qos stamps) [] with hnil | hne
    · exact Or.inl ⟨hnil, by simp [hnil, Bind.bind, Except.bind]⟩
    · exact Or.inr ⟨hne, by simp [hne, Bind.bind, Except.bind]⟩

variable [IsStrictOrderedRing K]

/-- The Bellman-Ford routes of `find_routes` are the first of the ranked paths. -/
theorem pipelineRoutes_listing (stamps : ℕ → Stamp) :
    (router.pipelineRoutes hs t qos stamps).map Route.listing =
      (router.pathListings hs t qos).take router.config.maxRoutes := by
  rcases multiObjective_spec router.graph t qos.minTrust router.costModel with
    ⟨-, herr⟩ | ⟨results, hok, -, hsound, -⟩
  · rw [pathListings_error herr, List.take_nil, pipelineRoutes, explore, herr]
    rfl
  · have hfeasible : feasibleRoutes hs results qos =
        filterByConstraints (paretoFront hs results) qos :=
      feasibleRoutes_eq (consistent_of_sound hsound) (tellsApart_field K _)
    have hexplore : router.explore hs t qos router.config.maxRoutes = selectTopRoutes hs results
        qos (CostModel.weightsFromConstraints qos) router.costModel router.config.maxRoutes := by
      rw [explore, hok]
      rfl
    rw [pipelineRoutes, hexplore, pathListings_ok hok]
    -- no path meets the constraints: both sides are empty
    rcases eq_or_ne (feasibleRoutes hs results qos) [] with hnone | hsome
    · have herr : selectTopRoutes hs results qos (CostModel.weightsFromConstraints qos)
          router.costModel router.config.maxRoutes = .error .noFeasibleRoute := by
        simp [selectTopRoutes, hnone]
      rw [herr, rankedFront, ← hfeasible, hnone]
      simp [rankRoutes, sortAsc]
    -- otherwise the paths are ranked, and none is repeated
    · have hfront : paretoFront hs results ≠ [] := by
        rintro hnil
        rw [hfeasible, hnil] at hsome
        exact hsome rfl
      rw [selectTopRoutes_eq_ok.mpr ⟨hfront, hsome, rfl⟩, hfeasible, ← rankedFront,
        retainNew_eq_self _ nodup_rankedFront (by simp)]
      simp only [← List.map_take]
      generalize (router.rankedFront hs qos results).take router.config.maxRoutes = top
      have hfst : top.zipIdx.map (·.1) = top := List.zipIdx_map_fst _ _
      conv_rhs => rw [← hfst]
      rw [List.map_map, List.map_map]
      rfl

theorem allRoutes_listing (stamps : ℕ → Stamp) :
    (router.allRoutes hs t qos stamps).map Route.listing =
      router.patternListings t qos ++
        (router.pathListings hs t qos).take router.config.maxRoutes := by
  rw [allRoutes, List.map_append, collectPatternRoutes_listing, pipelineRoutes_listing]

/-- What `find_routes` lists: everything on offer, sorted, without the repeated lists of agents,
    up to the limit. -/
theorem findRoutes_listing {stamps : ℕ → Stamp} {routes : List (Route K)}
    (h : router.findRoutes hs t qos stamps = .ok routes) : routes.map Route.listing =
      (retainNew (·.2.1) [] (sortAsc (router.listingCost qos) (router.patternListings t qos ++
        router.pathListings hs t qos))).take router.config.maxRoutes := by
  have hroutes := findRoutes_sorted h
  change routes = (retainNew (fun r => (Route.listing r).2.1) [] (sortAsc (fun r : Route K =>
    router.rankCost qos r.metrics) (router.allRoutes hs t qos stamps))).take _ at hroutes
  -- the code ranks only the paths up to the limit; those cut off would not have been listed
  have hsplit : router.pathListings hs t qos =
      (router.pathListings hs t qos).take router.config.maxRoutes ++
        (router.pathListings hs t qos).drop router.config.maxRoutes :=
    (List.take_append_drop _ _).symm
  have hmap : ∀ l : List (Route K), (retainNew (fun r => (Route.listing r).2.1) [] l).map
      Route.listing = retainNew (·.2.1) [] (l.map Route.listing) :=
    fun l => map_retainNew (·.2.1) Route.listing l []
  rw [hroutes, List.map_take, hmap, map_sortAsc_listing, allRoutes_listing]
  rcases Nat.le_total (router.pathListings hs t qos).length router.config.maxRoutes with hle | hle
  · rw [List.take_of_length_le hle]
  · have hlen : ((router.pathListings hs t qos).take router.config.maxRoutes).length =
        router.config.maxRoutes := by rw [List.length_take]; omega
    have hsorted : Sorted (router.listingCost qos) (router.pathListings hs t qos) :=
      sorted_pathListings
    rw [hsplit] at hsorted
    have htake := take_retainNew_sortAsc (router.patternListings t qos) hsorted
      (nodup_pathListings.sublist ((List.take_sublist _ _).map _))
    rw [hlen, ← hsplit] at htake
    exact htake

theorem allRoutes_eq_nil_iff (hs hs' : RandomState (BellmanFordResult K))
    (stamps stamps' : ℕ → Stamp) :
    router.allRoutes hs t qos stamps = [] ↔ router.allRoutes hs' t qos stamps' = [] := by
  have hnil : ∀ (hs : RandomState (BellmanFordResult K)) (stamps : ℕ → Stamp),
      router.allRoutes hs t qos stamps = [] ↔ router.patternListings t qos = [] ∧
        (router.config.maxRoutes = 0 ∨ router.pathListings hs t qos = []) := by
    intro hs stamps
    rw [← List.map_eq_nil_iff, allRoutes_listing, List.append_eq_nil_iff, List.take_eq_nil_iff]
  have hperm : (router.pathListings hs t qos).Perm (router.pathListings hs' t qos) :=
    pathListings_perm
  rw [hnil hs, hnil hs', ← List.length_eq_zero_iff (l := router.pathListings hs t qos),
    hperm.length_eq, List.length_eq_zero_iff]

/-- In two orders of the map `find_routes` fails alike, or lists routes of the same scalar costs,
    the same ones wherever no two paths tie. -/
theorem findRoutes_hash_order (hs hs' : RandomState (BellmanFordResult K))
    (stamps stamps' : ℕ → Stamp) :
    Alike (fun a b : Route K => router.rankCost qos a.metrics = router.rankCost qos b.metrics ∧
        (¬ router.Tied t qos (router.rankCost qos a.metrics) → a.listing = b.listing))
      (router.findRoutes hs t qos stamps) (router.findRoutes hs' t qos stamps') := by
  rcases findRoutes_outcome router hs t qos stamps with
    ⟨e, hv, he⟩ | ⟨hv, h⟩
  -- an invalid graph fails in either order
  · rcases findRoutes_outcome router hs' t qos stamps' with
      ⟨e', hv', he'⟩ | ⟨hv', -⟩
    · rw [he, he']
      exact Except.error.inj (hv.symm.trans hv')
    · rw [hv] at hv'
      cases hv'
  · rcases findRoutes_outcome router hs' t qos stamps' with
      ⟨e', hv', -⟩ | ⟨-, h'⟩
    · rw [hv] at hv'
      cases hv'
    · have hiff : router.allRoutes hs t qos stamps = [] ↔ router.allRoutes hs' t qos stamps' = [] :=
        allRoutes_eq_nil_iff hs hs' stamps stamps'
      rcases h with ⟨hnil, he⟩ | ⟨hne, routes, hroutes⟩
      · rcases h' with ⟨-, he'⟩ | ⟨hne', -⟩
        · rw [he, he']
          exact rfl
        · exact absurd (hiff.mp hnil) hne'
      · rcases h' with ⟨hnil', -⟩ | ⟨-, routes', hroutes'⟩
        · exact absurd (hiff.mpr hnil') hne
        · rw [hroutes, hroutes']
          have hperm : (router.patternListings t qos ++ router.pathListings hs t qos).Perm
              (router.patternListings t qos ++ router.pathListings hs' t qos) :=
            pathListings_perm.append_left _
          -- where no two paths tie, the listings of one cost are the same in either order
          have hgroup : ∀ c, ¬ router.Tied t qos c →
              group (router.listingCost qos) c (sortAsc (router.listingCost qos)
                (router.patternListings t qos ++ router.pathListings hs t qos)) =
              group (router.listingCost qos) c (sortAsc (router.listingCost qos)
                (router.patternListings t qos ++ router.pathListings hs' t qos)) := by
            intro c hc
            rw [group_sortAsc, group_sortAsc, group_append, group_append, group_pathListings hc]
          have htake := List.forall₂_take router.config.maxRoutes
            (retainNew_alike (·.2.1) (sorted_sortAsc (router.listingCost qos) _)
              (sorted_sortAsc (router.listingCost qos) _)
              ((sortAsc_perm _ _).trans (hperm.trans (sortAsc_perm _ _).symm)) hgroup)
          rw [← findRoutes_listing hroutes, ← findRoutes_listing hroutes',
            List.forall₂_map_left_iff, List.forall₂_map_right_iff] at htake
          exact htake

/-- Two equal agents tie, and come in the order the map gives them. -/
theorem findRoutes_depends_on_hash_order :
    let qos : QoSConstraints ℚ := ⟨1 / 2, Duration.secs 10, 5, 1 / 2⟩
    ¬ ∀ hs hs' : RandomState (BellmanFordResult ℚ),
      (twins.findRoutes hs .analysis qos fun i => ⟨i, 0⟩).map (·.map Route.listing) =
        (twins.findRoutes hs' .analysis qos fun i => ⟨i, 0⟩).map (·.map Route.listing) := by
  intro qos h
  exact absurd (h (.insertion _) ⟨List.reverse, List.reverse_perm⟩) (by decide +kernel)

/-- The same agents at the same costs, in either order. -/
theorem findRoutes_hash_order_twins :
    let qos : QoSConstraints ℚ := ⟨1 / 2, Duration.secs 10, 5, 1 / 2⟩
    Alike (fun a b : Route ℚ => twins.rankCost qos a.metrics = twins.rankCost qos b.metrics ∧
        (¬ twins.Tied .analysis qos (twins.rankCost qos a.metrics) → a.listing = b.listing))
      (twins.findRoutes (.insertion _) .analysis qos fun i => ⟨i, 0⟩)
      (twins.findRoutes ⟨List.reverse, List.reverse_perm⟩ .analysis qos fun i => ⟨i, 0⟩) :=
  findRoutes_hash_order _ _ _ _

end Exact
end EconomicRouter
end ATP
