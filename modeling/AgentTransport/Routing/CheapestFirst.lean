import AgentTransport.Routing.TopRanked
import AgentTransport.Routing.CascadeExpectation
import AgentTransport.Routing.Discovery

/-! When the agent of least cost per task is ranked first. With all gates closed `find_route` looks
    no further than the cheapest agent that meets the constraints by itself. A path of the
    exploration, or a draft with its refinement, is no better than any one of its agents:

        a ─▶ b ─▶ c      quality at most, latency at least, cost at least that of each

    so that what may be ranked before it are other agents by themselves, the best ones working
    redundantly and the cheapest ones in a cascade. -/

namespace ATP
open F64 Collections Escalation

section Figures
variable {K : Type} [Field K] [LinearOrder K] [FloorRing K]

/-- What an agent gives by itself. -/
def AgentInfo.alone (a : AgentInfo K) : RouteMetrics K :=
  ⟨a.capability.estimatedQuality, a.capability.estimatedLatency, a.capability.costPerTask⟩

/-- What agents give that work redundantly: one success is enough, all of them are waited for. -/
def together (team : List (AgentInfo K)) (overhead : Duration) : RouteMetrics K where
  quality := 1 - (team.map fun a => 1 - a.capability.estimatedQuality).prod
  latency := (team.map (·.capability.estimatedLatency)).max?.getD 0 + overhead
  cost := (team.map (·.capability.costPerTask)).sum

/-- What agents are expected to give that are asked one after the other: each one counts with the
    probability that it is reached, or that it is the one to answer. -/
def escalated (g : AgentGraph K) (chain : List (AgentInfo K)) : RouteMetrics K :=
  let stages := levels (lit (7 / 10)) chain
  { quality := ((stopping 1 stages).map fun p => p.1 * p.2.capability.estimatedQuality).sum +
      left 1 stages * (chain.getLast?.elim 0 (·.capability.estimatedQuality))
    latency := ((reaching 1 stages).map fun p =>
        secsOf (p.1 * asSecs p.2.capability.estimatedLatency)).sum +
      (List.zipWith (fun p d => secsOf (p.1 * asSecs d)) (reaching 1 stages).tail
        (pathTransfers g (chain.map (·.index)))).sum
    cost := ((reaching 1 stages).map fun p => p.1 * p.2.capability.costPerTask).sum }

/-- No gate of the automatic selection is open. -/
structure GatesClosed (agents : List (AgentInfo K)) (qos : QoSConstraints K) : Prop where
  budget : budgetGate agents qos = false
  quality : qualityGate agents qos = false
  latency : latencyGate agents qos = false

/-- The cheapest of the agents that meet the constraints by themselves, the one of the least index
    among equals. -/
structure CheapestAlone (agents : List (AgentInfo K)) (qos : QoSConstraints K)
    (p : AgentInfo K) : Prop where
  eligible : p ∈ agents
  meets : p.alone.Meets qos
  cheapest : ∀ a ∈ agents, a.alone.Meets qos → p.capability.costPerTask ≤ a.capability.costPerTask
  first : ∀ a ∈ agents, a.alone.Meets qos →
    a.capability.costPerTask = p.capability.costPerTask → p.index ≤ a.index

/-- As good in quality, latency and cost. -/
structure RouteMetrics.NoWorse (a b : RouteMetrics K) : Prop where
  quality : b.quality ≤ a.quality
  latency : a.latency ≤ b.latency
  cost : a.cost ≤ b.cost

theorem RouteMetrics.NoWorse.meets {a b : RouteMetrics K} {qos : QoSConstraints K}
    (h : a.NoWorse b) (hb : b.Meets qos) : a.Meets qos where
  quality := le_trans (α := K) hb.quality h.quality
  latency := h.latency.trans hb.latency
  cost := le_trans (α := K) h.cost hb.cost

/-! ### A cascade -/

variable {g : AgentGraph K} {threshold : K}

/-- The loop adds up the costs of the agents that are reached. -/
theorem cascadeLoop_cost_eq : ∀ (chain : List (AgentInfo K)) (acc : CascadeTotals K),
    (cascadeLoop g threshold acc chain).cost = acc.cost +
      ((reaching acc.probReach (levels threshold chain)).map fun p =>
        p.1 * p.2.capability.costPerTask).sum
  | [], acc => by simp [cascadeLoop, levels, reaching]
  | a :: rest, acc => by
    rw [cascadeLoop, cascadeLoop_cost_eq rest]
    simp only [levels, List.map_cons, reaching, List.sum_cons, ← add_assoc]
    rfl

/-- The loop adds up the latencies of the agents and transfers that are reached. -/
theorem cascadeLoop_latency_eq : ∀ (chain : List (AgentInfo K)) (acc : CascadeTotals K),
    (cascadeLoop g threshold acc chain).latency = acc.latency +
      (((reaching acc.probReach (levels threshold chain)).map fun p =>
          secsOf (p.1 * asSecs p.2.capability.estimatedLatency)).sum +
        (List.zipWith (fun p d => secsOf (p.1 * asSecs d))
          (reaching acc.probReach (levels threshold chain)).tail
          (pathTransfers g (chain.map (·.index)))).sum)
  | [], acc => by simp [cascadeLoop, levels, reaching]
  | [a], acc => by simp [cascadeLoop, cascadeLevel, levels, reaching]
  | a :: b :: rest, acc => by
    have hhop : pathTransfers g ((a :: b :: rest).map (·.index)) =
        hopLatency g a b :: pathTransfers g ((b :: rest).map (·.index)) := rfl
    have hreach : (cascadeLevel g threshold acc a (some b)).probReach =
        acc.probReach * (1 - confidence threshold a) := rfl
    have hlevel : (cascadeLevel g threshold acc a (some b)).latency = acc.latency +
        secsOf (acc.probReach * asSecs a.capability.estimatedLatency) +
          secsOf (acc.probReach * (1 - confidence threshold a) * asSecs (hopLatency g a b)) := rfl
    rw [cascadeLoop, List.head?_cons, cascadeLoop_latency_eq (b :: rest), hhop, hreach, hlevel]
    simp only [levels, List.map_cons, reaching, List.sum_cons, List.tail_cons,
      List.zipWith_cons_cons]
    have hshift : ∀ x u h v r z : ℕ, x + u + h + (v + r + z) = x + (u + (v + r) + (h + z)) := by
      intros
      omega
    exact hshift _ _ _ _ _ _

variable [IsStrictOrderedRing K]

/-- The metrics of a cascade of agents in range. -/
theorem cascadeMetrics_eq {chain : List (AgentInfo K)} (hne : chain ≠ [])
    (hunit : ∀ a ∈ chain, 0 ≤ a.capability.estimatedQuality ∧ a.capability.estimatedQuality ≤ 1) :
    cascadeMetrics g (lit (7 / 10)) chain = escalated g chain := by
  have hlast := List.getLast?_eq_some_getLast hne
  have hquality : (cascadeMetrics g (lit (7 / 10)) chain).quality =
      (law (levels (lit (7 / 10)) chain) (chain.getLast hne) (levels_unit _ chain)).mean
        (·.capability.estimatedQuality) := cascadeMetrics_quality hlast hunit
  have hmean : (cascadeMetrics g (lit (7 / 10)) chain).quality = (escalated g chain).quality := by
    rw [hquality, escalated, hlast]
    simp only [Distribution.mean, law, List.map_append, List.sum_append, List.map_singleton,
      List.sum_singleton, Option.elim_some]
  have hlatency : (cascadeMetrics g (lit (7 / 10)) chain).latency =
      (escalated g chain).latency := by
    simp only [cascadeMetrics, start_eq, cascadeLoop_latency_eq, Nat.zero_add, escalated]
  have hcost : (cascadeMetrics g (lit (7 / 10)) chain).cost = (escalated g chain).cost := by
    simp only [cascadeMetrics, start_eq, cascadeLoop_cost_eq, zero_add, escalated]
  cases hm : cascadeMetrics g (lit (7 / 10)) chain
  simp only [hm] at hmean hlatency hcost
  rw [hmean, hlatency, hcost]

/-! ### Redundant agents, and one by itself -/

omit [IsStrictOrderedRing K] in
/-- The metrics of redundant agents in range. -/
theorem redundantMetrics_eq {team : List (AgentInfo K)} (overhead : Duration)
    (hunit : ∀ a ∈ team, 0 ≤ a.capability.estimatedQuality ∧ a.capability.estimatedQuality ≤ 1) :
    redundantMetrics team overhead = together team overhead := by
  have hfailures : team.map (fun a => 1 - clamp a.capability.estimatedQuality 0 1) =
      team.map fun a => 1 - a.capability.estimatedQuality :=
    List.map_congr_left fun a ha => by rw [clamp_of_unit (hunit a ha)]
  simp only [redundantMetrics, together, hfailures, product, F64.sum, ← List.prod_eq_foldl,
    ← List.sum_eq_foldl]

omit [IsStrictOrderedRing K] in
theorem soloMetrics_eq {a : AgentInfo K}
    (hunit : 0 ≤ a.capability.estimatedQuality ∧ a.capability.estimatedQuality ≤ 1) :
    soloMetrics a = a.alone := by
  simp [soloMetrics, CostModel.computeRouteMetrics, AgentInfo.alone, product, F64.sum,
    clamp_of_unit hunit]

/-! ### Agents that work on one another's results -/

/-- A product of numbers in the unit interval is at most each of them. -/
theorem prod_le_of_mem : ∀ {xs : List K}, (∀ x ∈ xs, 0 ≤ x ∧ x ≤ 1) →
    0 ≤ xs.prod ∧ xs.prod ≤ 1 ∧ ∀ x ∈ xs, xs.prod ≤ x
  | [], _ => by simp
  | y :: xs, h => by
    obtain ⟨hy, hxs⟩ := List.forall_mem_cons.mp h
    obtain ⟨h0, h1, hle⟩ := prod_le_of_mem hxs
    rw [List.prod_cons]
    refine ⟨mul_nonneg hy.1 h0, mul_le_one₀ hy.2 h0 h1, fun x hx => ?_⟩
    rcases List.mem_cons.mp hx with rfl | hx
    · exact mul_le_of_le_one_right hy.1 h1
    · exact (mul_le_of_le_one_left h0 hy.2).trans (hle x hx)

/-- Every agent of a path is by itself as good as the path. -/
theorem alone_noWorse {caps : List (Capability K)} {transfers : List Duration}
    (hrange : ∀ c ∈ caps, (0 ≤ c.estimatedQuality ∧ c.estimatedQuality ≤ 1) ∧ 0 ≤ c.costPerTask)
    {a : AgentInfo K} (ha : a.capability ∈ caps) :
    a.alone.NoWorse (CostModel.computeRouteMetrics caps transfers) := by
  have hne : caps.isEmpty = false := by
    rw [← Bool.not_eq_true, List.isEmpty_iff]
    exact List.ne_nil_of_mem ha
  have hqualities : caps.map (fun c => clamp c.estimatedQuality 0 1) =
      caps.map (·.estimatedQuality) :=
    List.map_congr_left fun c hc => clamp_of_unit (hrange c hc).1
  have hunit : ∀ x ∈ caps.map (·.estimatedQuality), 0 ≤ x ∧ x ≤ 1 := by
    intro x hx
    obtain ⟨c, hc, rfl⟩ := List.mem_map.mp hx
    exact (hrange c hc).1
  have hcosts : ∀ x ∈ caps.map (·.costPerTask), 0 ≤ x := by
    intro x hx
    obtain ⟨c, hc, rfl⟩ := List.mem_map.mp hx
    exact (hrange c hc).2
  simp only [CostModel.computeRouteMetrics, hne, Bool.false_eq_true, if_false, hqualities, product,
    F64.sum, ← List.prod_eq_foldl, ← List.sum_eq_foldl]
  refine ⟨(prod_le_of_mem hunit).2.2 _ (List.mem_map_of_mem ha), ?_,
    List.single_le_sum hcosts _ (List.mem_map_of_mem ha)⟩
  -- the latency of one agent, the sum of all, and the transfers besides
  exact (List.single_le_sum (fun _ _ => Nat.zero_le _) _
    (List.mem_map_of_mem (f := fun c : Capability K => c.estimatedLatency) ha)).trans
      (Nat.le_add_right _ _)

/-! ### The cheapest agent -/

variable {t : TaskType} {minTrust : K} {qos : QoSConstraints K}

omit [IsStrictOrderedRing K] in
/-- The capable agents are listed by index. -/
theorem pairwise_extractAgents :
    (extractAgents g t minTrust).Pairwise fun a b => a.index < b.index := by
  have hnodes : (g.nodes.zipIdx.map (·.2)).Pairwise (· < ·) := by
    rw [List.zipIdx_map_snd]
    exact List.pairwise_lt_range'
  have hcapable : (g.capableAgents t minTrust).Pairwise (· < ·) :=
    hnodes.sublist (List.filter_sublist.map _)
  refine List.pairwise_filterMap.mpr (hcapable.imp fun {i j} hij a ha b hb => ?_)
  obtain ⟨n, cap, -, -, rfl⟩ := agentInfo_eq_some.mp ha
  obtain ⟨n', cap', -, -, rfl⟩ := agentInfo_eq_some.mp hb
  exact hij

omit [IsStrictOrderedRing K] in
theorem eq_of_index_eq {a b : AgentInfo K} (ha : a ∈ extractAgents g t minTrust)
    (hb : b ∈ extractAgents g t minTrust) (h : a.index = b.index) : a = b := by
  have hinfo := (mem_extractAgents.mp ha).2
  rw [h, (mem_extractAgents.mp hb).2] at hinfo
  exact (Option.some.inj hinfo).symm

omit [IsStrictOrderedRing K] in
/-- The agent that is found first in the order of costs. -/
theorem find?_sortedByCost_iff (hg : g.InRange) {p : AgentInfo K} :
    (sortedByCost (extractAgents g t minTrust)).find?
        (fun a => CostModel.satisfiesConstraints (soloMetrics a) qos) = some p ↔
      CheapestAlone (extractAgents g t minTrust) qos p := by
  have hmeets : ∀ a ∈ extractAgents g t minTrust,
      (CostModel.satisfiesConstraints (soloMetrics a) qos = true ↔ a.alone.Meets qos) :=
    fun a ha => by rw [soloMetrics_eq (hg.entry ha).1, satisfiesConstraints_iff]
  have hnodup : (extractAgents g t minTrust).Nodup :=
    pairwise_extractAgents.imp fun h heq => h.ne (congrArg AgentInfo.index heq)
  -- the sort is stable, so of equal costs the one of the least index is found
  have hfound : ∀ {p}, (sortedByCost (extractAgents g t minTrust)).find?
        (fun a => CostModel.satisfiesConstraints (soloMetrics a) qos) = some p →
      CheapestAlone (extractAgents g t minTrust) qos p := by
    intro p h
    obtain ⟨hp, hpm, hleast⟩ := find?_sortAsc hnodup h
    refine ⟨hp, (hmeets p hp).mp hpm, fun a ha hm => ?_, fun a ha hm heq => ?_⟩
    · rcases eq_or_ne a p with rfl | hne
      · exact le_rfl
      · exact (hleast a ha ((hmeets a ha).mpr hm) hne).1
    · rcases eq_or_ne a p with rfl | hne
      · exact le_rfl
      · have hpair := (hleast a ha ((hmeets a ha).mpr hm) hne).2 heq
        exact (List.pairwise_pair.mp (pairwise_extractAgents.sublist hpair)).le
  refine ⟨hfound, fun hp => ?_⟩
  -- the agent that is found has both properties too, and they determine it
  cases hfind : (sortedByCost (extractAgents g t minTrust)).find?
      fun a => CostModel.satisfiesConstraints (soloMetrics a) qos with
  | none =>
    have hnone := List.find?_eq_none.mp hfind p (mem_sortAsc.mpr hp.eligible)
    exact absurd ((hmeets p hp.eligible).mpr hp.meets) hnone
  | some q =>
    have hq := hfound hfind
    have hcost : q.capability.costPerTask = p.capability.costPerTask :=
      le_antisymm (hq.cheapest p hp.eligible hp.meets) (hp.cheapest q hq.eligible hq.meets)
    have hindex : q.index = p.index := le_antisymm (hq.first p hp.eligible hp.meets hcost.symm)
      (hp.first q hq.eligible hq.meets hcost)
    rw [eq_of_index_eq hq.eligible hp.eligible hindex]

end Figures

namespace EconomicRouter
variable {K : Type} [Field K] [LinearOrder K] [FloorRing K]

/-- Nothing that may be ranked has a lower scalar cost than an agent by itself: no other agent, not
    the best three working redundantly, which is merged or voted on, and not the cheapest four as a
    cascade. -/
structure Unrivalled (router : EconomicRouter K) (t : TaskType) (qos : QoSConstraints K)
    (p : AgentInfo K) : Prop where
  alone : ∀ a ∈ extractAgents router.graph t qos.minTrust, a.alone.Meets qos →
    router.rankCost qos p.alone ≤ router.rankCost qos a.alone
  merged : let ranked := sortedByQuality (extractAgents router.graph t qos.minTrust)
    2 ≤ ranked.length → (together (ranked.take 3) (Duration.millis 10)).Meets qos →
      router.rankCost qos p.alone ≤
        router.rankCost qos (together (ranked.take 3) (Duration.millis 10))
  voted : let ranked := (sortedByQuality
      (extractAgents router.graph t qos.minTrust)).insertionSort qualityThenTrust
    2 ≤ ranked.length → (together (ranked.take 3) (Duration.millis 5)).Meets qos →
      router.rankCost qos p.alone ≤
        router.rankCost qos (together (ranked.take 3) (Duration.millis 5))
  asked : let ranked := sortedByCost (extractAgents router.graph t qos.minTrust)
    (escalated router.graph (ranked.take 4)).Meets qos →
      router.rankCost qos p.alone ≤ router.rankCost qos (escalated router.graph (ranked.take 4))

section ClosedGates
variable {router : EconomicRouter K} {t : TaskType} {qos : QoSConstraints K} {p : AgentInfo K}

theorem firstChoice_of_closed
    (hgates : GatesClosed (extractAgents router.graph t qos.minTrust) qos) :
    router.firstChoice t qos = ((sortedByCost (extractAgents router.graph t qos.minTrust)).find?
      fun a => CostModel.satisfiesConstraints (soloMetrics a) qos).map soloMetrics := by
  simp [firstChoice, autoOrder, autoTries, hgates.budget, hgates.quality, hgates.latency]

variable [IsStrictOrderedRing K]

theorem rankCost_mono (hcm : router.costModel.Positive) (hq : 0 ≤ qos.minQuality)
    (hc : 0 ≤ qos.maxCost) {a b : RouteMetrics K} (h : a.NoWorse b) :
    router.rankCost qos a ≤ router.rankCost qos b :=
  CostModel.weighted_mono (CostModel.weightsFromConstraints_nonNeg hq hc) hcm h.quality
    (LawfulF64.asSecs_le _ _ h.latency) h.cost (isNum_field _) (isNum_field _) (isNum_field _)
    (isNum_field _)

/-- A path of the exploration is no better than some agent of it. -/
theorem exists_alone_of_sound (hg : router.graph.InRange) {c : BellmanFordResult K}
    (hc : c.Sound router.graph t qos.minTrust) :
    ∃ a ∈ extractAgents router.graph t qos.minTrust, a.alone.NoWorse c.metrics := by
  obtain ⟨hne, caps, hcaps, hm⟩ := computePathMetrics_eq_some hc.metrics
  -- every capability of the path is that of an entry
  have hentry : ∀ i ∈ c.path, ∃ a ∈ extractAgents router.graph t qos.minTrust,
      (router.graph.node i).bind (·.capabilityFor t) = some a.capability := by
    intro i hi
    obtain ⟨a, ha, rfl⟩ := exists_mem_extractAgents (hc.capable i hi)
    obtain ⟨n, hn, -, hcap⟩ := node_of_mem_extractAgents ha
    exact ⟨a, ha, by rw [hn, Option.bind_some, hcap]⟩
  have hrange : ∀ cap ∈ caps,
      (0 ≤ cap.estimatedQuality ∧ cap.estimatedQuality ≤ 1) ∧ 0 ≤ cap.costPerTask := by
    intro cap hcap
    obtain ⟨i, hi, heq⟩ := List.mem_map.mp (hcaps ▸ List.mem_map_of_mem hcap)
    obtain ⟨a, ha, hia⟩ := hentry i hi
    obtain rfl := Option.some.inj (hia.symm.trans heq)
    exact ⟨(hg.entry ha).1, (hg.entry ha).2.1⟩
  obtain ⟨i, hi⟩ := List.exists_mem_of_ne_nil _ hne
  obtain ⟨a, ha, hia⟩ := hentry i hi
  have hmem : a.capability ∈ caps := by
    obtain ⟨cap, hcap, heq⟩ := List.mem_map.mp (hcaps ▸ List.mem_map_of_mem hi)
    exact Option.some.inj (heq.trans hia) ▸ hcap
  exact ⟨a, ha, hm ▸ alone_noWorse hrange hmem⟩

theorem exists_alone_of_explored (hg : router.graph.InRange) {m : RouteMetrics K}
    (h : router.Explored t qos m) :
    ∃ a ∈ extractAgents router.graph t qos.minTrust, a.alone.NoWorse m := by
  obtain ⟨results, hok, c, hc, rfl, -, -⟩ := h
  rcases multiObjective_spec router.graph t qos.minTrust router.costModel with
    ⟨-, herr⟩ | ⟨results', hok', -, hsound, -⟩
  · rw [herr] at hok
    cases hok
  · obtain rfl := Except.ok.inj (hok.symm.trans hok')
    exact exists_alone_of_sound hg (hsound c hc)

/-- Some path of the exploration is as good as an agent that meets the constraints by itself. -/
theorem exists_explored_of_alone (hg : router.graph.InRange) (hcm : router.costModel.Positive)
    (hq : 0 ≤ qos.minQuality) (hc : 0 ≤ qos.maxCost) {a : AgentInfo K}
    (ha : a ∈ extractAgents router.graph t qos.minTrust) (hm : a.alone.Meets qos) :
    ∃ m, router.Explored t qos m ∧ router.rankCost qos m ≤ router.rankCost qos a.alone := by
  rw [← soloMetrics_eq (hg.entry ha).1] at hm ⊢
  obtain ⟨results, hok, hsound, c, hcand, hsolo⟩ := exists_solo_result ha
  rw [← hsolo] at hm ⊢
  have hcons := consistent_of_sound hsound
  obtain ⟨x, hx, habove⟩ := exists_front_above_result (.insertion _) hcons hcand
  obtain ⟨r, hr, rfl, -⟩ := of_mem_paretoFront hx
  have hund := front_undominated hcons hx
  rcases habove with heq | hdom
  · exact ⟨_, ⟨results, hok, r, of_mem_uniqueCandidates hr, rfl,
      (congrArg (·.Meets qos) heq).mpr hm, hund⟩, le_of_eq (congrArg _ heq)⟩
  · exact ⟨_, ⟨results, hok, r, of_mem_uniqueCandidates hr, rfl,
      hdom.meets (tellsApart_field K _) hm, hund⟩,
      hdom.scalarRouteCost_le (CostModel.weightsFromConstraints_nonNeg hq hc) hcm
        (CostModel.measures_field _) (CostModel.measures_field _)⟩

omit [IsStrictOrderedRing K] in
theorem offer_eq_some {pattern : RoutingPattern} {m : RouteMetrics K} :
    router.offer t qos pattern = some m ↔ (∃ s, patternSelection router.graph
      (extractAgents router.graph t qos.minTrust) pattern = some s ∧ s.metrics = m) ∧
        m.Meets qos := by
  rw [offer, Option.filter_eq_some_iff, Option.map_eq_some_iff, satisfiesConstraints_iff]

omit [IsStrictOrderedRing K] in
/-- What the best three of a ranking give. -/
theorem redundantSelection_figures (hg : router.graph.InRange) {ranked : List (AgentInfo K)}
    (hperm : ranked.Perm (extractAgents router.graph t qos.minTrust)) (overhead : Duration)
    {m : RouteMetrics K} :
    (∃ s, redundantSelection ranked 3 overhead = some s ∧ s.metrics = m) ↔
      2 ≤ ranked.length ∧ together (ranked.take 3) overhead = m := by
  have htake : ranked.take (Nat.min 3 ranked.length) = ranked.take 3 :=
    List.take_eq_take_min.symm
  have hunit : ∀ a ∈ ranked.take 3,
      0 ≤ a.capability.estimatedQuality ∧ a.capability.estimatedQuality ≤ 1 :=
    fun a ha => (hg.entry (hperm.mem_iff.mp (List.mem_of_mem_take ha))).1
  have hmin : Nat.min 3 ranked.length < 2 ↔ ¬ 2 ≤ ranked.length := by
    change Min.min 3 ranked.length < 2 ↔ _
    omega
  simp only [redundantSelection, htake, redundantMetrics_eq overhead hunit, hmin]
  by_cases hlen : 2 ≤ ranked.length
  · simp only [hlen, not_true, if_false, true_and, Option.some.injEq, exists_eq_left']
  · simp only [hlen, not_false_iff, if_true, false_and, reduceCtorEq, exists_false]

/-- What the cheapest four give as a cascade. -/
theorem cascadeSelection_figures (hg : router.graph.InRange) {m : RouteMetrics K} :
    (∃ s, cascadeSelection router.graph (extractAgents router.graph t qos.minTrust)
        (lit (7 / 10)) = some s ∧ s.metrics = m) ↔
      extractAgents router.graph t qos.minTrust ≠ [] ∧ escalated router.graph
        ((sortedByCost (extractAgents router.graph t qos.minTrust)).take 4) = m := by
  have hperm : (sortedByCost (extractAgents router.graph t qos.minTrust)).Perm
      (extractAgents router.graph t qos.minTrust) := sortAsc_perm _ _
  have hunit : ∀ a ∈ (sortedByCost (extractAgents router.graph t qos.minTrust)).take 4,
      0 ≤ a.capability.estimatedQuality ∧ a.capability.estimatedQuality ≤ 1 :=
    fun a ha => (hg.entry (hperm.mem_iff.mp (List.mem_of_mem_take ha))).1
  have hempty : (sortedByCost (extractAgents router.graph t qos.minTrust)).take 4 = [] ↔
      extractAgents router.graph t qos.minTrust = [] := by
    rw [List.take_eq_nil_iff, ← List.length_eq_zero_iff, hperm.length_eq, List.length_eq_zero_iff]
    simp
  simp only [cascadeSelection, List.isEmpty_iff, hempty]
  by_cases hne : extractAgents router.graph t qos.minTrust = []
  · simp only [hne, if_true, reduceCtorEq, false_and, exists_false, ne_eq, not_true]
  · simp only [hne, if_false, Option.some.injEq, exists_eq_left',
      cascadeMetrics_eq (mt hempty.mp hne) hunit, ne_eq, not_false_iff, true_and]

/-- The drafter by itself is as good as its draft with the refinement. -/
theorem draftRefineSelection_figures (hg : router.graph.InRange) {s : Selection K}
    (h : draftRefineSelection router.graph (extractAgents router.graph t qos.minTrust) = some s) :
    ∃ a ∈ extractAgents router.graph t qos.minTrust, a.alone.NoWorse s.metrics := by
  unfold draftRefineSelection at h
  split at h
  · cases h
  · split at h
    · cases h
    · rename_i drafter rest hcost
      split at h
      · cases h
      · rename_i refiner hfind
        obtain rfl := Option.some.inj h
        have hd : drafter ∈ extractAgents router.graph t qos.minTrust :=
          mem_sortAsc.mp (hcost ▸ List.mem_cons_self)
        have hr : refiner ∈ extractAgents router.graph t qos.minTrust :=
          mem_sortDesc.mp (List.mem_of_find?_eq_some hfind)
        refine ⟨drafter, hd, alone_noWorse ?_ List.mem_cons_self⟩
        intro cap hcap
        simp only [List.mem_cons, List.not_mem_nil, or_false] at hcap
        rcases hcap with rfl | rfl
        · exact ⟨(hg.entry hd).1, (hg.entry hd).2.1⟩
        · exact ⟨(hg.entry hr).1, (hg.entry hr).2.1⟩

/-- A pattern has nothing better on offer than an agent that nothing rivals. -/
theorem le_of_offer (hg : router.graph.InRange) (hcm : router.costModel.Positive)
    (hq : 0 ≤ qos.minQuality) (hc : 0 ≤ qos.maxCost) (hp : router.Unrivalled t qos p)
    {pattern : RoutingPattern} {m : RouteMetrics K} (h : router.offer t qos pattern = some m) :
    router.rankCost qos p.alone ≤ router.rankCost qos m := by
  obtain ⟨hselection, hm⟩ := offer_eq_some.mp h
  cases pattern with
  | pipeline =>
    obtain ⟨s, hs, -⟩ := hselection
    cases hs
  | draftRefine =>
    obtain ⟨s, hs, rfl⟩ := hselection
    obtain ⟨a, ha, hle⟩ := draftRefineSelection_figures hg hs
    exact (hp.alone a ha (hle.meets hm)).trans (rankCost_mono hcm hq hc hle)
  | parallelMerge =>
    obtain ⟨hlen, rfl⟩ := (redundantSelection_figures hg (sortDesc_perm _ _) _).mp hselection
    exact hp.merged hlen hm
  | ensemble =>
    obtain ⟨hlen, rfl⟩ := (redundantSelection_figures hg
      ((List.perm_insertionSort _ _).trans (sortDesc_perm _ _)) _).mp hselection
    exact hp.voted hlen hm
  | cascade =>
    obtain ⟨-, rfl⟩ := (cascadeSelection_figures hg).mp hselection
    exact hp.asked hm

/-- With closed gates the first choice ranks first exactly when nothing rivals the cheapest agent
    that meets the constraints by itself. -/
theorem ranksFirst_iff_unrivalled (hg : router.graph.InRange) (hcm : router.costModel.Positive)
    (hq : 0 ≤ qos.minQuality) (hc : 0 ≤ qos.maxCost)
    (hgates : GatesClosed (extractAgents router.graph t qos.minTrust) qos) :
    router.RanksFirst t qos ↔
      ∀ p, CheapestAlone (extractAgents router.graph t qos.minTrust) qos p →
        router.Unrivalled t qos p := by
  have hchosen : ∀ {p}, CheapestAlone (extractAgents router.graph t qos.minTrust) qos p →
      router.firstChoice t qos = some p.alone := by
    intro p hp
    rw [firstChoice_of_closed hgates, (find?_sortedByCost_iff hg).mpr hp, Option.map_some,
      soloMetrics_eq (hg.entry hp.eligible).1]
  constructor
  · intro hranks p hp
    have hle := hranks.chosen _ (hchosen hp)
    refine ⟨fun a ha hm => ?_, fun hlen hm => ?_, fun hlen hm => ?_, fun hm => ?_⟩
    · obtain ⟨m, hexplored, hma⟩ := exists_explored_of_alone hg hcm hq hc ha hm
      exact (hle m (Or.inr hexplored)).trans hma
    · exact hle _ (Or.inl ⟨.parallelMerge, offer_eq_some.mpr
        ⟨(redundantSelection_figures hg (sortDesc_perm _ _) _).mpr ⟨hlen, rfl⟩, hm⟩⟩)
    · exact hle _ (Or.inl ⟨.ensemble, offer_eq_some.mpr ⟨(redundantSelection_figures hg
        ((List.perm_insertionSort _ _).trans (sortDesc_perm _ _)) _).mpr ⟨hlen, rfl⟩, hm⟩⟩)
    · exact hle _ (Or.inl ⟨.cascade, offer_eq_some.mpr
        ⟨(cascadeSelection_figures hg).mpr ⟨List.ne_nil_of_mem hp.eligible, rfl⟩, hm⟩⟩)
  · intro hall
    have hfirst : ∀ c, router.firstChoice t qos = some c → ∃ p,
        CheapestAlone (extractAgents router.graph t qos.minTrust) qos p ∧ c = p.alone := by
      intro c h
      rw [firstChoice_of_closed hgates] at h
      obtain ⟨p, hfind, rfl⟩ := Option.map_eq_some_iff.mp h
      have hp := (find?_sortedByCost_iff hg).mp hfind
      exact ⟨p, hp, soloMetrics_eq (hg.entry hp.eligible).1⟩
    refine ⟨fun c h m hm => ?_, fun hnone c hexplored _ _ => ?_⟩
    · obtain ⟨p, hp, rfl⟩ := hfirst c h
      rcases hm with ⟨pattern, hoffer⟩ | hexplored
      · exact le_of_offer hg hcm hq hc (hall p hp) hoffer
      · obtain ⟨a, ha, hle⟩ := exists_alone_of_explored hg hexplored
        obtain ⟨-, -, -, -, -, hm, -⟩ := hexplored
        exact ((hall p hp).alone a ha (hle.meets hm)).trans (rankCost_mono hcm hq hc hle)
    · -- without a first choice no agent meets the constraints by itself, so no path does
      obtain ⟨a, ha, hle⟩ := exists_alone_of_explored hg hexplored
      obtain ⟨-, -, -, -, -, hm, -⟩ := hexplored
      rw [firstChoice_of_closed hgates, Option.map_eq_none_iff, List.find?_eq_none] at hnone
      have hsolo := hnone a (mem_sortAsc.mpr ha)
      rw [soloMetrics_eq (hg.entry ha).1, satisfiesConstraints_iff] at hsolo
      exact absurd (hle.meets hm) hsolo

end ClosedGates

/-- No route that is listed has a lower scalar cost than the one that is found. -/
def TopRanked (router : EconomicRouter K) (t : TaskType) (qos : QoSConstraints K)
    (hs hsPattern hsFallback : RandomState (BellmanFordResult K)) (stamps : ℕ → Stamp)
    (stamp : Stamp) : Prop :=
  ∀ route routes, router.boundedFindRoute t qos hsPattern hsFallback none stamp =
      some (.ok route) → router.boundedFindRoutes hs t qos stamps = some (.ok routes) →
    ∀ r ∈ routes, router.rankCost qos route.metrics ≤ router.rankCost qos r.metrics

variable [IsStrictOrderedRing K] {router : EconomicRouter K} {t : TaskType}
  {qos : QoSConstraints K}

/-- An analyst, and a dearer one of less quality. -/
def steadyAndSpare : EconomicRouter ℚ :=
  sample [(4 / 5, ⟨.analysis, 9 / 10, Duration.millis 100, 1 / 10⟩),
    (4 / 5, ⟨.analysis, 5 / 10, Duration.millis 100, 2 / 10⟩)]

/-- A frugal agent and an expert. -/
def frugalAndExpert : EconomicRouter ℚ :=
  sample [(4 / 5, ⟨.analysis, 6 / 10, Duration.millis 100, 1 / 10⟩),
    (4 / 5, ⟨.analysis, 95 / 100, Duration.millis 100, 2 / 10⟩)]

end EconomicRouter
end ATP
