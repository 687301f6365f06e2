import AgentTransport.Routing.Graph
import AgentTransport.Routing.Cost

/-! Routing pattern implementations: each pattern takes the capable agents of the graph, selects
    some of them for its roles and returns the route only when its metrics meet the constraints.

    Durations have no upper bound here. Where adding them, or converting a number of seconds to one,
    panics, `Bounded` has the same functions with the panic. -/

namespace ATP
open F64
variable {F : Type} [F64 F]

/-- Agent info extracted from the graph for pattern-based selection. -/
structure AgentInfo (F : Type) where
  index : ℕ
  id : AgentId
  capability : Capability F
  trust : F

/-- What the patterns need to know of the node at an index. -/
def agentInfo (g : AgentGraph F) (t : TaskType) (idx : ℕ) : Option (AgentInfo F) :=
  (g.node idx).bind fun node =>
    (node.capabilityFor t).map fun cap => ⟨idx, node.id, cap, node.trustScore⟩

/-- Extract capable agent info from the graph. -/
def extractAgents (g : AgentGraph F) (t : TaskType) (minTrust : F) : List (AgentInfo F) :=
  (g.capableAgents t minTrust).filterMap (agentInfo g t)

def sortedByCost (agents : List (AgentInfo F)) : List (AgentInfo F) :=
  sortAsc (·.capability.costPerTask) agents

def sortedByQuality (agents : List (AgentInfo F)) : List (AgentInfo F) :=
  sortDesc (·.capability.estimatedQuality) agents

/-- By quality, breaking ties by trust: `a` does not come after `b`. -/
def qualityThenTrust (a b : AgentInfo F) : Prop :=
  ¬ (a.capability.estimatedQuality < b.capability.estimatedQuality ∨
    ¬ b.capability.estimatedQuality < a.capability.estimatedQuality ∧ a.trust < b.trust)

instance : DecidableRel (qualityThenTrust (F := F)) :=
  fun _ _ => inferInstanceAs (Decidable (¬ (_ ∨ ¬ _ ∧ _)))

def makeRoute (pattern : RoutingPattern) (agents : List AgentId) (metrics : RouteMetrics F)
    (ttl : Duration) (stamp : Stamp) : Route F :=
  ⟨stamp.id, pattern, agents, metrics, stamp.now, ttl⟩

/-- The agents a pattern selected, in the order of their roles, with the metrics of the whole. -/
structure Selection (F : Type) where
  agents : List (AgentInfo F)
  metrics : RouteMetrics F

/-- The last step of every pattern: the route, if its metrics meet the constraints. -/
def checkedRoute (pattern : RoutingPattern) (selection : Option (Selection F))
    (qos : QoSConstraints F) (ttl : Duration) (stamp : Stamp) : Except RoutingError (Route F) :=
  match selection with
  | none => .error .noFeasibleRoute
  | some s =>
    if CostModel.satisfiesConstraints s.metrics qos then
      .ok (makeRoute pattern (s.agents.map (·.id)) s.metrics ttl stamp)
    else .error .noFeasibleRoute

/-- Transfer latency between two selected agents. -/
def hopLatency (g : AgentGraph F) (a b : AgentInfo F) : Duration :=
  (g.transferLatency a.index b.index).getD CostModel.defaultTransferLatency

/-- The cheapest agent drafts, the best other agent refines. -/
def draftRefineSelection (g : AgentGraph F) (agents : List (AgentInfo F)) :
    Option (Selection F) :=
  if agents.length < 2 then none
  else
    match sortedByCost agents with
    | [] => none
    | drafter :: _ =>
      match (sortedByQuality agents).find? (fun a => a.index ≠ drafter.index) with
      | none => none
      | some refiner =>
        some ⟨[drafter, refiner], CostModel.computeRouteMetrics
          [drafter.capability, refiner.capability] [hopLatency g drafter refiner]⟩

/-- Build a **DraftRefine** route. -/
def draftRefine (g : AgentGraph F) (t : TaskType) (qos : QoSConstraints F) (ttl : Duration)
    (stamp : Stamp) : Except RoutingError (Route F) :=
  checkedRoute .draftRefine (draftRefineSelection g (extractAgents g t qos.minTrust)) qos ttl stamp

/-- Redundant agents working in parallel: one failure probability times the other, the slowest
    latency plus an overhead, all the costs. -/
def redundantMetrics (selected : List (AgentInfo F)) (overhead : Duration) : RouteMetrics F where
  quality := 1 - product (selected.map fun a => 1 - clamp a.capability.estimatedQuality 0 1)
  latency := (selected.map (·.capability.estimatedLatency)).max?.getD 0 + overhead
  cost := sum (selected.map (·.capability.costPerTask))

/-- The first agents of a ranking, at least two of them, working redundantly. -/
def redundantSelection (ranked : List (AgentInfo F)) (size : ℕ) (overhead : Duration) :
    Option (Selection F) :=
  let n := Nat.min size ranked.length
  if n < 2 then none else some ⟨ranked.take n, redundantMetrics (ranked.take n) overhead⟩

/-- The best agents process independently, the coordinator merges. -/
def parallelMergeSelection (agents : List (AgentInfo F)) (parallelism : ℕ) :
    Option (Selection F) :=
  redundantSelection (sortedByQuality agents) parallelism (Duration.millis 10)

/-- Build a **ParallelMerge** route. -/
def parallelMerge (g : AgentGraph F) (t : TaskType) (qos : QoSConstraints F) (ttl : Duration)
    (parallelism : ℕ) (stamp : Stamp) : Except RoutingError (Route F) :=
  checkedRoute .parallelMerge
    (parallelMergeSelection (extractAgents g t qos.minTrust) parallelism) qos ttl stamp

/-- The best agents, the more trusted among equals, vote on the result. -/
def ensembleSelection (agents : List (AgentInfo F)) (ensembleSize : ℕ) : Option (Selection F) :=
  redundantSelection ((sortedByQuality agents).insertionSort qualityThenTrust) ensembleSize
    (Duration.millis 5)

/-- Build an **Ensemble** route. -/
def ensemble (g : AgentGraph F) (t : TaskType) (qos : QoSConstraints F) (ttl : Duration)
    (ensembleSize : ℕ) (stamp : Stamp) : Except RoutingError (Route F) :=
  checkedRoute .ensemble (ensembleSelection (extractAgents g t qos.minTrust) ensembleSize) qos ttl
    stamp

/-- Running totals of a cascade: expected metrics and the probability of getting this far. -/
structure CascadeTotals (F : Type) where
  quality : F
  latency : Duration
  cost : F
  probReach : F

/-- One level of a cascade, with the level that takes over from it. -/
def cascadeLevel (g : AgentGraph F) (confidenceThreshold : F) (acc : CascadeTotals F)
    (agent : AgentInfo F) (next : Option (AgentInfo F)) : CascadeTotals F :=
  let q := clamp agent.capability.estimatedQuality 0 1
  let pConfident := if q ≥ confidenceThreshold then q else q * lit (1 / 2)
  let pHandle := acc.probReach * pConfident
  let transfer := match next with
    | some b => secsOf (acc.probReach * (1 - pConfident) * asSecs (hopLatency g agent b))
    | none => 0
  { quality := acc.quality + pHandle * q
    latency := acc.latency +
      secsOf (acc.probReach * asSecs agent.capability.estimatedLatency) + transfer
    cost := acc.cost + acc.probReach * agent.capability.costPerTask
    probReach := acc.probReach * (1 - pConfident) }

def cascadeLoop (g : AgentGraph F) (confidenceThreshold : F) :
    CascadeTotals F → List (AgentInfo F) → CascadeTotals F
  | acc, [] => acc
  | acc, agent :: rest =>
    cascadeLoop g confidenceThreshold
      (cascadeLevel g confidenceThreshold acc agent rest.head?) rest

/-- Expected metrics of a cascade; what no level is confident about, the last one handles. -/
def cascadeMetrics (g : AgentGraph F) (confidenceThreshold : F) (chain : List (AgentInfo F)) :
    RouteMetrics F :=
  let acc := cascadeLoop g confidenceThreshold ⟨lit 0, 0, lit 0, lit 1⟩ chain
  let quality := match chain.getLast? with
    | some last =>
      if acc.probReach > 0 then acc.quality + acc.probReach * last.capability.estimatedQuality
      else acc.quality
    | none => acc.quality
  ⟨clamp quality 0 1, acc.latency, acc.cost⟩

/-- Try the cheapest first, escalate up to four levels. -/
def cascadeSelection (g : AgentGraph F) (agents : List (AgentInfo F)) (confidenceThreshold : F) :
    Option (Selection F) :=
  let chain := (sortedByCost agents).take 4
  if chain.isEmpty then none else some ⟨chain, cascadeMetrics g confidenceThreshold chain⟩

/-- Build a **Cascade** route. -/
def cascade (g : AgentGraph F) (t : TaskType) (qos : QoSConstraints F) (ttl : Duration)
    (confidenceThreshold : F) (stamp : Stamp) : Except RoutingError (Route F) :=
  checkedRoute .cascade
    (cascadeSelection g (extractAgents g t qos.minTrust) confidenceThreshold) qos ttl stamp

/-- The metrics of an agent by itself. -/
def soloMetrics (a : AgentInfo F) : RouteMetrics F :=
  CostModel.computeRouteMetrics [a.capability] []

/-- The cheapest agent that meets the constraints by itself. -/
def cheapestSingle (agents : List (AgentInfo F)) (qos : QoSConstraints F) (ttl : Duration)
    (stamp : Stamp) : Except RoutingError (Route F) :=
  match (sortedByCost agents).find?
      (fun a => CostModel.satisfiesConstraints (soloMetrics a) qos) with
  | some a => .ok (makeRoute .pipeline [a.id] (soloMetrics a) ttl stamp)
  | none => .error .noFeasibleRoute

/-- The middle element of the sorted costs. -/
def medianCost (agents : List (AgentInfo F)) : F :=
  ((sortAsc id (agents.map (·.capability.costPerTask)))[agents.length / 2]?).getD 0

/-- When the gate is open, the route if there is one; otherwise go on. -/
def attempt (gate : Bool) (route next : Except RoutingError (Route F)) :
    Except RoutingError (Route F) :=
  match gate, route with
  | true, .ok r => .ok r
  | _, _ => next

/-- The budget is tight for at least two agents. -/
def budgetGate (agents : List (AgentInfo F)) (qos : QoSConstraints F) : Bool :=
  decide (qos.maxCost < medianCost agents * lit (3 / 2)) && decide (2 ≤ agents.length)

/-- Quality is paramount. -/
def qualityGate (agents : List (AgentInfo F)) (qos : QoSConstraints F) : Bool :=
  decide (qos.minQuality ≥ lit (9 / 10)) && decide (2 ≤ agents.length)

/-- Latency is tight. -/
def latencyGate (agents : List (AgentInfo F)) (qos : QoSConstraints F) : Bool :=
  decide (qos.maxLatency ≤ Duration.millis 500) && decide (2 ≤ agents.length)

/-- Automatically select the best pattern for given constraints and agents. -/
def autoSelectPattern (g : AgentGraph F) (t : TaskType) (qos : QoSConstraints F)
    (ttl : Duration) (stamp : Stamp) : Except RoutingError (Route F) :=
  let agents := extractAgents g t qos.minTrust
  if agents.isEmpty then .error .noFeasibleRoute
  else
    attempt (budgetGate agents qos) (cascade g t qos ttl (lit (7 / 10)) stamp) <|
    attempt (budgetGate agents qos) (draftRefine g t qos ttl stamp) <|
    attempt (qualityGate agents qos) (ensemble g t qos ttl 3 stamp) <|
    attempt (latencyGate agents qos) (parallelMerge g t qos ttl 3 stamp) <|
    cheapestSingle agents qos ttl stamp

/-! ### The agents a pattern selects from -/

omit [F64 F] in
theorem agentInfo_eq_some {g : AgentGraph F} {t : TaskType} {i : ℕ} {a : AgentInfo F} :
    agentInfo g t i = some a ↔ ∃ n cap, g.node i = some n ∧ n.capabilityFor t = some cap ∧
      a = ⟨i, n.id, cap, n.trustScore⟩ := by
  unfold agentInfo
  cases g.node i with
  | none => simp
  | some n => simp [eq_comm]

theorem mem_extractAgents {g : AgentGraph F} {t : TaskType} {minTrust : F} {a : AgentInfo F} :
    a ∈ extractAgents g t minTrust ↔
      a.index ∈ g.capableAgents t minTrust ∧ agentInfo g t a.index = some a := by
  rw [extractAgents, List.mem_filterMap]
  constructor
  · rintro ⟨i, hi, ha⟩
    obtain ⟨n, cap, _, _, rfl⟩ := agentInfo_eq_some.mp ha
    exact ⟨hi, ha⟩
  · rintro ⟨hi, ha⟩
    exact ⟨a.index, hi, ha⟩

/-- Every capable index has its entry. -/
theorem exists_mem_extractAgents {g : AgentGraph F} {t : TaskType} {minTrust : F} {i : ℕ}
    (h : i ∈ g.capableAgents t minTrust) : ∃ a ∈ extractAgents g t minTrust, a.index = i := by
  obtain ⟨n, hn, hs⟩ := AgentGraph.mem_capableAgents.mp h
  obtain ⟨cap, hcap⟩ := Option.isSome_iff_exists.mp hs.capable
  exact ⟨⟨i, n.id, cap, n.trustScore⟩,
    mem_extractAgents.mpr ⟨h, agentInfo_eq_some.mpr ⟨n, cap, hn, hcap, rfl⟩⟩, rfl⟩

theorem node_of_mem_extractAgents {g : AgentGraph F} {t : TaskType} {minTrust : F}
    {a : AgentInfo F} (h : a ∈ extractAgents g t minTrust) : ∃ n, g.node a.index = some n ∧
      n.id = a.id ∧ n.capabilityFor t = some a.capability := by
  obtain ⟨n, cap, hn, hcap, ha⟩ := agentInfo_eq_some.mp (mem_extractAgents.mp h).2
  rw [ha]
  exact ⟨n, hn, rfl, hcap⟩

/-- A selected agent is available, trusted and capable. -/
theorem serves_of_mem_extractAgents {g : AgentGraph F} {t : TaskType} {minTrust : F}
    {a : AgentInfo F} (h : a ∈ extractAgents g t minTrust) :
    ∃ n, g.nodeById a.id = some n ∧ AgentGraph.Serves n t minTrust := by
  obtain ⟨m, hm, hs⟩ := AgentGraph.mem_capableAgents.mp (mem_extractAgents.mp h).1
  obtain ⟨n, hn, hid, _⟩ := node_of_mem_extractAgents h
  obtain rfl := Option.some.inj (hm.symm.trans hn)
  rw [← hid]
  exact ⟨m, AgentGraph.nodeById_of_node hn, hs⟩

/-- Agents at different indices are different agents. -/
theorem id_ne_of_index_ne {g : AgentGraph F} {t : TaskType} {minTrust : F} {a b : AgentInfo F}
    (ha : a ∈ extractAgents g t minTrust) (hb : b ∈ extractAgents g t minTrust)
    (h : a.index ≠ b.index) : a.id ≠ b.id := by
  intro hid
  obtain ⟨n, hn, hna, _⟩ := node_of_mem_extractAgents ha
  obtain ⟨m, hm, hmb, _⟩ := node_of_mem_extractAgents hb
  exact h (AgentGraph.index_unique hn hm (by rw [hna, hmb, hid]))

theorem nodup_ids_extractAgents (g : AgentGraph F) (t : TaskType) (minTrust : F) :
    ((extractAgents g t minTrust).map (·.id)).Nodup := by
  have hidx : ((extractAgents g t minTrust).map (·.index)).Nodup := by
    have hsub : ∀ l : List ℕ, ((l.filterMap (agentInfo g t)).map (·.index)).Sublist l := by
      intro l
      induction l with
      | nil => exact List.Sublist.refl _
      | cons i l ih =>
        rw [List.filterMap_cons]
        cases ha : agentInfo g t i with
        | none => exact ih.cons i
        | some a =>
          obtain ⟨n, cap, _, _, rfl⟩ := agentInfo_eq_some.mp ha
          exact ih.cons_cons i
    exact (hsub _).nodup (g.nodup_capableAgents t minTrust)
  refine List.pairwise_map.mpr ((List.pairwise_map.mp hidx).imp_of_mem ?_)
  intro a b ha hb hne
  exact id_ne_of_index_ne ha hb hne

/-! ### When the patterns succeed -/

/-- A selection of different agents out of the capable ones. -/
structure Selection.Sound (s : Selection F) (agents : List (AgentInfo F)) : Prop where
  nonempty : s.agents ≠ []
  mem : ∀ a ∈ s.agents, a ∈ agents
  nodup : (s.agents.map (·.id)).Nodup

omit [F64 F] in
/-- Agents taken from the front of a ranking. -/
theorem taken_sound {agents ranked : List (AgentInfo F)} {n : ℕ} {m : RouteMetrics F}
    (hnd : (agents.map (·.id)).Nodup) (hperm : ranked.Perm agents) (hne : ranked.take n ≠ []) :
    (Selection.mk (ranked.take n) m).Sound agents where
  nonempty := hne
  mem _ ha := hperm.mem_iff.mp (List.mem_of_mem_take ha)
  nodup := ((List.take_sublist n ranked).map _).nodup ((hperm.map _).nodup_iff.mpr hnd)

theorem redundantSelection_sound {agents ranked : List (AgentInfo F)} {size : ℕ}
    {overhead : Duration} {s : Selection F} (hnd : (agents.map (·.id)).Nodup)
    (hperm : ranked.Perm agents) (h : redundantSelection ranked size overhead = some s) :
    s.Sound agents := by
  simp only [redundantSelection] at h
  split at h
  · simp at h
  · rename_i hn
    obtain rfl := Option.some.inj h
    refine taken_sound hnd hperm ?_
    simp only [ne_eq, List.take_eq_nil_iff, not_or]
    refine ⟨by omega, ?_⟩
    rintro rfl
    simp at hn

theorem draftRefineSelection_sound {g : AgentGraph F} {t : TaskType} {minTrust : F}
    {s : Selection F} (h : draftRefineSelection g (extractAgents g t minTrust) = some s) :
    s.Sound (extractAgents g t minTrust) := by
  unfold draftRefineSelection at h
  split at h
  · simp at h
  · split at h
    · simp at h
    · rename_i drafter rest hcost
      split at h
      · simp at h
      · rename_i refiner hfind
        obtain rfl := Option.some.inj h
        have hd : drafter ∈ extractAgents g t minTrust := by
          have hmem : drafter ∈ sortedByCost (extractAgents g t minTrust) := by
            rw [hcost]; exact List.mem_cons_self
          exact mem_sortAsc.mp hmem
        have hr : refiner ∈ extractAgents g t minTrust :=
          mem_sortDesc.mp (List.mem_of_find?_eq_some hfind)
        have hidx : refiner.index ≠ drafter.index := by
          simpa using List.find?_some hfind
        refine ⟨by simp, by simp [hd, hr], ?_⟩
        simpa using (id_ne_of_index_ne hr hd hidx).symm

theorem cascadeSelection_sound {g : AgentGraph F} {agents : List (AgentInfo F)} {c : F}
    {s : Selection F} (hnd : (agents.map (·.id)).Nodup)
    (h : cascadeSelection g agents c = some s) : s.Sound agents := by
  simp only [cascadeSelection] at h
  split at h
  · simp at h
  · rename_i hne
    obtain rfl := Option.some.inj h
    exact taken_sound hnd (sortAsc_perm _ _) (fun h => hne (List.isEmpty_iff.mpr h))

theorem checkedRoute_eq_ok {pattern : RoutingPattern} {selection : Option (Selection F)}
    {qos : QoSConstraints F} {ttl : Duration} {stamp : Stamp} {r : Route F} :
    checkedRoute pattern selection qos ttl stamp = .ok r ↔
      ∃ s, selection = some s ∧ s.metrics.Meets qos ∧
        r = makeRoute pattern (s.agents.map (·.id)) s.metrics ttl stamp := by
  cases selection with
  | none => simp [checkedRoute]
  | some s =>
    simp only [checkedRoute, Option.some.injEq, exists_eq_left']
    by_cases h : CostModel.satisfiesConstraints s.metrics qos = true
    · rw [if_pos h, Except.ok.injEq, eq_comm]
      simp [satisfiesConstraints_iff.mp h]
    · rw [if_neg h]
      have hm : ¬ s.metrics.Meets qos := fun hm => h (satisfiesConstraints_iff.mpr hm)
      simp [hm]

theorem checkedRoute_pattern {pattern : RoutingPattern} {selection : Option (Selection F)}
    {qos : QoSConstraints F} {ttl : Duration} {stamp : Stamp} {route : Route F}
    (h : checkedRoute pattern selection qos ttl stamp = .ok route) : route.pattern = pattern := by
  obtain ⟨s, -, -, rfl⟩ := checkedRoute_eq_ok.mp h
  rfl

/-- A pattern succeeds exactly when the metrics of its selection meet the constraints. -/
theorem checkedRoute_ok_iff {pattern : RoutingPattern} {selection : Option (Selection F)}
    {qos : QoSConstraints F} {ttl : Duration} {stamp : Stamp} :
    (∃ r, checkedRoute pattern selection qos ttl stamp = .ok r) ↔
      ∃ s, selection = some s ∧ s.metrics.Meets qos := by
  simp only [checkedRoute_eq_ok]
  constructor
  · rintro ⟨_, s, hs, hm, _⟩
    exact ⟨s, hs, hm⟩
  · rintro ⟨s, hs, hm⟩
    exact ⟨_, s, hs, hm, rfl⟩

omit [F64 F] in
theorem attempt_eq_ok {gate : Bool} {route next : Except RoutingError (Route F)} {r : Route F}
    (h : attempt gate route next = .ok r) : gate = true ∧ route = .ok r ∨ next = .ok r := by
  unfold attempt at h
  split at h
  · exact Or.inl ⟨rfl, h⟩
  · exact Or.inr h

omit [F64 F] in
/-- An attempt succeeds exactly when its open gate leads to a route or what follows succeeds. -/
theorem attempt_ok_iff {gate : Bool} {route next : Except RoutingError (Route F)} :
    (∃ r, attempt gate route next = .ok r) ↔
      (gate = true ∧ ∃ r, route = .ok r) ∨ ∃ r, next = .ok r := by
  constructor
  · rintro ⟨r, h⟩
    exact (attempt_eq_ok h).imp (fun h => ⟨h.1, r, h.2⟩) (fun h => ⟨r, h⟩)
  · rintro (⟨rfl, r, rfl⟩ | ⟨r, rfl⟩)
    · exact ⟨r, rfl⟩
    · unfold attempt
      split
      · exact ⟨_, rfl⟩
      · exact ⟨r, rfl⟩

/-- The ways an automatic selection comes to its route: through an open gate, or by default. -/
theorem autoSelectPattern_cases {g : AgentGraph F} {t : TaskType} {qos : QoSConstraints F}
    {ttl : Duration} {stamp : Stamp} {r : Route F}
    (h : autoSelectPattern g t qos ttl stamp = .ok r) :
    (budgetGate (extractAgents g t qos.minTrust) qos = true ∧
      cascade g t qos ttl (lit (7 / 10)) stamp = .ok r) ∨
    (budgetGate (extractAgents g t qos.minTrust) qos = true ∧
      draftRefine g t qos ttl stamp = .ok r) ∨
    (qualityGate (extractAgents g t qos.minTrust) qos = true ∧
      ensemble g t qos ttl 3 stamp = .ok r) ∨
    (latencyGate (extractAgents g t qos.minTrust) qos = true ∧
      parallelMerge g t qos ttl 3 stamp = .ok r) ∨
    cheapestSingle (extractAgents g t qos.minTrust) qos ttl stamp = .ok r := by
  simp only [autoSelectPattern] at h
  split at h
  · simp at h
  · refine (attempt_eq_ok h).imp_right fun h => ?_
    refine (attempt_eq_ok h).imp_right fun h => ?_
    exact (attempt_eq_ok h).imp_right attempt_eq_ok

end ATP
