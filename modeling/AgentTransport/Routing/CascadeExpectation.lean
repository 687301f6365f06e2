import AgentTransport.Routing.Soundness
import AgentTransport.Routing.ScalarCost
import AgentTransport.Lib.Escalation
import AgentTransport.Lib.Ties

/-! The metrics of a cascade as expected values. A level is reached when no level before it was
    confident; the last one also handles what nobody is confident about:

        reach ─▶ a₁ ──▶ a₂ ──▶ … ──▶ aₙ ──▶ fallback to aₙ
                 │      │            │
                 ▼      ▼            ▼     handled, by the agent's confidence

    So the quality is a mean of the qualities, and cost and latency are between those of the first
    agent alone and those of all. -/

namespace ATP
open F64 Collections Escalation

section Exact
variable {K : Type} [Field K] [LinearOrder K] [FloorRing K]

/-- The probability that a level is confident about its result. -/
def confidence (threshold : K) (a : AgentInfo K) : K :=
  let q := clamp a.capability.estimatedQuality 0 1
  if q ≥ threshold then q else q * lit (1 / 2)

/-- The levels of a chain, each with the probability that it handles what reaches it. -/
def levels (threshold : K) (chain : List (AgentInfo K)) : List (K × AgentInfo K) :=
  chain.map fun a => (confidence threshold a, a)

/-- The probabilities with which the levels of a chain handle a task. -/
def handling (threshold : K) (chain : List (AgentInfo K)) : List K :=
  (stopping 1 (levels threshold chain)).map (·.1)

/-- The probability that no level is confident. -/
def fallback (threshold : K) (chain : List (AgentInfo K)) : K :=
  left 1 (levels threshold chain)

/-- All capabilities have a quality in the unit interval, a cost that is not negative, and a latency
    that a duration can hold. -/
structure AgentGraph.InRange (g : AgentGraph K) : Prop where
  quality : ∀ i n, g.node i = some n → ∀ cap ∈ n.capabilities,
    0 ≤ cap.estimatedQuality ∧ cap.estimatedQuality ≤ 1
  cost : ∀ i n, g.node i = some n → ∀ cap ∈ n.capabilities, 0 ≤ cap.costPerTask
  latency : ∀ i n, g.node i = some n → ∀ cap ∈ n.capabilities,
    cap.estimatedLatency ≤ maxDuration

/-- The cheapest agents that serve a request, up to four of them, the cheapest first. -/
structure CheapestChain (g : AgentGraph K) (t : TaskType) (minTrust : K)
    (chain : List (AgentInfo K)) : Prop where
  length : chain.length = Min.min 4 (g.capableAgents t minTrust).length
  eligible : ∀ a ∈ chain, a ∈ extractAgents g t minTrust
  nodup : (chain.map (·.id)).Nodup
  sorted : chain.Pairwise fun a b => a.capability.costPerTask ≤ b.capability.costPerTask
  cheapest : ∀ a ∈ chain, ∀ b ∈ extractAgents g t minTrust, b.id ∉ chain.map (·.id) →
    a.capability.costPerTask ≤ b.capability.costPerTask

/-- The probabilities of a chain sum to one and are those the loop computes with, and the metrics
    are between what they average. -/
structure Expected (g : AgentGraph K) (threshold : K) (chain : List (AgentInfo K))
    (m : RouteMetrics K) : Prop where
  nonneg : (∀ p ∈ handling threshold chain, 0 ≤ p) ∧ 0 ≤ fallback threshold chain
  total : (handling threshold chain).sum + fallback threshold chain = 1
  reach : (cascadeLoop g threshold ⟨0, 0, 0, 1⟩ chain).probReach = fallback threshold chain
  mean : ∃ last, chain.getLast? = some last ∧ m.quality =
    (List.zipWith (fun p a => p * a.capability.estimatedQuality) (handling threshold chain)
      chain).sum + fallback threshold chain * last.capability.estimatedQuality
  quality_ge : ∃ a ∈ chain, a.capability.estimatedQuality ≤ m.quality
  quality_le : ∃ a ∈ chain, m.quality ≤ a.capability.estimatedQuality
  cost_ge : ∃ a, chain.head? = some a ∧ a.capability.costPerTask ≤ m.cost
  cost_le : m.cost ≤ (chain.map (·.capability.costPerTask)).sum
  latency_ge : ∃ a, chain.head? = some a ∧ a.capability.estimatedLatency ≤ m.latency
  latency_le : m.latency ≤ (chain.map (·.capability.estimatedLatency)).sum +
    (pathTransfers g (chain.map (·.index))).sum

variable {g : AgentGraph K} {t : TaskType} {minTrust threshold : K} {qos : QoSConstraints K}

/-! ### The chain -/

/-- Every capable agent has one entry. -/
theorem length_extractAgents :
    (extractAgents g t minTrust).length = (g.capableAgents t minTrust).length := by
  have hall : ∀ l : List ℕ, (∀ i ∈ l, i ∈ g.capableAgents t minTrust) →
      (l.filterMap (agentInfo g t)).length = l.length := by
    intro l
    induction l with
    | nil => simp
    | cons i l ih =>
      intro h
      obtain ⟨a, ha, rfl⟩ := exists_mem_extractAgents (h i List.mem_cons_self)
      rw [List.filterMap_cons_some (mem_extractAgents.mp ha).2, List.length_cons,
        List.length_cons, ih fun j hj => h j (List.mem_cons_of_mem _ hj)]
  exact hall _ fun _ hi => hi

theorem cheapestChain_take : CheapestChain g t minTrust
    ((sortedByCost (extractAgents g t minTrust)).take 4) := by
  have hperm : (sortedByCost (extractAgents g t minTrust)).Perm (extractAgents g t minTrust) :=
    sortAsc_perm _ _
  have hsorted : (sortedByCost (extractAgents g t minTrust)).Pairwise fun a b =>
      a.capability.costPerTask ≤ b.capability.costPerTask := pairwise_sortAsc _ _
  refine ⟨?_, fun a ha => hperm.mem_iff.mp (List.mem_of_mem_take ha), ?_,
    hsorted.sublist (List.take_sublist _ _), fun a ha b hb hnew => ?_⟩
  · rw [List.length_take, hperm.length_eq, length_extractAgents]
  · exact ((hperm.map _).nodup_iff.mpr (nodup_ids_extractAgents g t minTrust)).sublist
      ((List.take_sublist _ _).map _)
  · -- what is not among the first four comes after them
    have hb' := hperm.mem_iff.mpr hb
    rw [← List.take_append_drop 4 (sortedByCost (extractAgents g t minTrust))] at hb' hsorted
    rcases List.mem_append.mp hb' with hb' | hb'
    · exact absurd (List.mem_map_of_mem hb') hnew
    · exact (List.pairwise_append.mp hsorted).2.2 a ha b hb'

theorem AgentGraph.InRange.entry (hg : g.InRange) {a : AgentInfo K}
    (ha : a ∈ extractAgents g t minTrust) :
    (0 ≤ a.capability.estimatedQuality ∧ a.capability.estimatedQuality ≤ 1) ∧
      0 ≤ a.capability.costPerTask ∧ a.capability.estimatedLatency ≤ maxDuration := by
  obtain ⟨n, hn, -, hcap⟩ := node_of_mem_extractAgents ha
  have hmem : a.capability ∈ n.capabilities := List.mem_of_find?_eq_some hcap
  exact ⟨hg.quality _ n hn _ hmem, hg.cost _ n hn _ hmem, hg.latency _ n hn _ hmem⟩

theorem AgentGraph.inRange_of_nodes (h : ∀ n ∈ g.nodes, ∀ cap ∈ n.capabilities,
    (0 ≤ cap.estimatedQuality ∧ cap.estimatedQuality ≤ 1) ∧ 0 ≤ cap.costPerTask ∧
      cap.estimatedLatency ≤ maxDuration) : g.InRange where
  quality _ n hn cap hcap := (h n (List.mem_of_getElem? hn) cap hcap).1
  cost _ n hn cap hcap := (h n (List.mem_of_getElem? hn) cap hcap).2.1
  latency _ n hn cap hcap := (h n (List.mem_of_getElem? hn) cap hcap).2.2

/-! ### The loop -/

/-- The loop adds up what the levels handle and leaves the probability of the fallback. -/
theorem cascadeLoop_quality : ∀ (chain : List (AgentInfo K)) (acc : CascadeTotals K),
    (cascadeLoop g threshold acc chain).quality = acc.quality +
        ((stopping acc.probReach (levels threshold chain)).map fun p =>
          p.1 * clamp p.2.capability.estimatedQuality 0 1).sum ∧
      (cascadeLoop g threshold acc chain).probReach = left acc.probReach (levels threshold chain)
  | [], acc => by simp [cascadeLoop, levels, stopping, left]
  | a :: rest, acc => by
    obtain ⟨hquality, hreach⟩ :=
      cascadeLoop_quality rest (cascadeLevel g threshold acc a rest.head?)
    refine ⟨?_, hreach⟩
    rw [cascadeLoop, hquality]
    simp only [levels, List.map_cons, stopping, List.sum_cons, ← add_assoc]
    rfl

theorem stopping_agents (chain : List (AgentInfo K)) :
    (stopping 1 (levels threshold chain)).map (·.2) = chain := by
  rw [map_stopping, levels, List.map_map]
  exact List.map_id chain

/-- The totals with which a cascade starts. -/
theorem start_eq : (⟨lit 0, 0, lit 0, lit 1⟩ : CascadeTotals K) = ⟨0, 0, 0, 1⟩ := by
  simp only [lit_field, Rat.cast_zero, Rat.cast_one]

variable [IsStrictOrderedRing K]

theorem confidence_unit (threshold : K) (a : AgentInfo K) :
    0 ≤ confidence threshold a ∧ confidence threshold a ≤ 1 := by
  have hq : 0 ≤ clamp a.capability.estimatedQuality (0 : K) 1 ∧
      clamp a.capability.estimatedQuality (0 : K) 1 ≤ 1 := clamp_unit (isNum_field _)
  simp only [confidence]
  split_ifs
  · exact hq
  · have hhalf : (lit (1 / 2) : K) = 1 / 2 := by norm_num [lit_field]
    rw [hhalf]
    constructor <;> linarith [hq.1, hq.2]

theorem levels_unit (threshold : K) (chain : List (AgentInfo K)) :
    ∀ p ∈ levels threshold chain, 0 ≤ p.1 ∧ p.1 ≤ 1 := by
  intro p hp
  obtain ⟨a, -, rfl⟩ := List.mem_map.mp hp
  exact confidence_unit threshold a

/-- A level passes on a part of what reaches it. -/
theorem reach_unit (g : AgentGraph K) (threshold : K) {acc : CascadeTotals K}
    (h : 0 ≤ acc.probReach ∧ acc.probReach ≤ 1) (a : AgentInfo K)
    (next : Option (AgentInfo K)) :
    0 ≤ (cascadeLevel g threshold acc a next).probReach ∧
      (cascadeLevel g threshold acc a next).probReach ≤ 1 := by
  obtain ⟨hc0, hc1⟩ := confidence_unit threshold a
  change 0 ≤ acc.probReach * (1 - confidence threshold a) ∧
    acc.probReach * (1 - confidence threshold a) ≤ 1
  exact ⟨mul_nonneg h.1 (by linarith), mul_le_one₀ h.2 (by linarith) (by linarith)⟩

/-- The loop adds at most the cost of each agent, and nothing negative. -/
theorem cascadeLoop_cost (g : AgentGraph K) (threshold : K) :
    ∀ (chain : List (AgentInfo K)) {acc : CascadeTotals K},
      0 ≤ acc.probReach ∧ acc.probReach ≤ 1 → (∀ a ∈ chain, 0 ≤ a.capability.costPerTask) →
      acc.cost ≤ (cascadeLoop g threshold acc chain).cost ∧
        (cascadeLoop g threshold acc chain).cost ≤
          acc.cost + (chain.map (·.capability.costPerTask)).sum
  | [], acc, _, _ => by simp [cascadeLoop]
  | a :: rest, acc, hreach, hcost => by
    have hnext := reach_unit g threshold hreach a rest.head?
    obtain ⟨hge, hle⟩ := cascadeLoop_cost g threshold rest hnext
      fun b hb => hcost b (List.mem_cons_of_mem _ hb)
    have hlevel : (cascadeLevel g threshold acc a rest.head?).cost =
        acc.cost + acc.probReach * a.capability.costPerTask := rfl
    have ha : 0 ≤ a.capability.costPerTask := hcost a List.mem_cons_self
    have hpart : 0 ≤ acc.probReach * a.capability.costPerTask := mul_nonneg hreach.1 ha
    have hpart' : acc.probReach * a.capability.costPerTask ≤ a.capability.costPerTask :=
      mul_le_of_le_one_left ha hreach.2
    rw [cascadeLoop, List.map_cons, List.sum_cons]
    constructor <;> linarith

/-- A level adds at most the latency of its agent and that of the transfer to the next. -/
theorem cascadeLevel_latency {acc : CascadeTotals K}
    (hreach : 0 ≤ acc.probReach ∧ acc.probReach ≤ 1) (a : AgentInfo K)
    (rest : List (AgentInfo K)) :
    (cascadeLevel g threshold acc a rest.head?).latency +
        (pathTransfers g (rest.map (·.index))).sum ≤
      acc.latency + a.capability.estimatedLatency +
        (pathTransfers g ((a :: rest).map (·.index))).sum := by
  have hpart : secsOf (acc.probReach * asSecs a.capability.estimatedLatency) ≤
      a.capability.estimatedLatency := secsOf_mul_asSecs_le hreach.2 _
  cases rest with
  | nil =>
    simpa [cascadeLevel, pathTransfers] using hpart
  | cons b rest =>
    have hpass : secsOf (acc.probReach * (1 - confidence threshold a) *
        asSecs (hopLatency g a b)) ≤ hopLatency g a b :=
      secsOf_mul_asSecs_le (reach_unit g threshold hreach a none).2 _
    have hhop : (pathTransfers g ((a :: b :: rest).map (·.index))).sum =
        hopLatency g a b + (pathTransfers g ((b :: rest).map (·.index))).sum := rfl
    rw [hhop, ← Nat.add_assoc]
    exact Nat.add_le_add_right (Nat.add_le_add (Nat.add_le_add_left hpart acc.latency) hpass) _

/-- The loop adds at most the latency of each agent and of each transfer. -/
theorem cascadeLoop_latency (g : AgentGraph K) (threshold : K) :
    ∀ (chain : List (AgentInfo K)) {acc : CascadeTotals K},
      0 ≤ acc.probReach ∧ acc.probReach ≤ 1 →
      acc.latency ≤ (cascadeLoop g threshold acc chain).latency ∧
        (cascadeLoop g threshold acc chain).latency ≤
          acc.latency + (chain.map (·.capability.estimatedLatency)).sum +
            (pathTransfers g (chain.map (·.index))).sum
  | [], acc, _ => by simp [cascadeLoop, pathTransfers]
  | a :: rest, acc, hreach => by
    have hnext := reach_unit g threshold hreach a rest.head?
    obtain ⟨hge, hle⟩ := cascadeLoop_latency g threshold rest hnext
    have hlevel : (cascadeLevel g threshold acc a rest.head?).latency +
        (pathTransfers g (rest.map (·.index))).sum ≤ acc.latency + a.capability.estimatedLatency +
          (pathTransfers g ((a :: rest).map (·.index))).sum := cascadeLevel_latency hreach a rest
    have hkeep : acc.latency ≤ (cascadeLevel g threshold acc a rest.head?).latency := by
      simp only [cascadeLevel, Nat.add_assoc]
      exact Nat.le_add_right _ _
    refine ⟨hkeep.trans hge, hle.trans ?_⟩
    have hshift : ∀ x u y z w v : ℕ, x + u ≤ y + z + w → x + v + u ≤ y + (z + v) + w := by
      intros
      omega
    exact hshift _ _ _ _ _ _ hlevel

/-! ### The metrics -/

/-- The agents that may handle a task are those of the chain. -/
theorem mem_of_mem_law {chain : List (AgentInfo K)} {last : AgentInfo K}
    (hlast : chain.getLast? = some last) {p : K × AgentInfo K}
    (hp : p ∈ (law (levels threshold chain) last (levels_unit threshold chain)).atoms) :
    p.2 ∈ chain := by
  rcases List.mem_append.mp hp with hp | hp
  · have hmem := List.mem_map_of_mem (f := fun p : K × AgentInfo K => p.2) hp
    rwa [stopping_agents] at hmem
  · rw [List.mem_singleton.mp hp]
    exact List.mem_of_getLast? hlast

/-- The quality of a cascade is the mean of the quality of the agent that handles the task. -/
theorem cascadeMetrics_quality {chain : List (AgentInfo K)} {last : AgentInfo K}
    (hlast : chain.getLast? = some last)
    (hunit : ∀ a ∈ chain, 0 ≤ a.capability.estimatedQuality ∧ a.capability.estimatedQuality ≤ 1) :
    (cascadeMetrics g threshold chain).quality =
      (law (levels threshold chain) last (levels_unit threshold chain)).mean
        (·.capability.estimatedQuality) := by
  have hmem : ∀ p ∈ (law (levels threshold chain) last (levels_unit threshold chain)).atoms,
      0 ≤ p.2.capability.estimatedQuality ∧ p.2.capability.estimatedQuality ≤ 1 :=
    fun p hp => hunit p.2 (mem_of_mem_law hlast hp)
  have hmean : (law (levels threshold chain) last (levels_unit threshold chain)).mean
      (·.capability.estimatedQuality) = (cascadeLoop g threshold ⟨0, 0, 0, 1⟩ chain).quality +
        left 1 (levels threshold chain) * last.capability.estimatedQuality := by
    rw [(cascadeLoop_quality chain ⟨0, 0, 0, 1⟩).1, zero_add]
    simp only [Distribution.mean, law, List.map_append, List.sum_append, List.map_singleton,
      List.sum_singleton]
    congr 2
    refine List.map_congr_left fun p hp => ?_
    rw [clamp_of_unit (hmem p (List.mem_append_left _ hp))]
  have hleft : 0 ≤ left 1 (levels threshold chain) :=
    (nonneg_stopping zero_le_one (levels_unit threshold chain)).2
  have hinner : (if (cascadeLoop g threshold ⟨0, 0, 0, 1⟩ chain).probReach > 0 then
      (cascadeLoop g threshold ⟨0, 0, 0, 1⟩ chain).quality +
        (cascadeLoop g threshold ⟨0, 0, 0, 1⟩ chain).probReach * last.capability.estimatedQuality
      else (cascadeLoop g threshold ⟨0, 0, 0, 1⟩ chain).quality) =
      (law (levels threshold chain) last (levels_unit threshold chain)).mean
        (·.capability.estimatedQuality) := by
    rw [hmean, (cascadeLoop_quality chain ⟨0, 0, 0, 1⟩).2]
    split_ifs with hpos
    · rfl
    · -- nothing is left for the fallback
      rw [le_antisymm (not_lt.mp hpos) hleft, zero_mul, add_zero]
  simp only [cascadeMetrics, start_eq, hlast, hinner]
  exact clamp_of_unit ⟨Distribution.le_mean fun p hp => (hmem p hp).1,
    Distribution.mean_le fun p hp => (hmem p hp).2⟩

/-- Each agent counts with the probability that its level handles the task, and the last one also
    with that of the fallback. -/
theorem law_mean {chain : List (AgentInfo K)} (last : AgentInfo K) :
    (law (levels threshold chain) last (levels_unit threshold chain)).mean
        (·.capability.estimatedQuality) =
      (List.zipWith (fun p a => p * a.capability.estimatedQuality) (handling threshold chain)
        chain).sum + fallback threshold chain * last.capability.estimatedQuality := by
  have hsum : List.zipWith (fun p a => p * a.capability.estimatedQuality)
      (handling threshold chain) chain = (stopping 1 (levels threshold chain)).map fun p =>
        p.1 * p.2.capability.estimatedQuality := by
    calc _ = List.zipWith (fun p a => p * a.capability.estimatedQuality)
          ((stopping 1 (levels threshold chain)).map (·.1))
          ((stopping 1 (levels threshold chain)).map (·.2)) := by rw [stopping_agents, handling]
      _ = _ := by rw [List.zipWith_map_left, List.zipWith_map_right, List.zipWith_self]
  simp only [Distribution.mean, law, List.map_append, List.sum_append, List.map_singleton,
    List.sum_singleton, hsum, fallback]

/-- The quality of a cascade is between the qualities of two agents of its chain. -/
theorem cascadeMetrics_quality_between {chain : List (AgentInfo K)} {last : AgentInfo K}
    (hlast : chain.getLast? = some last)
    (hunit : ∀ a ∈ chain, 0 ≤ a.capability.estimatedQuality ∧ a.capability.estimatedQuality ≤ 1) :
    (∃ a ∈ chain, a.capability.estimatedQuality ≤ (cascadeMetrics g threshold chain).quality) ∧
      ∃ a ∈ chain, (cascadeMetrics g threshold chain).quality ≤ a.capability.estimatedQuality := by
  rw [cascadeMetrics_quality hlast hunit]
  constructor
  · obtain ⟨p, hp, hle⟩ := Distribution.exists_le_mean (f := fun a : AgentInfo K =>
      a.capability.estimatedQuality) (d := law _ last (levels_unit threshold chain))
    exact ⟨p.2, mem_of_mem_law hlast hp, hle⟩
  · obtain ⟨p, hp, hle⟩ := Distribution.exists_mean_le (f := fun a : AgentInfo K =>
      a.capability.estimatedQuality) (d := law _ last (levels_unit threshold chain))
    exact ⟨p.2, mem_of_mem_law hlast hp, hle⟩

/-- A cascade costs at least what its first agent does, and at most what all do. -/
theorem cascadeMetrics_cost (g : AgentGraph K) (threshold : K) {first : AgentInfo K}
    {rest : List (AgentInfo K)} (hcosts : ∀ a ∈ first :: rest, 0 ≤ a.capability.costPerTask) :
    first.capability.costPerTask ≤ (cascadeMetrics g threshold (first :: rest)).cost ∧
      (cascadeMetrics g threshold (first :: rest)).cost ≤
        ((first :: rest).map (·.capability.costPerTask)).sum := by
  have hstart : 0 ≤ (⟨0, 0, 0, 1⟩ : CascadeTotals K).probReach ∧
      (⟨0, 0, 0, 1⟩ : CascadeTotals K).probReach ≤ 1 := ⟨zero_le_one, le_rfl⟩
  have hcost : (cascadeMetrics g threshold (first :: rest)).cost =
      (cascadeLoop g threshold ⟨0, 0, 0, 1⟩ (first :: rest)).cost := by
    rw [← start_eq]
    rfl
  have hown : (cascadeLevel g threshold ⟨0, 0, 0, 1⟩ first rest.head?).cost =
      0 + 1 * first.capability.costPerTask := rfl
  have hge := (cascadeLoop_cost g threshold rest (reach_unit g threshold hstart first rest.head?)
    fun a ha => hcosts a (List.mem_cons_of_mem _ ha)).1
  have hle := (cascadeLoop_cost g threshold (first :: rest) hstart hcosts).2
  rw [hown, zero_add, one_mul] at hge
  rw [zero_add] at hle
  rw [hcost]
  exact ⟨hge, hle⟩

/-- A cascade takes at least as long as its first agent, and at most as long as all agents and the
    transfers between them. -/
theorem cascadeMetrics_latency (g : AgentGraph K) (threshold : K) {first : AgentInfo K}
    {rest : List (AgentInfo K)} (hmax : first.capability.estimatedLatency ≤ maxDuration) :
    first.capability.estimatedLatency ≤ (cascadeMetrics g threshold (first :: rest)).latency ∧
      (cascadeMetrics g threshold (first :: rest)).latency ≤
        ((first :: rest).map (·.capability.estimatedLatency)).sum +
          (pathTransfers g ((first :: rest).map (·.index))).sum := by
  have hstart : 0 ≤ (⟨0, 0, 0, 1⟩ : CascadeTotals K).probReach ∧
      (⟨0, 0, 0, 1⟩ : CascadeTotals K).probReach ≤ 1 := ⟨zero_le_one, le_rfl⟩
  have hlatency : (cascadeMetrics g threshold (first :: rest)).latency =
      (cascadeLoop g threshold ⟨0, 0, 0, 1⟩ (first :: rest)).latency := by
    rw [← start_eq]
    rfl
  have hown : secsOf (1 * asSecs first.capability.estimatedLatency : K) =
      first.capability.estimatedLatency := by
    rw [one_mul, secsOf_asSecs hmax]
  have hlevel : first.capability.estimatedLatency ≤
      (cascadeLevel g threshold ⟨0, 0, 0, 1⟩ first rest.head?).latency := by
    simp only [cascadeLevel, hown, Nat.zero_add]
    exact Nat.le_add_right _ _
  have hge := (cascadeLoop_latency g threshold rest
    (reach_unit g threshold hstart first rest.head?)).1
  have hle := (cascadeLoop_latency g threshold (first :: rest) hstart).2
  rw [Nat.zero_add] at hle
  rw [hlatency]
  exact ⟨hlevel.trans hge, hle⟩

/-- A chain of agents in range has expected metrics. -/
theorem cascadeMetrics_expected {chain : List (AgentInfo K)} (hne : chain ≠ [])
    (hrange : ∀ a ∈ chain, (0 ≤ a.capability.estimatedQuality ∧
      a.capability.estimatedQuality ≤ 1) ∧ 0 ≤ a.capability.costPerTask ∧
        a.capability.estimatedLatency ≤ maxDuration) :
    Expected g threshold chain (cascadeMetrics g threshold chain) := by
  obtain ⟨first, rest, rfl⟩ := List.exists_cons_of_ne_nil hne
  have hlast := List.getLast?_eq_some_getLast hne
  have hunit : ∀ a ∈ first :: rest, 0 ≤ a.capability.estimatedQuality ∧
    a.capability.estimatedQuality ≤ 1 := fun a ha => (hrange a ha).1
  obtain ⟨hstop, hleft⟩ := nonneg_stopping zero_le_one (levels_unit threshold (first :: rest))
  obtain ⟨hquality, hquality'⟩ := cascadeMetrics_quality_between (g := g) hlast hunit
  obtain ⟨hcost, hcost'⟩ := cascadeMetrics_cost g threshold fun a ha => (hrange a ha).2.1
  obtain ⟨hlatency, hlatency'⟩ :=
    cascadeMetrics_latency g threshold (hrange first List.mem_cons_self).2.2
  refine ⟨⟨fun p hp => ?_, hleft⟩, sum_stopping 1 _, (cascadeLoop_quality _ _).2,
    ⟨_, hlast, ?_⟩, hquality, hquality', ⟨first, rfl, hcost⟩, hcost', ⟨first, rfl, hlatency⟩,
    hlatency'⟩
  · obtain ⟨atom, hatom, rfl⟩ := List.mem_map.mp hp
    exact hstop atom hatom
  · rw [cascadeMetrics_quality hlast hunit, law_mean]

/-- A cascade tries the cheapest agents, and its metrics are expected values. -/
theorem cascade_expectation (hg : g.InRange) {ttl : Duration} {stamp : Stamp} {r : Route K}
    (h : cascade g t qos ttl threshold stamp = .ok r) : ∃ chain : List (AgentInfo K),
      r.agents = chain.map (·.id) ∧ CheapestChain g t qos.minTrust chain ∧
        Expected g threshold chain r.metrics := by
  obtain ⟨s, hs, -, rfl⟩ := checkedRoute_eq_ok.mp h
  simp only [cascadeSelection] at hs
  split at hs
  · cases hs
  · rename_i hne
    obtain rfl := Option.some.inj hs
    have hchain : CheapestChain g t qos.minTrust _ := cheapestChain_take
    refine ⟨_, rfl, hchain, cascadeMetrics_expected (by simpa using hne) fun a ha => ?_⟩
    exact hg.entry (hchain.eligible a ha)

/-- Two analysts of different price: the cheaper one is asked first. -/
theorem cascade_expectation_two :
    let g := (EconomicRouter.sample [(4 / 5, EconomicRouter.analyst),
      (4 / 5, ⟨.analysis, 6 / 10, Duration.millis 50, 1 / 10⟩)]).graph
    let qos : QoSConstraints ℚ := ⟨1 / 2, Duration.secs 10, 5, 1 / 2⟩
    ∃ r chain, cascade g .analysis qos (Duration.secs 120) (7 / 10) ⟨0, 0⟩ = .ok r ∧
      r.agents = [⟨1⟩, ⟨0⟩] ∧ r.agents = chain.map AgentInfo.id ∧
        CheapestChain g .analysis qos.minTrust chain ∧ Expected g (7 / 10) chain r.metrics := by
  intro g qos
  obtain ⟨r, hr⟩ := EconomicRouter.exists_ok (e := cascade g .analysis qos (Duration.secs 120)
    (7 / 10) ⟨0, 0⟩) (by decide +kernel)
  have hagents : (cascade g .analysis qos (Duration.secs 120) (7 / 10) ⟨0, 0⟩).map
      (·.agents) = .ok [⟨1⟩, ⟨0⟩] := by decide +kernel
  have hg : g.InRange := AgentGraph.inRange_of_nodes (by decide +kernel)
  obtain ⟨chain, hchain, hcheapest, hexpected⟩ := cascade_expectation hg hr
  rw [hr] at hagents
  exact ⟨r, chain, hr, Except.ok.inj hagents, hchain, hcheapest, hexpected⟩

end Exact
end ATP
