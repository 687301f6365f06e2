import AgentTransport.Routing.Router
import AgentTransport.Lib.Rounding
import AgentTransport.Lib.StableSort
import AgentTransport.Lib.TopN
import AgentTransport.Lib.Double

/-! Redundant agents: no other choice of as many agents fails less often. Parallel-merge and
    ensemble rank by quality and break ties differently, but the qualities they rank come in the
    same order, so both take the same qualities.

    Rounding keeps this: place by place the taken agents fail no more often than any others in
    the order of their qualities, so neither does their rounded product. A quality that is a NaN
    does not: it stops the ranking from comparing its neighbours. -/

namespace ATP
open F64 Collections

section Failures
variable {F : Type} [F64 F] {g : AgentGraph F} {t : TaskType} {qos : QoSConstraints F}
  {minTrust : F}

/-- The quality an agent has for a task, clamped to the unit interval. -/
def AgentGraph.clampedQuality (g : AgentGraph F) (t : TaskType) (id : AgentId) : F :=
  match (g.nodeById id).bind (·.capabilityFor t) with
  | some cap => clamp cap.estimatedQuality 0 1
  | none => 0

/-- The probability that a selected agent fails. -/
def AgentInfo.failure (a : AgentInfo F) : F := 1 - clamp a.capability.estimatedQuality 0 1

/-- The agents serve the request, each of them once, the best quality first. -/
structure AgentGraph.Lineup (g : AgentGraph F) (t : TaskType) (minTrust : F)
    (ids : List AgentId) : Prop where
  nodup : ids.Nodup
  serves : ∀ id ∈ ids, ∃ n, g.nodeById id = some n ∧ AgentGraph.Serves n t minTrust
  best_first : ids.Pairwise fun a b => g.clampedQuality t b ≤ g.clampedQuality t a

/-- The probability that agents working independently do not all fail. -/
def AgentGraph.mergedQuality (g : AgentGraph F) (t : TaskType) (ids : List AgentId) : F :=
  1 - product (ids.map fun id => 1 - g.clampedQuality t id)

/-- No agent that serves the request has a NaN for its quality. -/
def AgentGraph.QualitiesAreNumbers (g : AgentGraph F) (t : TaskType) (minTrust : F) : Prop :=
  ∀ a ∈ extractAgents g t minTrust, IsNum a.capability.estimatedQuality

/-- A redundant selection consists of the first agents of its ranking. -/
theorem redundantSelection_eq_some {ranked : List (AgentInfo F)} {size : ℕ} {overhead : Duration}
    {s : Selection F} (h : redundantSelection ranked size overhead = some s) :
    s.agents = ranked.take (Nat.min size ranked.length) ∧
      s.metrics.quality = 1 - product (s.agents.map AgentInfo.failure) := by
  simp only [redundantSelection] at h
  split at h
  · cases h
  · obtain rfl := Option.some.inj h
    exact ⟨rfl, rfl⟩

theorem clampedQuality_of_mem {a : AgentInfo F} (h : a ∈ extractAgents g t minTrust) :
    g.clampedQuality t a.id = clamp a.capability.estimatedQuality 0 1 := by
  obtain ⟨n, hn, hid, hcap⟩ := node_of_mem_extractAgents h
  rw [AgentGraph.clampedQuality, ← hid, AgentGraph.nodeById_of_node hn, Option.bind_some, hcap]

/-- An agent that serves a request is that of an extracted entry. -/
theorem exists_entry {id : AgentId}
    (h : ∃ n, g.nodeById id = some n ∧ AgentGraph.Serves n t minTrust) :
    ∃ a ∈ extractAgents g t minTrust, a.id = id := by
  obtain ⟨n, hn, hserves⟩ := h
  obtain ⟨i, hi, hnode⟩ := Option.bind_eq_some_iff.mp hn
  obtain ⟨a, ha, rfl⟩ :=
    exists_mem_extractAgents (AgentGraph.mem_capableAgents.mpr ⟨n, hnode, hserves⟩)
  obtain ⟨m, hm, hmid, -⟩ := node_of_mem_extractAgents ha
  obtain ⟨k, hk, hkid⟩ := AgentGraph.indexOf_eq_some.mp hi
  obtain rfl := Option.some.inj (hk.symm.trans hm)
  exact ⟨a, ha, hmid.symm.trans hkid⟩

/-- Agents that serve a request are, in any order, some of the extracted entries. -/
theorem exists_entries {ids : List AgentId} (hnodup : ids.Nodup)
    (hids : ∀ id ∈ ids, ∃ n, g.nodeById id = some n ∧ AgentGraph.Serves n t minTrust) :
    ∃ chosen : List (AgentInfo F), chosen.map (·.id) = ids ∧
      chosen.Subperm (extractAgents g t minTrust) := by
  have hall : ∀ l : List AgentId, (∀ id ∈ l, id ∈ ids) → ∃ chosen : List (AgentInfo F),
      chosen.map (·.id) = l ∧ ∀ a ∈ chosen, a ∈ extractAgents g t minTrust := by
    intro l hl
    induction l with
    | nil => exact ⟨[], rfl, by simp⟩
    | cons id l ih =>
      obtain ⟨chosen, rfl, hmem⟩ := ih fun id' h => hl id' (List.mem_cons_of_mem _ h)
      obtain ⟨a, ha, rfl⟩ := exists_entry (hids id (hl id List.mem_cons_self))
      exact ⟨a :: chosen, rfl, by simpa using ⟨ha, hmem⟩⟩
  obtain ⟨chosen, rfl, hmem⟩ := hall ids fun id h => h
  exact ⟨chosen, rfl, List.subperm_of_subset (List.Nodup.of_map _ hnodup) hmem⟩

theorem parallelMerge_eq_ok {parallelism : ℕ} {ttl : Duration} {stamp : Stamp} {r : Route F}
    (h : parallelMerge g t qos ttl parallelism stamp = .ok r) : ∃ s,
      redundantSelection (sortedByQuality (extractAgents g t qos.minTrust)) parallelism
        (Duration.millis 10) = some s ∧
      r.agents.length = s.agents.length ∧ r.metrics = s.metrics := by
  obtain ⟨s, hs, -, rfl⟩ := checkedRoute_eq_ok.mp h
  exact ⟨s, hs, List.length_map _, rfl⟩

theorem ensemble_eq_ok {size : ℕ} {ttl : Duration} {stamp : Stamp} {r : Route F}
    (h : ensemble g t qos ttl size stamp = .ok r) : ∃ s,
      redundantSelection ((sortedByQuality (extractAgents g t qos.minTrust)).insertionSort
        qualityThenTrust) size (Duration.millis 5) = some s ∧
      r.agents.length = s.agents.length ∧ r.metrics = s.metrics := by
  obtain ⟨s, hs, -, rfl⟩ := checkedRoute_eq_ok.mp h
  exact ⟨s, hs, List.length_map _, rfl⟩

end Failures

section Ranking
variable {F : Type} [F64 F] [RoundedF64 F] {g : AgentGraph F} {t : TaskType}
  {qos : QoSConstraints F} {minTrust : F}

theorem failure_unit {a : AgentInfo F} (h : IsNum a.capability.estimatedQuality) :
    0 ≤ a.failure ∧ a.failure ≤ 1 := by
  obtain ⟨h0, h1⟩ := clamp_unit h
  exact RoundedF64.one_sub_unit _ h0 h1

theorem failure_anti {a b : AgentInfo F}
    (h : b.capability.estimatedQuality ≤ a.capability.estimatedQuality) :
    a.failure ≤ b.failure :=
  one_sub_anti (clamp_unit_mono h)

/-- The failures of agents in the order of their qualities increase. -/
def FailuresSorted (ranked : List (AgentInfo F)) : Prop :=
  (ranked.map AgentInfo.failure).Pairwise (· ≤ ·)

theorem sorted_sortedByQuality {agents : List (AgentInfo F)}
    (hnum : ∀ a ∈ agents, IsNum a.capability.estimatedQuality) :
    FailuresSorted (sortedByQuality agents) :=
  List.pairwise_map.mpr ((pairwise_sortDesc hnum).imp failure_anti)

/-- Between numbers `qualityThenTrust` compares qualities, and trust where they are equal. -/
theorem qualityThenTrust_iff {a b : AgentInfo F} (ha : IsNum a.capability.estimatedQuality)
    (hb : IsNum b.capability.estimatedQuality) : qualityThenTrust a b ↔
      b.capability.estimatedQuality ≤ a.capability.estimatedQuality ∧
        (a.capability.estimatedQuality ≤ b.capability.estimatedQuality → ¬ a.trust < b.trust) := by
  simp only [qualityThenTrust, not_or, not_and]
  constructor
  · rintro ⟨hlt, htie⟩
    exact ⟨F64.le_of_not_lt ha hb hlt, fun hle => htie (F64.not_lt_of_le hle)⟩
  · rintro ⟨hle, htie⟩
    exact ⟨F64.not_lt_of_le hle, fun hlt => htie (F64.le_of_not_lt hb ha hlt)⟩

theorem sorted_byQualityThenTrust {agents : List (AgentInfo F)}
    (hquality : ∀ a ∈ agents, IsNum a.capability.estimatedQuality)
    (htrust : ∀ a ∈ agents, IsNum a.trust) :
    FailuresSorted (agents.insertionSort qualityThenTrust) := by
  have hsorted : (agents.insertionSort qualityThenTrust).Pairwise qualityThenTrust := by
    refine pairwise_insertionSort_of (fun a ha b hb => ?_) fun a ha b hb c hc hab hbc => ?_
    · rw [qualityThenTrust_iff (hquality a ha) (hquality b hb),
        qualityThenTrust_iff (hquality b hb) (hquality a ha)]
      have hq := OrderedF64.le_total _ _ (hquality a ha) (hquality b hb)
      rcases OrderedF64.le_total _ _ (htrust a ha) (htrust b hb) with ht | ht
      · have := F64.not_lt_of_le ht
        tauto
      · have := F64.not_lt_of_le ht
        tauto
    · rw [qualityThenTrust_iff (hquality _ ‹_›) (hquality _ ‹_›)] at hab hbc ⊢
      refine ⟨F64.le_trans hbc.1 hab.1, fun hle hlt => ?_⟩
      -- the three qualities are equal, so the trusts are in order
      have htb := F64.le_of_not_lt (htrust a ha) (htrust b hb) (hab.2 (F64.le_trans hle hbc.1))
      have htc := F64.le_of_not_lt (htrust b hb) (htrust c hc) (hbc.2 (F64.le_trans hab.1 hle))
      exact F64.not_lt_of_le (F64.le_trans htc htb) hlt
  refine List.pairwise_map.mpr (hsorted.imp_of_mem fun {a b} ha hb h => ?_)
  rw [List.mem_insertionSort] at ha hb
  exact failure_anti ((qualityThenTrust_iff (hquality a ha) (hquality b hb)).mp h).1

/-- An entry's agent is trusted, so its trust is a number. -/
theorem isNum_trust_of_mem {a : AgentInfo F} (h : a ∈ extractAgents g t minTrust) :
    IsNum a.trust := by
  obtain ⟨hidx, hinfo⟩ := mem_extractAgents.mp h
  obtain ⟨n, cap, hn, -, ha⟩ := agentInfo_eq_some.mp hinfo
  obtain ⟨m, hm, hserves⟩ := AgentGraph.mem_capableAgents.mp hidx
  obtain rfl := Option.some.inj (hn.symm.trans hm)
  rw [ha]
  exact IsNum.of_le_right hserves.trusted

/-- Two rankings of the same agents take agents that fail as often. -/
theorem quality_le_of_rankings {ranked ranked' : List (AgentInfo F)}
    (hsorted : FailuresSorted ranked) (hsorted' : FailuresSorted ranked')
    (hperm : ranked'.Perm ranked) (hnum : ∀ a ∈ ranked, IsNum a.capability.estimatedQuality)
    (n : ℕ) : 1 - product ((ranked.take n).map AgentInfo.failure) ≤
      1 - product ((ranked'.take n).map AgentInfo.failure) := by
  have hunit : ∀ x ∈ ranked.map AgentInfo.failure, 0 ≤ x ∧ x ≤ 1 := by
    intro x hx
    obtain ⟨a, ha, rfl⟩ := List.mem_map.mp hx
    exact failure_unit (hnum a ha)
  have hperm' := hperm.map AgentInfo.failure
  have hplaces := List.forall₂_take n (TopN.forall₂_of_perm OrderedF64.le_trans hsorted' hsorted
    (fun x hx => IsNum.of_le_right (hunit x hx).1) hperm'.symm)
  rw [List.map_take, List.map_take]
  refine one_sub_anti (product_mono hplaces ?_ ?_)
  · exact fun x hx => hunit x (hperm'.mem_iff.mp (List.mem_of_mem_take hx))
  · exact fun x hx => hunit x (List.mem_of_mem_take hx)

/-- No other agents, as many as were selected, have a higher merged quality than the first of a
    ranking. -/
theorem mergedQuality_le {ranked : List (AgentInfo F)} {size : ℕ} {overhead : Duration}
    {s : Selection F} (hnum : g.QualitiesAreNumbers t minTrust) (hsorted : FailuresSorted ranked)
    (hperm : ranked.Perm (extractAgents g t minTrust))
    (h : redundantSelection ranked size overhead = some s) {ids : List AgentId}
    (hids : g.Lineup t minTrust ids) (hlen : ids.length = s.agents.length) :
    g.mergedQuality t ids ≤ s.metrics.quality := by
  obtain ⟨chosen, rfl, hsub⟩ := exists_entries hids.nodup hids.serves
  obtain ⟨hagents, hquality⟩ := redundantSelection_eq_some h
  have hmem : ∀ a ∈ chosen, a ∈ extractAgents g t minTrust := fun a ha => hsub.subset ha
  have hfailures : (chosen.map (·.id)).map (fun id => 1 - g.clampedQuality t id) =
      chosen.map AgentInfo.failure := by
    rw [List.map_map]
    exact List.map_congr_left fun a ha => congrArg (1 - ·) (clampedQuality_of_mem (hmem a ha))
  -- the code multiplies in the order of its ranking, so the other choice is put in order too
  have hchosen : FailuresSorted chosen := by
    refine List.pairwise_map.mpr ((List.pairwise_map.mp hids.best_first).imp_of_mem ?_)
    intro a b ha hb hle
    rw [clampedQuality_of_mem (hmem a ha), clampedQuality_of_mem (hmem b hb)] at hle
    exact one_sub_anti hle
  have hunit : ∀ a ∈ extractAgents g t minTrust, 0 ≤ a.failure ∧ a.failure ≤ 1 :=
    fun a ha => failure_unit (hnum a ha)
  have hsub' : (chosen.map AgentInfo.failure).Subperm (ranked.map AgentInfo.failure) := by
    obtain ⟨l, hl, hlist⟩ := hsub.trans hperm.symm.subperm
    exact ⟨l.map AgentInfo.failure, hl.map _, hlist.map _⟩
  have hself : ∀ x ∈ chosen.map AgentInfo.failure, x ≤ x := by
    intro x hx
    obtain ⟨a, ha, rfl⟩ := List.mem_map.mp hx
    exact IsNum.of_le_right (hunit a (hmem a ha)).1
  -- place by place the first of the ranking fail no more often than any choice
  have hplaces := TopN.forall₂_take OrderedF64.le_trans hsorted hchosen hself hsub'
  have htake : ranked.take chosen.length = s.agents := by
    rw [List.length_map] at hlen
    rw [hlen, hagents, List.length_take, List.take_eq_take_iff]
    simp
  rw [List.length_map, ← List.map_take, htake] at hplaces
  rw [AgentGraph.mergedQuality, hfailures, hquality]
  refine one_sub_anti (product_mono hplaces ?_ ?_)
  · intro x hx
    obtain ⟨a, ha, rfl⟩ := List.mem_map.mp hx
    rw [hagents] at ha
    exact hunit a (hperm.mem_iff.mp (List.mem_of_mem_take ha))
  · intro x hx
    obtain ⟨a, ha, rfl⟩ := List.mem_map.mp hx
    exact hunit a (hmem a ha)

/-- With numbers for qualities, no other agents that serve the request, as many as were selected,
    have a higher merged quality; and parallel-merge and ensemble of one size have the same. -/
theorem redundant_quality_maximal (hnum : g.QualitiesAreNumbers t qos.minTrust) (size : ℕ)
    (ttl : Duration) (stamp stamp' : Stamp) :
    (∀ r, (parallelMerge g t qos ttl size stamp = .ok r ∨ ensemble g t qos ttl size stamp = .ok r) →
      ∀ ids, g.Lineup t qos.minTrust ids → ids.length = r.agents.length →
        g.mergedQuality t ids ≤ r.metrics.quality) ∧
    ∀ r r', parallelMerge g t qos ttl size stamp = .ok r →
      ensemble g t qos ttl size stamp' = .ok r' →
        ieeeEq r.metrics.quality r'.metrics.quality = true := by
  have hperm : (sortedByQuality (extractAgents g t qos.minTrust)).Perm
      (extractAgents g t qos.minTrust) := sortDesc_perm _ _
  have hperm' := List.perm_insertionSort qualityThenTrust
    (sortedByQuality (extractAgents g t qos.minTrust))
  have hnum' : ∀ a ∈ sortedByQuality (extractAgents g t qos.minTrust),
      IsNum a.capability.estimatedQuality := fun a ha => hnum a (hperm.mem_iff.mp ha)
  have hbest := sorted_sortedByQuality hnum
  -- the ensemble sorts once more, by quality and then by trust
  have hbest' := sorted_byQualityThenTrust hnum'
    fun a ha => isNum_trust_of_mem (hperm.mem_iff.mp ha)
  refine ⟨fun r hr ids hids hlen => ?_, fun r r' hr hr' => ?_⟩
  · rcases hr with hr | hr
    · obtain ⟨s, hs, hagents, hmetrics⟩ := parallelMerge_eq_ok hr
      rw [hmetrics]
      exact mergedQuality_le hnum hbest hperm hs hids (hlen.trans hagents)
    · obtain ⟨s, hs, hagents, hmetrics⟩ := ensemble_eq_ok hr
      rw [hmetrics]
      exact mergedQuality_le hnum hbest' (hperm'.trans hperm) hs hids (hlen.trans hagents)
  -- two rankings of the same agents: each quality is at most the other
  · obtain ⟨s, hs, -, hmetrics⟩ := parallelMerge_eq_ok hr
    obtain ⟨s', hs', -, hmetrics'⟩ := ensemble_eq_ok hr'
    obtain ⟨hagents, hquality⟩ := redundantSelection_eq_some hs
    obtain ⟨hagents', hquality'⟩ := redundantSelection_eq_some hs'
    rw [hmetrics, hmetrics', hquality, hquality', hagents, hagents', hperm'.length_eq, ieeeEq,
      Bool.and_eq_true, decide_eq_true_eq, decide_eq_true_eq]
    exact ⟨quality_le_of_rankings hbest hbest' hperm' hnum' _,
      quality_le_of_rankings hbest' hbest hperm'.symm
        (fun a ha => hnum' a (hperm'.mem_iff.mp ha)) _⟩

/-- Three analysts of one quality: the first two work in parallel, the two most trusted vote. -/
theorem redundant_quality_maximal_ties :
    let g := (EconomicRouter.sample [(6 / 10, EconomicRouter.analyst),
      (7 / 10, EconomicRouter.analyst), (8 / 10, EconomicRouter.analyst)]).graph
    let qos : QoSConstraints ℚ := ⟨1 / 2, Duration.secs 10, 5, 1 / 2⟩
    ∃ r r', parallelMerge g .analysis qos (Duration.secs 120) 2 ⟨0, 0⟩ = .ok r ∧
      ensemble g .analysis qos (Duration.secs 120) 2 ⟨1, 0⟩ = .ok r' ∧
      r.agents = [⟨0⟩, ⟨1⟩] ∧ r'.agents = [⟨2⟩, ⟨1⟩] ∧
        ieeeEq r.metrics.quality r'.metrics.quality = true := by
  intro g qos
  have hmerge : parallelMerge g .analysis qos (Duration.secs 120) 2 ⟨0, 0⟩ = .ok ⟨0, .parallelMerge,
      [⟨0⟩, ⟨1⟩], ⟨91 / 100, Duration.millis 110, 6 / 10⟩, 0, Duration.secs 120⟩ := by
    decide +kernel
  have hvote : ensemble g .analysis qos (Duration.secs 120) 2 ⟨1, 0⟩ = .ok ⟨1, .ensemble,
      [⟨2⟩, ⟨1⟩], ⟨91 / 100, Duration.millis 105, 6 / 10⟩, 0, Duration.secs 120⟩ := by
    decide +kernel
  have hnum : g.QualitiesAreNumbers .analysis qos.minTrust := fun a _ => isNum_field _
  exact ⟨_, _, hmerge, hvote, rfl, rfl,
    (redundant_quality_maximal hnum 2 (Duration.secs 120) ⟨0, 0⟩ ⟨1, 0⟩).2 _ _ hmerge hvote⟩

/-- An analyst with this trust and quality, as quick and as cheap as the others. -/
def analystOf (trust quality : Double) : Double × Capability Double :=
  (trust, ⟨.analysis, quality, Duration.millis 100, lit 1⟩)

/-- Four analysts, the quality of the third a NaN: it keeps the best one behind it, until the
    ensemble sorts once more and its lower trust lets the best one pass. -/
theorem nan_hides_best :
    let g := (EconomicRouter.separate [analystOf (lit (8 / 10)) (lit (5 / 10)),
      analystOf (lit (8 / 10)) (lit (6 / 10)), analystOf (lit (7 / 10)) Double.nan,
      analystOf (lit (8 / 10)) (lit (9 / 10))]).graph
    let qos : QoSConstraints Double := ⟨lit (5 / 10), Duration.secs 10, lit 5, lit (5 / 10)⟩
    ∃ r r', parallelMerge g .analysis qos (Duration.secs 120) 2 ⟨0, 0⟩ = .ok r ∧
      ensemble g .analysis qos (Duration.secs 120) 2 ⟨1, 0⟩ = .ok r' ∧
      g.Lineup .analysis qos.minTrust r'.agents ∧ r'.agents.length = r.agents.length ∧
        r.metrics.quality < g.mergedQuality .analysis r'.agents ∧
        ieeeEq r.metrics.quality r'.metrics.quality = false := by
  intro g qos
  have hmerge : parallelMerge g .analysis qos (Duration.secs 120) 2 ⟨0, 0⟩ = .ok ⟨0, .parallelMerge,
      [⟨1⟩, ⟨0⟩], ⟨lit (8 / 10), Duration.millis 110, lit 2⟩, 0, Duration.secs 120⟩ := by
    decide +kernel
  have hvote : ensemble g .analysis qos (Duration.secs 120) 2 ⟨1, 0⟩ = .ok ⟨1, .ensemble,
      [⟨3⟩, ⟨1⟩], ⟨lit (96 / 100), Duration.millis 105, lit 2⟩, 0, Duration.secs 120⟩ := by
    decide +kernel
  have hextracted : ∀ a ∈ extractAgents g .analysis qos.minTrust,
      ∃ n, g.nodeById a.id = some n ∧ AgentGraph.Serves n .analysis qos.minTrust :=
    fun a ha => serves_of_mem_extractAgents ha
  have hids : ([⟨3⟩, ⟨1⟩] : List AgentId).all (fun id =>
      (extractAgents g .analysis qos.minTrust).any fun a => a.id = id) = true := by
    decide +kernel
  refine ⟨_, _, hmerge, hvote, ⟨by decide, ?_, by simpa using (by decide +kernel :
    g.clampedQuality .analysis ⟨1⟩ ≤ g.clampedQuality .analysis ⟨3⟩)⟩, rfl, by decide +kernel,
    by decide +kernel⟩
  intro id hid
  obtain ⟨a, ha, hida⟩ := List.any_eq_true.mp (List.all_eq_true.mp hids id hid)
  exact of_decide_eq_true hida ▸ hextracted a ha

end Ranking

section Exact
variable {K : Type} [Field K] [LinearOrder K] [IsStrictOrderedRing K] [FloorRing K]
  {g : AgentGraph K} {t : TaskType} {minTrust : K}

/-- In exact arithmetic the order of the factors does not matter, so that the bound holds for every
    set of agents that serve the request. -/
theorem merged_quality_of_set_le {ranked : List (AgentInfo K)} {size : ℕ} {overhead : Duration}
    {s : Selection K} (hsorted : FailuresSorted ranked)
    (hperm : ranked.Perm (extractAgents g t minTrust))
    (h : redundantSelection ranked size overhead = some s) {S : Finset AgentId}
    (hcard : S.card = s.agents.length)
    (hS : ∀ id ∈ S, ∃ n, g.nodeById id = some n ∧ AgentGraph.Serves n t minTrust) :
    1 - ∏ id ∈ S, (1 - g.clampedQuality t id) ≤ s.metrics.quality := by
  let ids := sortDesc (g.clampedQuality t) S.toList
  have hids : ids.Perm S.toList := sortDesc_perm _ _
  have hlineup : g.Lineup t minTrust ids :=
    ⟨hids.nodup_iff.mpr S.nodup_toList,
      fun id hid => hS id (Finset.mem_toList.mp (hids.subset hid)),
      pairwise_sortDesc fun id _ => isNum_field _⟩
  have hlen : ids.length = s.agents.length := by
    rw [hids.length_eq, Finset.length_toList, hcard]
  have hprod : product (ids.map fun id => 1 - g.clampedQuality t id) =
      ∏ id ∈ S, (1 - g.clampedQuality t id) := by
    rw [product, ← List.prod_eq_foldl, (hids.map _).prod_eq, Finset.prod_map_toList]
  have hle := mergedQuality_le (fun a _ => isNum_field _) hsorted hperm h hlineup hlen
  rwa [AgentGraph.mergedQuality, hprod] at hle

end Exact
end ATP
