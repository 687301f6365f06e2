import AgentTransport.Handshake.Registry
import AgentTransport.Lib.StableSort
import Mathlib.Algebra.BigOperators.Group.Finset.Piecewise

/-! Runs of the capability registry. It keeps two indexes of one relation, agents by task type and
    capabilities by agent, and every operation edits both:

                       by task type t             by agent a
        register       replace the entry of a     replace the capability of type t
        unregister     drop a everywhere          drop a
        … capability   drop a under t             drop type t, and a when nothing is left
        update trust   new score under t          -

    After every run an agent has the same capabilities in both. -/

namespace ATP
open F64 Collections
variable {F : Type}

namespace CapabilityRegistry
variable {r : CapabilityRegistry F}

/-! ### The two indexes -/

/-- The capabilities of an agent for a task type, by the index of task types. -/
def byType (r : CapabilityRegistry F) (a : AgentId) (t : TaskType) : List (Capability F) :=
  ((r.byTaskType t).filter fun e => e.agentId = a).map (·.capability)

/-- The capabilities of an agent for a task type, by the index of agents. -/
def ofAgent (r : CapabilityRegistry F) (a : AgentId) (t : TaskType) : List (Capability F) :=
  (r.getAgentCapabilities a).filter fun c => c.taskType = t

theorem byType_register (id : AgentId) (c : Capability F) (trust : F) (a : AgentId) (t : TaskType) :
    (r.register id c trust).byType a t =
      if a = id ∧ t = c.taskType then [c] else r.byType a t := by
  rw [byType, byTaskType_register]
  rcases eq_or_ne t c.taskType with rfl | ht
  · rw [Function.update_self, filter_replace RegistryEntry.agentId ⟨id, c, trust⟩]
    by_cases ha : a = id <;> simp [ha, byType]
  · rw [Function.update_of_ne ht, if_neg fun h => ht h.2, byType]

theorem ofAgent_register (id : AgentId) (c : Capability F) (trust : F) (a : AgentId)
    (t : TaskType) : (r.register id c trust).ofAgent a t =
      if a = id ∧ t = c.taskType then [c] else r.ofAgent a t := by
  rw [ofAgent, getAgentCapabilities, register, lookup_upsert]
  rcases eq_or_ne a id with rfl | ha
  · rw [if_pos rfl, Option.getD_some, filter_replace Capability.taskType c]
    simp [ofAgent, getAgentCapabilities]
  · rw [if_neg ha, if_neg fun h => ha h.1]
    rfl

theorem byType_unregister (id a : AgentId) (t : TaskType) :
    (r.unregister id).byType a t = if a = id then [] else r.byType a t := by
  rw [byType, unregister, filter_filter_ne RegistryEntry.agentId]
  split_ifs <;> rfl

theorem ofAgent_unregister (id a : AgentId) (t : TaskType) :
    (r.unregister id).ofAgent a t = if a = id then [] else r.ofAgent a t := by
  rw [ofAgent, getAgentCapabilities, unregister, lookup_erase]
  split_ifs <;> rfl

theorem byType_unregisterCapability (id a : AgentId) (t' t : TaskType) :
    (r.unregisterCapability id t').byType a t =
      if a = id ∧ t = t' then [] else r.byType a t := by
  simp only [byType, unregisterCapability]
  rcases eq_or_ne t t' with rfl | ht
  · rw [Function.update_self, filter_filter_ne RegistryEntry.agentId]
    by_cases ha : a = id <;> simp [ha]
  · rw [Function.update_of_ne ht, if_neg fun h => ht h.2]

/-- What is left of the capabilities of an agent, forgotten or not. -/
theorem getAgentCapabilities_unregisterCapability (id a : AgentId) (t : TaskType) :
    (r.unregisterCapability id t).getAgentCapabilities a =
      if a = id then (r.getAgentCapabilities a).filter (fun c => c.taskType ≠ t)
      else r.getAgentCapabilities a := by
  simp only [getAgentCapabilities, unregisterCapability]
  cases hl : r.byAgent.lookup id with
  | none =>
    dsimp only
    rcases eq_or_ne a id with rfl | ha
    · simp [hl]
    · rw [if_neg ha]
  | some caps =>
    dsimp only
    by_cases hempty : (caps.filter fun c => c.taskType ≠ t).isEmpty
    · rw [if_pos hempty, lookup_erase]
      rcases eq_or_ne a id with rfl | ha
      · rw [if_pos rfl, if_pos rfl, hl, Option.getD_some, List.isEmpty_iff.mp hempty]
        rfl
      · rw [if_neg ha, if_neg ha]
    · rw [if_neg hempty]
      rcases eq_or_ne a id with rfl | ha
      · rw [AList.lookup_insert, if_pos rfl, hl]
        rfl
      · rw [AList.lookup_insert_ne ha, if_neg ha]

theorem ofAgent_unregisterCapability (id a : AgentId) (t' t : TaskType) :
    (r.unregisterCapability id t').ofAgent a t =
      if a = id ∧ t = t' then [] else r.ofAgent a t := by
  rw [ofAgent, getAgentCapabilities_unregisterCapability]
  rcases eq_or_ne a id with rfl | ha
  · rw [if_pos rfl, filter_filter_ne Capability.taskType]
    simp [ofAgent]
  · rw [if_neg ha, if_neg fun h => ha h.1, ofAgent]

theorem byType_updateTrust [F64 F] (id a : AgentId) (t' t : TaskType) (trust : F) :
    (r.updateTrust id t' trust).byType a t = r.byType a t := by
  simp only [byType, updateTrust]
  rcases eq_or_ne t t' with rfl | ht
  · rw [Function.update_self, List.filter_map, List.map_map]
    rfl
  · rw [Function.update_of_ne ht]

/-- Both indexes hold the same capabilities, and no agent is kept without any. -/
structure InStep (r : CapabilityRegistry F) : Prop where
  same : ∀ a t, r.byType a t = r.ofAgent a t
  inhabited : ∀ a, r.byAgent.lookup a ≠ some []

theorem inStep_new : InStep (new : CapabilityRegistry F) := ⟨fun _ _ => rfl, fun _ h => by cases h⟩

theorem InStep.register (h : r.InStep) (id : AgentId) (c : Capability F) (trust : F) :
    (r.register id c trust).InStep where
  same a t := by rw [byType_register, ofAgent_register, h.same]
  inhabited a := by
    rw [CapabilityRegistry.register, lookup_upsert]
    split_ifs with ha
    · simp
    · exact h.inhabited a

theorem InStep.unregister (h : r.InStep) (id : AgentId) : (r.unregister id).InStep where
  same a t := by rw [byType_unregister, ofAgent_unregister, h.same]
  inhabited a := by
    rw [CapabilityRegistry.unregister, lookup_erase]
    split_ifs with ha
    · simp
    · exact h.inhabited a

theorem InStep.unregisterCapability (h : r.InStep) (id : AgentId) (t : TaskType) :
    (r.unregisterCapability id t).InStep where
  same a t' := by rw [byType_unregisterCapability, ofAgent_unregisterCapability, h.same]
  inhabited a := by
    simp only [CapabilityRegistry.unregisterCapability]
    cases hl : r.byAgent.lookup id with
    | none => exact h.inhabited a
    | some caps =>
      dsimp only
      split_ifs with hempty
      · rw [lookup_erase]
        split_ifs with ha
        · simp
        · exact h.inhabited a
      · rcases eq_or_ne a id with rfl | ha
        · rw [AList.lookup_insert]
          exact fun hnil => hempty (List.isEmpty_iff.mpr (Option.some.inj hnil))
        · rw [AList.lookup_insert_ne ha]
          exact h.inhabited a

theorem InStep.updateTrust [F64 F] (h : r.InStep) (id : AgentId) (t : TaskType) (trust : F) :
    (r.updateTrust id t trust).InStep where
  same a t' := by
    rw [byType_updateTrust, h.same]
    rfl
  inhabited := h.inhabited

/-! ### Runs -/

/-- The operations that change the registry. -/
inductive Op (F : Type) where
  | register (id : AgentId) (capability : Capability F) (trustScore : F)
  | unregister (id : AgentId)
  | unregisterCapability (id : AgentId) (taskType : TaskType)
  | updateTrust (id : AgentId) (taskType : TaskType) (newTrust : F)

section Runs
variable [F64 F]

def apply (r : CapabilityRegistry F) : Op F → CapabilityRegistry F
  | .register id capability trustScore => r.register id capability trustScore
  | .unregister id => r.unregister id
  | .unregisterCapability id taskType => r.unregisterCapability id taskType
  | .updateTrust id taskType newTrust => r.updateTrust id taskType newTrust

/-- The registry after some operations, from an empty one. -/
def after (ops : List (Op F)) : CapabilityRegistry F := ops.foldl apply new

theorem InStep.apply (h : r.InStep) : ∀ op, (r.apply op).InStep
  | .register id capability trustScore => h.register id capability trustScore
  | .unregister id => h.unregister id
  | .unregisterCapability id taskType => h.unregisterCapability id taskType
  | .updateTrust id taskType newTrust => h.updateTrust id taskType newTrust

theorem inStep_after (ops : List (Op F)) : (after ops).InStep := by
  induction ops using List.reverseRecOn with
  | nil => exact inStep_new
  | append_singleton ops op ih =>
    rw [after, List.foldl_append]
    exact ih.apply op

end Runs

/-! ### What the queries return -/

/-- The answers of the queries agree with one another. -/
structure IndexesAgree [F64 F] (r : CapabilityRegistry F) : Prop where
  single : ∀ a t, ((r.byTaskType t).filter fun e => e.agentId = a).length ≤ 1
  found : ∀ a t, (r.getCapability a t).isSome ↔ ∃ c ∈ r.getAgentCapabilities a, c.taskType = t
  unique : ∀ a t e, r.getCapability a t = some e →
    (r.getAgentCapabilities a).filter (fun c => c.taskType = t) = [e.capability]
  totals : ∃ agents : Finset AgentId, (∀ a, a ∈ agents ↔ r.getAgentCapabilities a ≠ []) ∧
    r.agentCount = agents.card ∧ r.len = ∑ a ∈ agents, (r.getAgentCapabilities a).length
  capable : ∀ t qos, (r.findCapable t qos).Perm ((r.byTaskType t).filter fun e => e.Meets qos) ∧
    (r.findCapable t qos).Pairwise fun a b => b.trustScore ≤ a.trustScore

theorem length_entries_le (r : CapabilityRegistry F) (a : AgentId) (t : TaskType) :
    ((r.byTaskType t).filter fun e => e.agentId = a).length ≤ 1 := by
  have hnodup := (r.wf.nodup t).sublist
    ((List.filter_sublist (p := fun e : RegistryEntry F => e.agentId = a)).map (·.agentId))
  have hsame : ∀ b ∈ ((r.byTaskType t).filter fun e => e.agentId = a).map (·.agentId), b = a := by
    intro b hb
    obtain ⟨e, he, rfl⟩ := List.mem_map.mp hb
    exact of_decide_eq_true (List.mem_filter.mp he).2
  rwa [List.eq_replicate_of_mem hsame, List.nodup_replicate, List.length_map] at hnodup

theorem getCapability_eq_head? (r : CapabilityRegistry F) (a : AgentId) (t : TaskType) :
    r.getCapability a t = ((r.byTaskType t).filter fun e => e.agentId = a).head? :=
  (List.head?_filter ..).symm

theorem InStep.found (h : r.InStep) (a : AgentId) (t : TaskType) :
    (r.getCapability a t).isSome ↔ ∃ c ∈ r.getAgentCapabilities a, c.taskType = t := by
  have hempty : r.byType a t = [] ↔ (r.byTaskType t).filter (fun e => e.agentId = a) = [] :=
    List.map_eq_nil_iff
  rw [getCapability_eq_head?, Option.isSome_iff_ne_none, Ne, List.head?_eq_none_iff, ← hempty,
    h.same, ofAgent, List.filter_eq_nil_iff]
  simp

theorem InStep.unique (h : r.InStep) {a : AgentId} {t : TaskType} {e : RegistryEntry F}
    (he : r.getCapability a t = some e) :
    (r.getAgentCapabilities a).filter (fun c => c.taskType = t) = [e.capability] := by
  have hone : (r.byTaskType t).filter (fun e => e.agentId = a) = [e] := by
    rw [getCapability_eq_head?] at he
    obtain ⟨rest, hrest⟩ := List.head?_eq_some_iff.mp he
    have hlen := r.length_entries_le a t
    rw [hrest, List.length_cons] at hlen
    have hnil : rest = [] := List.length_eq_zero_iff.mp (by omega)
    rw [hrest, hnil]
  have hsame := h.same a t
  rw [byType, hone] at hsame
  exact hsame.symm

/-- Counting the capabilities by task type or by agent gives the same. -/
theorem InStep.totals (h : r.InStep) : ∃ agents : Finset AgentId,
    (∀ a, a ∈ agents ↔ r.getAgentCapabilities a ≠ []) ∧ r.agentCount = agents.card ∧
      r.len = ∑ a ∈ agents, (r.getAgentCapabilities a).length := by
  have hmem : ∀ a, a ∈ r.byAgent.keys.toFinset ↔ r.getAgentCapabilities a ≠ [] := by
    intro a
    rw [List.mem_toFinset, ← AList.mem_keys, ← AList.lookup_isSome, getAgentCapabilities]
    cases hl : r.byAgent.lookup a with
    | none => simp
    | some caps =>
      have hcaps : caps ≠ [] := fun hnil => h.inhabited a (by rw [hl, hnil])
      simpa using hcaps
  have htypes : ∀ a, (r.getAgentCapabilities a).length =
      ∑ t ∈ TaskType.all.toFinset, (r.ofAgent a t).length :=
    fun a => length_eq_sum_filter _ _ fun c _ => List.mem_toFinset.mpr (TaskType.mem_all c.taskType)
  have hagents : ∀ t, (r.byTaskType t).length =
      ∑ a ∈ r.byAgent.keys.toFinset, (r.byType a t).length := by
    intro t
    rw [length_eq_sum_filter RegistryEntry.agentId _ fun e he => (hmem _).mpr ?_]
    · simp only [byType, List.length_map]
    · obtain ⟨c, hc, -⟩ := (h.found e.agentId t).mp (getCapability_isSome he)
      exact List.ne_nil_of_mem hc
  refine ⟨_, hmem, (List.toFinset_card_of_nodup (AList.keys_nodup _)).symm, ?_⟩
  -- both indexes list the capabilities of one agent for one type: sum over both, either way round
  calc r.len = ∑ t ∈ TaskType.all.toFinset, (r.byTaskType t).length :=
        (List.sum_toFinset _ (by decide)).symm
    _ = ∑ t ∈ TaskType.all.toFinset, ∑ a ∈ r.byAgent.keys.toFinset, (r.byType a t).length :=
        Finset.sum_congr rfl fun t _ => hagents t
    _ = ∑ a ∈ r.byAgent.keys.toFinset, ∑ t ∈ TaskType.all.toFinset, (r.ofAgent a t).length := by
        rw [Finset.sum_comm]
        simp only [h.same]
    _ = ∑ a ∈ r.byAgent.keys.toFinset, (r.getAgentCapabilities a).length :=
        Finset.sum_congr rfl fun a _ => (htypes a).symm

/-- The two indexes agree after every run, and `find_capable` lists exactly the entries that meet
    the bounds, the most trusted first. -/
theorem indexes_agree [F64 F] [OrderedF64 F] (ops : List (Op F)) : (after ops).IndexesAgree where
  single := length_entries_le _
  found := (inStep_after ops).found
  unique _ _ _ := (inStep_after ops).unique
  totals := (inStep_after ops).totals
  capable t qos := by
    have hfilter : (after ops).findCapable t qos =
        sortDesc (·.trustScore) (((after ops).byTaskType t).filter fun e => e.Meets qos) := by
      rw [findCapable]
      congr 2
      funext e
      rw [Bool.eq_iff_iff, meetsConstraints_iff, decide_eq_true_iff]
    rw [hfilter]
    refine ⟨sortDesc_perm _ _, pairwise_sortDesc fun e he => ?_⟩
    -- a bound on the trust keeps a NaN out
    have hmeets : e.Meets qos := of_decide_eq_true (List.mem_filter.mp he).2
    exact IsNum.of_le_right hmeets.trust

/-- A capability replaced, one withdrawn, and an agent without any left. -/
theorem indexes_agree_withdrawn :
    let r : CapabilityRegistry ℚ := after [.register ⟨1⟩ ⟨.analysis, 7 / 10, 1, 1⟩ (1 / 2),
      .register ⟨2⟩ ⟨.analysis, 8 / 10, 1, 1⟩ (1 / 2),
      .register ⟨1⟩ ⟨.analysis, 9 / 10, 1, 1⟩ (1 / 2), .updateTrust ⟨1⟩ .analysis 2,
      .unregisterCapability ⟨2⟩ .analysis]
    r.len = 1 ∧ r.agentCount = 1 ∧ r.IndexesAgree := by
  intro r
  exact ⟨by decide, by decide, indexes_agree _⟩

end CapabilityRegistry
end ATP
