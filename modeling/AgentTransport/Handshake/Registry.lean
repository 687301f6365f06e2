import AgentTransport.Types.Basic

/-! In-memory capability registry, indexed by task type. An agent has at most one entry for each
    task type: registering again replaces it and moves it to the end. -/

namespace ATP
open F64 Collections
variable {F : Type} [F64 F]

/-- An entry in the registry associating an agent with a specific capability. -/
structure RegistryEntry (F : Type) where
  agentId : AgentId
  capability : Capability F
  trustScore : F

/-- Representation invariant: the entries of a task type are of that type, one for each agent. -/
structure RegistryWF (byTaskType : TaskType → List (RegistryEntry F)) : Prop where
  typed : ∀ t, ∀ e ∈ byTaskType t, e.capability.taskType = t
  nodup : ∀ t, ((byTaskType t).map (·.agentId)).Nodup

/-- In-memory store of agent capabilities. A task type without entries has the empty list. -/
structure CapabilityRegistry (F : Type) where
  byTaskType : TaskType → List (RegistryEntry F)
  byAgent : HashMap AgentId (List (Capability F))
  wf : RegistryWF byTaskType

namespace RegistryWF
omit [F64 F]
variable {m : TaskType → List (RegistryEntry F)}

/-- Dropping entries keeps the invariant. -/
theorem filter (h : RegistryWF m) (p : TaskType → RegistryEntry F → Bool) :
    RegistryWF (fun t => (m t).filter (p t)) where
  typed t e he := h.typed t e (List.mem_of_mem_filter he)
  nodup t := (List.filter_sublist.map _).nodup (h.nodup t)

/-- A new list for one task type. -/
theorem update (h : RegistryWF m) {t : TaskType} {entries : List (RegistryEntry F)}
    (htyped : ∀ e ∈ entries, e.capability.taskType = t)
    (hnodup : (entries.map (·.agentId)).Nodup) : RegistryWF (Function.update m t entries) where
  typed t' e he := by
    rcases eq_or_ne t' t with rfl | ht
    · rw [Function.update_self] at he
      exact htyped e he
    · rw [Function.update_of_ne ht] at he
      exact h.typed t' e he
  nodup t' := by
    rcases eq_or_ne t' t with rfl | ht
    · rw [Function.update_self]
      exact hnodup
    · rw [Function.update_of_ne ht]
      exact h.nodup t'

/-- Replacing the entry of an agent for one task type. -/
theorem replace (h : RegistryWF m) (e : RegistryEntry F) :
    RegistryWF (Function.update m e.capability.taskType
      ((m e.capability.taskType).filter (fun x => x.agentId ≠ e.agentId) ++ [e])) := by
  refine h.update ?_ ?_
  · intro x hx
    rcases List.mem_append.mp hx with hx | hx
    · exact h.typed _ x (List.mem_of_mem_filter hx)
    · rw [List.mem_singleton.mp hx]
  · rw [List.map_append, List.nodup_append]
    refine ⟨(List.filter_sublist.map _).nodup (h.nodup _), by simp, ?_⟩
    rintro a ha b hb rfl
    obtain ⟨x, hx, rfl⟩ := List.mem_map.mp ha
    simp only [List.map_cons, List.map_nil, List.mem_singleton] at hb
    simp [hb] at hx

/-- Changing trust scores keeps the invariant. -/
theorem mapTrust (h : RegistryWF m) (t : TaskType) (f : RegistryEntry F → F) :
    RegistryWF (Function.update m t ((m t).map fun e => { e with trustScore := f e })) := by
  refine h.update ?_ ?_
  · intro x hx
    obtain ⟨e, he, rfl⟩ := List.mem_map.mp hx
    exact h.typed t e he
  · rw [List.map_map]
    exact h.nodup t

end RegistryWF

namespace CapabilityRegistry

/-- Create an empty registry. -/
def new : CapabilityRegistry F := ⟨fun _ => [], ∅, ⟨by simp, by simp⟩⟩

/-- Register a capability for an agent with a given trust score. -/
def register (r : CapabilityRegistry F) (agentId : AgentId) (capability : Capability F)
    (trustScore : F) : CapabilityRegistry F where
  byTaskType := Function.update r.byTaskType capability.taskType
    ((r.byTaskType capability.taskType).filter (fun x => x.agentId ≠ agentId) ++
      [⟨agentId, capability, trustScore⟩])
  byAgent := r.byAgent.upsert agentId [] fun caps =>
    caps.filter (fun c => c.taskType ≠ capability.taskType) ++ [capability]
  wf := r.wf.replace ⟨agentId, capability, trustScore⟩

/-- Remove all capabilities for a given agent. -/
def unregister (r : CapabilityRegistry F) (agentId : AgentId) : CapabilityRegistry F where
  byTaskType t := (r.byTaskType t).filter (fun e => e.agentId ≠ agentId)
  byAgent := r.byAgent.erase agentId
  wf := r.wf.filter _

/-- Remove a specific capability for an agent; an agent without any is forgotten. -/
def unregisterCapability (r : CapabilityRegistry F) (agentId : AgentId) (t : TaskType) :
    CapabilityRegistry F where
  byTaskType := Function.update r.byTaskType t
    ((r.byTaskType t).filter fun e => e.agentId ≠ agentId)
  byAgent := match r.byAgent.lookup agentId with
    | some caps =>
      let rest := caps.filter fun c => c.taskType ≠ t
      if rest.isEmpty then r.byAgent.erase agentId else r.byAgent.insert agentId rest
    | none => r.byAgent
  wf := r.wf.update (fun e he => r.wf.typed t e (List.mem_of_mem_filter he))
    ((List.filter_sublist.map _).nodup (r.wf.nodup t))

/-- Whether a single entry satisfies QoS constraints. -/
def meetsConstraints (e : RegistryEntry F) (qos : QoSConstraints F) : Bool :=
  decide (e.capability.estimatedQuality ≥ qos.minQuality) &&
    decide (e.capability.estimatedLatency ≤ qos.maxLatency) &&
    decide (e.capability.costPerTask ≤ qos.maxCost) && decide (e.trustScore ≥ qos.minTrust)

/-- The entries of a task type that satisfy the constraints, by trust score descending. -/
def findCapable (r : CapabilityRegistry F) (t : TaskType) (qos : QoSConstraints F) :
    List (RegistryEntry F) :=
  sortDesc (·.trustScore) ((r.byTaskType t).filter (meetsConstraints · qos))

/-- Get a specific capability for an agent and task type. -/
def getCapability (r : CapabilityRegistry F) (agentId : AgentId) (t : TaskType) :
    Option (RegistryEntry F) :=
  (r.byTaskType t).find? (fun e => e.agentId = agentId)

/-- All registered capabilities of an agent. -/
def getAgentCapabilities (r : CapabilityRegistry F) (agentId : AgentId) : List (Capability F) :=
  (r.byAgent.lookup agentId).getD []

/-- Update the trust score for an agent in a specific task type. -/
def updateTrust (r : CapabilityRegistry F) (agentId : AgentId) (t : TaskType) (newTrust : F) :
    CapabilityRegistry F where
  byTaskType := Function.update r.byTaskType t ((r.byTaskType t).map fun e =>
    { e with trustScore := if e.agentId = agentId then clamp newTrust 0 1 else e.trustScore })
  byAgent := r.byAgent
  wf := r.wf.mapTrust t _

/-- The total number of registered capabilities. -/
def len (r : CapabilityRegistry F) : ℕ := (TaskType.all.map fun t => (r.byTaskType t).length).sum

def isEmpty (r : CapabilityRegistry F) : Bool := r.len == 0

/-- The number of distinct registered agents. -/
def agentCount (r : CapabilityRegistry F) : ℕ := r.byAgent.keys.length

end CapabilityRegistry

/-- The entry meets all four bounds of a request. -/
structure RegistryEntry.Meets (e : RegistryEntry F) (qos : QoSConstraints F) : Prop where
  quality : e.capability.estimatedQuality ≥ qos.minQuality
  latency : e.capability.estimatedLatency ≤ qos.maxLatency
  cost : e.capability.costPerTask ≤ qos.maxCost
  trust : e.trustScore ≥ qos.minTrust

theorem meetsConstraints_iff {e : RegistryEntry F} {qos : QoSConstraints F} :
    CapabilityRegistry.meetsConstraints e qos = true ↔ e.Meets qos := by
  simp only [CapabilityRegistry.meetsConstraints, Bool.and_eq_true, decide_eq_true_eq]
  constructor
  · rintro ⟨⟨⟨hq, hl⟩, hc⟩, ht⟩
    exact ⟨hq, hl, hc, ht⟩
  · rintro ⟨hq, hl, hc, ht⟩
    exact ⟨⟨⟨hq, hl⟩, hc⟩, ht⟩

instance (e : RegistryEntry F) (qos : QoSConstraints F) : Decidable (e.Meets qos) :=
  decidable_of_iff _ meetsConstraints_iff

namespace CapabilityRegistry

theorem mem_findCapable {r : CapabilityRegistry F} {t : TaskType} {qos : QoSConstraints F}
    {e : RegistryEntry F} : e ∈ r.findCapable t qos ↔ e ∈ r.byTaskType t ∧ e.Meets qos := by
  rw [findCapable, mem_sortDesc, List.mem_filter, meetsConstraints_iff]

omit [F64 F] in
theorem nodup_entries (r : CapabilityRegistry F) (t : TaskType) : (r.byTaskType t).Nodup :=
  List.Nodup.of_map _ (r.wf.nodup t)

omit [F64 F] in
theorem byTaskType_register (r : CapabilityRegistry F) (id : AgentId) (c : Capability F)
    (trust : F) : (r.register id c trust).byTaskType = Function.update r.byTaskType c.taskType
      ((r.byTaskType c.taskType).filter (fun x => x.agentId ≠ id) ++ [⟨id, c, trust⟩]) := rfl

omit [F64 F] in
/-- An entry after a registration was there before, or is the new one. -/
theorem mem_register {r : CapabilityRegistry F} {id : AgentId} {c : Capability F} {trust : F}
    {t : TaskType} {e : RegistryEntry F} (h : e ∈ (r.register id c trust).byTaskType t) :
    e ∈ r.byTaskType t ∨ e = ⟨id, c, trust⟩ := by
  rw [byTaskType_register] at h
  rcases eq_or_ne t c.taskType with rfl | ht
  · rw [Function.update_self] at h
    rcases List.mem_append.mp h with h | h
    · exact Or.inl (List.mem_of_mem_filter h)
    · exact Or.inr (List.mem_singleton.mp h)
  · rw [Function.update_of_ne ht] at h
    exact Or.inl h

/-- An entry after a trust update was there before, with the same trust or the new one. -/
theorem mem_updateTrust {r : CapabilityRegistry F} {id : AgentId} {t' t : TaskType} {trust : F}
    {e : RegistryEntry F} (h : e ∈ (r.updateTrust id t' trust).byTaskType t) :
    ∃ e₀ ∈ r.byTaskType t, e.agentId = e₀.agentId ∧
      (e.trustScore = e₀.trustScore ∨ e.trustScore = clamp trust 0 1) := by
  simp only [updateTrust] at h
  rcases eq_or_ne t t' with rfl | ht
  · rw [Function.update_self] at h
    obtain ⟨e₀, he₀, rfl⟩ := List.mem_map.mp h
    refine ⟨e₀, he₀, rfl, ?_⟩
    by_cases ha : e₀.agentId = id
    · exact Or.inr (if_pos ha)
    · exact Or.inl (if_neg ha)
  · rw [Function.update_of_ne ht] at h
    exact ⟨e, h, rfl, Or.inl rfl⟩

omit [F64 F] in
theorem getCapability_isSome {r : CapabilityRegistry F} {t : TaskType} {e : RegistryEntry F}
    (h : e ∈ r.byTaskType t) : (r.getCapability e.agentId t).isSome :=
  List.find?_isSome.mpr ⟨e, h, decide_eq_true rfl⟩

omit [F64 F] in
/-- Registering replaces the capability of its own agent and task type, and no other. -/
theorem getCapability_register (r : CapabilityRegistry F) (id a : AgentId) (c : Capability F)
    (trust : F) (t : TaskType) : (r.register id c trust).getCapability a t =
      if a = id ∧ t = c.taskType then some ⟨id, c, trust⟩ else r.getCapability a t := by
  unfold getCapability
  rw [byTaskType_register]
  rcases eq_or_ne t c.taskType with rfl | ht
  · rw [Function.update_self, List.find?_append]
    rcases eq_or_ne a id with rfl | ha
    · have hnone : ((r.byTaskType c.taskType).filter (fun x => x.agentId ≠ a)).find?
          (fun e => e.agentId = a) = none := by
        rw [List.find?_eq_none]
        intro e he
        simpa using List.of_mem_filter he
      rw [hnone, if_pos ⟨rfl, rfl⟩]
      simp
    · have hother : ((r.byTaskType c.taskType).filter (fun x => x.agentId ≠ id)).find?
          (fun e => e.agentId = a) = (r.byTaskType c.taskType).find? (fun e => e.agentId = a) := by
        rw [List.find?_filter]
        congr 1
        funext e
        by_cases he : e.agentId = a <;> simp [he, ha]
      rw [hother, if_neg (fun h => ha h.1)]
      simp [Ne.symm ha]
  · rw [Function.update_of_ne ht, if_neg (fun h => ht h.2)]

end CapabilityRegistry

end ATP
