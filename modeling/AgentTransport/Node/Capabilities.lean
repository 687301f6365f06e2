import AgentTransport.Node.Node

/-! The two places that know what an agent offers. The handshake registry merges: an entry is
    replaced by a later one for the same task type, and stays while none comes. The routing graph
    replaces: it has the list of the last registration, and reads the first fitting entry of it.

        lists registered for an agent    registry             graph
        [x₁, y₁], then [x₂]              x₂, y₁ (kept)        x₂, no y
        [x₁, x₂]                         x₂ (the last)        x₁ (the first) -/

namespace ATP
open F64 Collections
variable {F : Type} [F64 F]

/-- A registration, with what it takes from its surroundings. -/
structure Registration (F : Type) where
  identity : AgentIdentity F
  hs : RandomState AgentId
  now : DateTime

namespace Registration

def event (r : Registration F) : NodeEvent F := .registerAgent r.identity r.hs r.now

/-- Everything registered for an agent, in order. -/
def history (rs : List (Registration F)) (a : AgentId) : List (Capability F) :=
  (rs.filter (fun r => r.identity.id = a)).flatMap (·.identity.capabilities)

/-- The list of the agent's last registration, empty without one. -/
def latest (rs : List (Registration F)) (a : AgentId) : List (Capability F) :=
  (((rs.filter (fun r => r.identity.id = a)).getLast?).map (·.identity.capabilities)).getD []

omit [F64 F] in
theorem history_concat (rs : List (Registration F)) (r : Registration F) (a : AgentId) :
    history (rs ++ [r]) a =
      history rs a ++ if a = r.identity.id then r.identity.capabilities else [] := by
  rw [history, List.filter_append, List.flatMap_append, ← history]
  rcases eq_or_ne a r.identity.id with rfl | h
  · simp
  · simp [h, Ne.symm h]

omit [F64 F] in
theorem latest_concat (rs : List (Registration F)) (r : Registration F) (a : AgentId) :
    latest (rs ++ [r]) a =
      if a = r.identity.id then r.identity.capabilities else latest rs a := by
  rw [latest, List.filter_append]
  rcases eq_or_ne a r.identity.id with rfl | h
  · simp
  · simp [h, Ne.symm h, latest]

end Registration

namespace AtpNode

/-- What the handshake knows an agent to offer for a task type. -/
def advertised (node : AtpNode F) (a : AgentId) (t : TaskType) : Option (Capability F) :=
  (node.capabilityRegistry.getCapability a t).map (·.capability)

/-- What the routing graph knows an agent to offer for a task type. -/
def routed (node : AtpNode F) (a : AgentId) (t : TaskType) : Option (Capability F) :=
  (node.economicRouter.graph.nodeById a).bind (·.capabilityFor t)

omit [F64 F] in
/-- Registering a list leaves the last of its capabilities for a task type. -/
theorem registerAll_getCapability (registry : CapabilityRegistry F) (id a : AgentId)
    (caps : List (Capability F)) (trust : F) (t : TaskType) :
    (registerAll registry id caps trust).getCapability a t =
      if a = id then
        (((caps.filter (fun c => c.taskType = t)).getLast?).map (⟨id, ·, trust⟩)).or
          (registry.getCapability a t)
      else registry.getCapability a t := by
  induction caps using List.reverseRecOn with
  | nil => simp [registerAll]
  | append_singleton caps c ih =>
    rw [registerAll, List.foldl_append, List.foldl_cons, List.foldl_nil,
      CapabilityRegistry.getCapability_register, ← registerAll, ih]
    by_cases ha : a = id
    · by_cases ht : t = c.taskType
      · subst ha ht
        simp [List.filter_append]
      · have hc : [c].filter (fun c => c.taskType = t) = [] := by simp [Ne.symm ht]
        rw [if_neg (fun h => ht h.2), if_pos ha, if_pos ha, List.filter_append, hc,
          List.append_nil]
    · rw [if_neg (fun h => ha h.1), if_neg ha, if_neg ha]

omit [F64 F] in
/-- Connecting agents changes no node. -/
theorem connectAll_nodeById (router : EconomicRouter F) (id a : AgentId) (others : List AgentId) :
    (connectAll router id others).graph.nodeById a = router.graph.nodeById a := by
  induction others generalizing router with
  | nil => rfl
  | cons other others ih =>
    rw [connectAll, List.foldl_cons, ← connectAll, ih]
    by_cases h : other ≠ id
    · rw [if_pos h, EconomicRouter.connect, AgentGraph.addBidiEdge,
        AgentGraph.nodeById_addEdge, AgentGraph.nodeById_addEdge]
    · rw [if_neg h]

section Register
variable (lib : External F) (hs : RandomState AgentId) (node : AtpNode F)
  (identity : AgentIdentity F) (now : DateTime)

/-- The trust that a registration gives the agent in both layers. -/
def registrationTrust (node : AtpNode F) (identity : AgentIdentity F) (now : DateTime) : F :=
  (node.identityStore.register identity).aggregateTrust lib identity.id now

theorem registerAgent_getCapability (a : AgentId) (t : TaskType) :
    (node.registerAgent lib hs identity now).capabilityRegistry.getCapability a t =
      if a = identity.id then
        (((identity.capabilities.filter (fun c => c.taskType = t)).getLast?).map
          (⟨identity.id, ·, registrationTrust lib node identity now⟩)).or
            (node.capabilityRegistry.getCapability a t)
      else node.capabilityRegistry.getCapability a t :=
  registerAll_getCapability _ _ _ _ _ _

theorem registerAgent_nodeById (a : AgentId) :
    (node.registerAgent lib hs identity now).economicRouter.graph.nodeById a =
      if a = identity.id then
        some ⟨identity.id, identity.capabilities, true, registrationTrust lib node identity now⟩
      else node.economicRouter.graph.nodeById a := by
  refine (connectAll_nodeById _ _ _ _).trans ?_
  exact AgentGraph.nodeById_addAgent _ _ _ _ _

end Register

/-- One registration more. -/
theorem run_register (lib : External F) (agentId : AgentId) (config : AtpConfig F)
    (rs : List (Registration F)) (r : Registration F) :
    Trace.run (step lib) (new agentId config) ((rs ++ [r]).map Registration.event) =
      (Trace.run (step lib) (new agentId config) (rs.map Registration.event)).registerAgent
        lib r.hs r.identity r.now := by
  rw [List.map_append, Trace.run_append]
  rfl

/-- After any registrations the registry has, for each agent and task type, the last capability
    ever registered. -/
theorem advertised_run (lib : External F) (agentId : AgentId) (config : AtpConfig F)
    (rs : List (Registration F)) (a : AgentId) (t : TaskType) :
    (Trace.run (step lib) (new agentId config) (rs.map Registration.event)).advertised a t =
      ((Registration.history rs a).filter (fun c => c.taskType = t)).getLast? := by
  induction rs using List.reverseRecOn with
  | nil => rfl
  | append_singleton rs r ih =>
    rw [run_register, advertised, registerAgent_getCapability, Registration.history_concat,
      List.filter_append, List.getLast?_append, ← ih]
    by_cases ha : a = r.identity.id
    · rw [if_pos ha, if_pos ha, Option.map_or, Option.map_map]
      generalize (r.identity.capabilities.filter (fun c => c.taskType = t)).getLast? = last
      cases last <;> rfl
    · rw [if_neg ha, if_neg ha]
      simp [advertised]

/-- The graph has the first fitting capability of the agent's last registration. -/
theorem routed_run (lib : External F) (agentId : AgentId) (config : AtpConfig F)
    (rs : List (Registration F)) (a : AgentId) (t : TaskType) :
    (Trace.run (step lib) (new agentId config) (rs.map Registration.event)).routed a t =
      (Registration.latest rs a).find? (fun c => c.taskType = t) := by
  induction rs using List.reverseRecOn with
  | nil => rfl
  | append_singleton rs r ih =>
    rw [run_register, routed, registerAgent_nodeById, Registration.latest_concat]
    by_cases ha : a = r.identity.id
    · rw [if_pos ha, if_pos ha]
      rfl
    · rw [if_neg ha, if_neg ha, ← routed, ih]

omit [F64 F] in
/-- The last list registered for an agent ends its history. -/
theorem Registration.latest_suffix (rs : List (Registration F)) (a : AgentId) :
    ∃ earlier, Registration.history rs a = earlier ++ Registration.latest rs a := by
  induction rs using List.reverseRecOn with
  | nil => exact ⟨[], rfl⟩
  | append_singleton rs r ih =>
    rw [Registration.history_concat, Registration.latest_concat]
    by_cases ha : a = r.identity.id
    · rw [if_pos ha, if_pos ha]
      exact ⟨Registration.history rs a, rfl⟩
    · rw [if_neg ha, if_neg ha, List.append_nil]
      exact ih

/-- The registry merges all lists registered for an agent and the graph has only the last one, so
    the layers agree on a task type that the last list names at most once and does not drop. -/
theorem layers_agree (lib : External F) (agentId : AgentId) (config : AtpConfig F)
    (rs : List (Registration F)) (a : AgentId) (t : TaskType) :
    let node := Trace.run (step lib) (new agentId config) (rs.map Registration.event)
    let named (caps : List (Capability F)) := caps.filter (fun c => c.taskType = t)
    node.advertised a t = (named (Registration.history rs a)).getLast? ∧
      node.routed a t = (named (Registration.latest rs a)).head? ∧
      ((named (Registration.latest rs a)).length ≤ 1 →
        (named (Registration.latest rs a) = [] → named (Registration.history rs a) = []) →
        node.advertised a t = node.routed a t) := by
  intro node named
  have hadv : node.advertised a t = (named (Registration.history rs a)).getLast? :=
    advertised_run lib agentId config rs a t
  have hrouted : node.routed a t = (named (Registration.latest rs a)).head? :=
    (routed_run lib agentId config rs a t).trans List.head?_filter.symm
  refine ⟨hadv, hrouted, ?_⟩
  intro hone hkept
  rw [hadv, hrouted]
  -- the last list ends the history, so the last entry of the history is the one it names
  obtain ⟨earlier, hhist⟩ := Registration.latest_suffix rs a
  cases hl : named (Registration.latest rs a) with
  | nil => rw [hkept hl]; rfl
  | cons c rest =>
    have hrest : rest = [] := by
      rw [hl, List.length_cons] at hone
      exact List.length_eq_zero_iff.mp (by omega)
    have hnamed : named (Registration.history rs a) =
        named earlier ++ named (Registration.latest rs a) := by
      rw [hhist]
      exact List.filter_append _ _
    rw [hnamed, hl, hrest, List.getLast?_append]
    rfl

/-- Two offers for one task type, of different quality. -/
def draft : Capability ℚ := ⟨.analysis, 6 / 10, Duration.millis 100, 1 / 10⟩
def review : Capability ℚ := ⟨.analysis, 9 / 10, Duration.millis 100, 1 / 10⟩

/-- Agent 1 registers a list of capabilities. -/
def registration (caps : List (Capability ℚ)) : Registration ℚ := ⟨⟨⟨1⟩, caps⟩, .insertion _, 0⟩

theorem layers_agree_updated :
    let node := Trace.run (step External.sample) (new ⟨0⟩ .default)
      ([registration [draft], registration [review]].map Registration.event)
    node.advertised ⟨1⟩ .analysis = node.routed ⟨1⟩ .analysis :=
  (layers_agree External.sample ⟨0⟩ .default [registration [draft], registration [review]]
    ⟨1⟩ .analysis).2.2 (by decide) (by decide)

/-- A list with two entries for a task type shows the handshake the last one and the router the
    first; dropping a task type hides it from the router alone. -/
theorem layers_disagree :
    let twice := Trace.run (step External.sample) (new ⟨0⟩ .default)
      ([registration [draft, review]].map Registration.event)
    let dropped := Trace.run (step External.sample) (new ⟨0⟩ .default)
      ([registration [draft], registration []].map Registration.event)
    (twice.advertised ⟨1⟩ .analysis = some review ∧ twice.routed ⟨1⟩ .analysis = some draft ∧
      review.estimatedQuality ≠ draft.estimatedQuality) ∧
    (dropped.advertised ⟨1⟩ .analysis = some draft ∧ dropped.routed ⟨1⟩ .analysis = none) := by
  decide +kernel

end AtpNode

end ATP
