import AgentTransport.Node.Capabilities

/-! The three copies of an agent's trust: the identity store computes it, the capability registry
    and the routing graph keep a score each. A registration writes both copies. A task adds an
    interaction, and then writes the registry entry of its own task type only:

        registration    store ─▶ every entry of the list, and the node of the graph
        task            store ─▶ the entry of the task type

    So the copies stay together exactly as long as no task moves the trust off the prior. -/

namespace ATP
open F64 Collections

namespace AtpNode

section Copies
variable {F : Type} [F64 F]

/-- Every copy of a registered agent's trust is what the identity store computes. -/
structure TrustAgrees (lib : External F) (now : DateTime) (node : AtpNode F) : Prop where
  registry : ∀ a, node.identityStore.Registered a → ∀ t,
    ∀ e ∈ node.capabilityRegistry.byTaskType t, e.agentId = a →
      e.trustScore = node.identityStore.aggregateTrust lib a now
  graph : ∀ a, node.identityStore.Registered a →
    ∃ n, node.economicRouter.graph.nodeById a = some n ∧
      n.trustScore = node.identityStore.aggregateTrust lib a now

/-- A completed task, as the layers see it: `agent` did a task of type `t` with the capability
    `c`. -/
structure TaskDone (lib : External F) (node node' : AtpNode F) (agent : AgentId) (t : TaskType)
    (c : Capability F) : Prop where
  advertised : node.advertised agent t = some c
  interaction : ∃ r : InteractionRecord F, r.subject = agent ∧
    r.qualityScore = c.estimatedQuality ∧
    node'.identityStore = node.identityStore.addInteraction r
  registry : ∃ now, node'.capabilityRegistry = node.capabilityRegistry.updateTrust agent t
    (node'.identityStore.aggregateTrust lib agent now)
  router : node'.economicRouter = node.economicRouter

/-- An accepted task has been done by the contracted agent, which is in the registry. -/
theorem accepted_task {lib : External F} {node : AtpNode F} {env : TaskEnv} {t : TaskType}
    {payload : List UInt8} {qos : QoSConstraints F}
    (h : (node.step lib (.executeTask env t payload qos)).1 = .accepted) :
    ∃ outcome c, node.negotiate env t qos = some (.ok outcome) ∧
      (∃ e ∈ node.capabilityRegistry.byTaskType t, e.agentId = outcome.contract.dst) ∧
      TaskDone lib node (node.step lib (.executeTask env t payload qos)).2
        outcome.contract.dst t c := by
  cases hrun : node.executeTask lib env t payload qos with
  | none => rw [step, hrun] at h; cases h
  | some p =>
    obtain ⟨result, node'⟩ := p
    cases result with
    | error e => rw [step, hrun] at h; cases h
    | ok result =>
      have hpost : (node.step lib (.executeTask env t payload qos)).2 = node' := by
        rw [step, hrun]
      rw [hpost]
      generalize hr : (Except.ok result : Except (AtpError F) (TaskResultMsg F)) = r at hrun
      cases executeTask_cases hrun with
      | poisoned _ => cases hr
      | noContract _ _ => cases hr
      | refused _ _ _ => cases hr
      | noContext _ _ _ _ => cases hr
      | @completed outcome breaker _ hn ha =>
        -- the contracted agent has an entry, and the result reports the quality of its capability
        obtain ⟨⟨_, coordinator⟩, hneg, hfst⟩ := Option.map_eq_some_iff.mp hn
        obtain rfl : _ = Except.ok outcome := hfst
        obtain ⟨w, hw, hdst⟩ := HandshakeCoordinator.negotiate_withEntry hneg
        have hsome := CapabilityRegistry.getCapability_isSome hw
        rw [← hdst] at hsome
        obtain ⟨entry, hentry⟩ := Option.isSome_iff_exists.mp hsome
        refine ⟨outcome, entry.capability, hn, ⟨w, hw, hdst.symm⟩, ?_, ?_, ⟨_, rfl⟩, rfl⟩
        · rw [advertised, hentry]
          rfl
        · refine ⟨_, rfl, ?_, rfl⟩
          show (simulateResult _ env _ t payload).qualitySelfReport = _
          simp only [simulateResult, hentry]

/-- What every run of registrations and tasks keeps: the records of an agent are about it, and who
    is in the registry is registered, and has a node in the graph. -/
structure Linked (node : AtpNode F) : Prop where
  engine : node.identityStore.trustEngine = TrustEngine.default
  subjects : ∀ a, ∀ r ∈ node.identityStore.getInteractions a, r.subject = a
  known : ∀ t, ∀ e ∈ node.capabilityRegistry.byTaskType t, node.identityStore.Registered e.agentId
  routed : ∀ a, node.identityStore.Registered a →
    (node.economicRouter.graph.nodeById a).isSome

/-- Every copy of every trust, and every record behind it, is at the value `c`. -/
structure AllAt (c : F) (node : AtpNode F) : Prop where
  records : ∀ a, ∀ r ∈ node.identityStore.getInteractions a, r.qualityScore = c
  entries : ∀ t, ∀ e ∈ node.capabilityRegistry.byTaskType t, e.trustScore = c
  nodes : ∀ a n, node.economicRouter.graph.nodeById a = some n → n.trustScore = c

omit [F64 F] in
/-- An entry after registering a list was there before, or is one of the agent. -/
theorem mem_registerAll {id : AgentId} {caps : List (Capability F)} {trust : F} {t : TaskType}
    {e : RegistryEntry F} : ∀ {registry : CapabilityRegistry F},
    e ∈ (registerAll registry id caps trust).byTaskType t →
      e ∈ registry.byTaskType t ∨ (e.agentId = id ∧ e.trustScore = trust) := by
  induction caps with
  | nil => exact fun h => Or.inl h
  | cons c caps ih =>
    intro registry h
    rcases ih h with h | h
    · rcases CapabilityRegistry.mem_register h with h | rfl
      · exact Or.inl h
      · exact Or.inr ⟨rfl, rfl⟩
    · exact Or.inr h

section Register
variable {lib : External F} {hs : RandomState AgentId} {node : AtpNode F}
  {identity : AgentIdentity F} {now : DateTime}

theorem Linked.registerAgent (h : Linked node) :
    Linked (node.registerAgent lib hs identity now) where
  engine := h.engine
  subjects a r hr := h.subjects a r (by
    rw [← IdentityStore.getInteractions_register node.identityStore identity a]
    exact hr)
  known t e he := by
    refine IdentityStore.registered_register.mpr ?_
    rcases mem_registerAll he with he | ⟨hid, -⟩
    · exact Or.inr (h.known t e he)
    · exact Or.inl hid
  routed a ha := by
    rw [registerAgent_nodeById]
    rcases IdentityStore.registered_register.mp ha with rfl | ha
    · rw [if_pos rfl]
      rfl
    · split
      · rfl
      · exact h.routed a ha

theorem AllAt.registerAgent {c : F} (h : AllAt c node)
    (htrust : registrationTrust lib node identity now = c) :
    AllAt c (node.registerAgent lib hs identity now) where
  records a r hr := h.records a r (by
    rw [← IdentityStore.getInteractions_register node.identityStore identity a]
    exact hr)
  entries t e he := by
    rcases mem_registerAll he with he | ⟨-, he⟩
    · exact h.entries t e he
    · exact he.trans htrust
  nodes a n hn := by
    rw [registerAgent_nodeById] at hn
    split at hn
    · rw [← Option.some.inj hn]
      exact htrust
    · exact h.nodes a n hn

end Register

section Task
variable {lib : External F} {node node' : AtpNode F} {agent : AgentId} {t : TaskType}
  {c : Capability F}

theorem Linked.taskDone (h : Linked node) (hd : TaskDone lib node node' agent t c) :
    Linked node' := by
  obtain ⟨-, ⟨r, hsub, -, hstore⟩, ⟨now, hreg⟩, hrouter⟩ := hd
  refine ⟨?_, ?_, ?_, ?_⟩
  · rw [hstore]
    exact h.engine
  · intro a x hx
    rw [hstore] at hx
    rcases IdentityStore.mem_addInteraction hx with hx | ⟨rfl, rfl⟩
    · exact h.subjects a x hx
    · rfl
  · intro t' e he
    rw [hreg] at he
    obtain ⟨e₀, he₀, hid, -⟩ := CapabilityRegistry.mem_updateTrust he
    rw [hid, hstore]
    exact h.known t' e₀ he₀
  · intro a ha
    rw [hrouter]
    rw [hstore] at ha
    exact h.routed a ha

theorem AllAt.taskDone {x : F} (h : AllAt x node) (hd : TaskDone lib node node' agent t c)
    (hquality : c.estimatedQuality = x)
    (htrust : ∀ now, clamp (node'.identityStore.aggregateTrust lib agent now) 0 1 = x) :
    AllAt x node' := by
  obtain ⟨-, ⟨r, hsub, hr, hstore⟩, ⟨now, hreg⟩, hrouter⟩ := hd
  refine ⟨?_, ?_, ?_⟩
  · intro a y hy
    rw [hstore] at hy
    rcases IdentityStore.mem_addInteraction hy with hy | ⟨-, rfl⟩
    · exact h.records a y hy
    · rw [hr, hquality]
  · intro t' e he
    rw [hreg] at he
    obtain ⟨e₀, he₀, -, hsame | hnew⟩ := CapabilityRegistry.mem_updateTrust he
    · exact hsame.trans (h.entries t' e₀ he₀)
    · exact hnew.trans (htrust now)
  · intro a n hn
    rw [hrouter] at hn
    exact h.nodes a n hn

end Task

/-- The operations that a run of registrations and tasks is made of. -/
def TrustOp : NodeEvent F → Prop
  | .registerAgent .. => True
  | .executeTask .. => True
  | _ => False

theorem Linked.step {lib : External F} {node : AtpNode F} {e : NodeEvent F} (h : Linked node)
    (hop : TrustOp e) (hok : (node.step lib e).1 = .accepted) : Linked (node.step lib e).2 := by
  cases e with
  | registerAgent identity hs now => exact h.registerAgent
  | executeTask env t payload qos =>
    obtain ⟨outcome, c, -, -, hd⟩ := accepted_task hok
    exact h.taskDone hd
  | _ => exact absurd hop id

/-- A new node has no copies, and no records. -/
theorem linked_new (agentId : AgentId) (config : AtpConfig F) : Linked (new agentId config) where
  engine := rfl
  subjects a r hr := by cases hr
  known t e he := by cases he
  routed a ha := by cases ha

theorem allAt_new (x : F) (agentId : AgentId) (config : AtpConfig F) :
    AllAt x (new agentId config) where
  records a r hr := by cases hr
  entries t e he := by cases he
  nodes a n hn := by cases hn

end Copies

/-! ### Exact arithmetic -/

section Exact
variable {K : Type} [Field K] [LinearOrder K] [IsStrictOrderedRing K] [FloorRing K]
  {lib : External K} {node node' : AtpNode K}

/-- The task, if it is one, is contracted to an agent whose registered quality for it is the
    prior. -/
def NeutralTask (node : AtpNode K) : NodeEvent K → Prop
  | .executeTask env t _ qos => ∀ outcome, node.negotiate env t qos = some (.ok outcome) →
      ∀ c, node.advertised outcome.contract.dst t = some c →
        c.estimatedQuality = TrustEngine.default.prior
  | _ => True

omit [IsStrictOrderedRing K] in
theorem prior_eq : (TrustEngine.default : TrustEngine K).prior = ((1 / 2 : ℚ) : K) := rfl

theorem prior_pos : 0 < (TrustEngine.default : TrustEngine K).prior := by
  rw [prior_eq]
  norm_num

theorem prior_lt_one : (TrustEngine.default : TrustEngine K).prior < 1 := by
  rw [prior_eq]
  norm_num

/-- While every record is at the prior, so is the trust in every agent, at any time. -/
theorem AllAt.aggregateTrust (hexp : ∀ x, 0 < lib.exp x) (hl : Linked node)
    (h : AllAt TrustEngine.default.prior node) (a : AgentId) (now : DateTime) :
    node.identityStore.aggregateTrust lib a now = TrustEngine.default.prior := by
  rw [IdentityStore.aggregateTrust, hl.engine]
  exact TrustEngine.aggregate_prior hexp prior_pos prior_lt_one (hl.subjects a) (h.records a)

theorem AllAt.agrees (hexp : ∀ x, 0 < lib.exp x) (hl : Linked node)
    (h : AllAt TrustEngine.default.prior node) (now : DateTime) : TrustAgrees lib now node where
  registry a _ t e he _ := by rw [h.aggregateTrust hexp hl, h.entries t e he]
  graph a ha := by
    obtain ⟨n, hn⟩ := Option.isSome_iff_exists.mp (hl.routed a ha)
    exact ⟨n, hn, by rw [h.aggregateTrust hexp hl, h.nodes a n hn]⟩

/-- A task moves the trust in its agent off the prior unless its quality is the prior. -/
theorem AllAt.taskDone_iff (hexp : ∀ x, 0 < lib.exp x) (hl : Linked node)
    (h : AllAt TrustEngine.default.prior node) {agent : AgentId} {t : TaskType}
    {c : Capability K} (hd : TaskDone lib node node' agent t c) (now : DateTime) :
    node'.identityStore.aggregateTrust lib agent now = TrustEngine.default.prior ↔
      c.estimatedQuality = TrustEngine.default.prior := by
  have hl' := hl.taskDone hd
  obtain ⟨-, ⟨r, hsub, hr, hstore⟩, -, -⟩ := hd
  have hrecords : node'.identityStore.getInteractions agent =
      node.identityStore.getInteractions agent ++ [r] := by
    rw [hstore, IdentityStore.getInteractions_addInteraction, if_pos hsub.symm]
  have hsubjects := hl'.subjects agent
  rw [hrecords] at hsubjects
  rw [IdentityStore.aggregateTrust, hl'.engine, hrecords, ← hr]
  exact TrustEngine.aggregate_concat_eq_iff hexp prior_pos prior_lt_one hsubjects
    (h.records agent)

/-- From copies at the prior, a neutral step leaves them there. -/
theorem AllAt.step (hexp : ∀ x, 0 < lib.exp x) {e : NodeEvent K} (hl : Linked node)
    (h : AllAt TrustEngine.default.prior node) (hop : TrustOp e)
    (hok : (node.step lib e).1 = .accepted) (hn : NeutralTask node e) :
    AllAt TrustEngine.default.prior (node.step lib e).2 := by
  cases e with
  | registerAgent identity hs now =>
    refine h.registerAgent ?_
    rw [registrationTrust, IdentityStore.aggregateTrust, IdentityStore.getInteractions_register]
    exact h.aggregateTrust hexp hl identity.id now
  | executeTask env t payload qos =>
    obtain ⟨outcome, c, hneg, -, hd⟩ := accepted_task hok
    have hc := hn outcome hneg c hd.advertised
    refine h.taskDone hd hc fun now => ?_
    rw [clamp_eq_iff prior_pos prior_lt_one]
    exact (h.taskDone_iff hexp hl hd now).mpr hc
  | _ => exact absurd hop id

/-- From copies at the prior, a step after which they agree was neutral: the graph still has the
    agent of a task at the prior. -/
theorem AllAt.neutral (hexp : ∀ x, 0 < lib.exp x) {e : NodeEvent K} (hl : Linked node)
    (h : AllAt TrustEngine.default.prior node) (hok : (node.step lib e).1 = .accepted)
    {now : DateTime} (hagrees : TrustAgrees lib now (node.step lib e).2) :
    NeutralTask node e := by
  cases e with
  | executeTask env t payload qos =>
    intro outcome hneg c hadv
    obtain ⟨outcome', c', hneg', ⟨w, hw, hwid⟩, hd⟩ := accepted_task hok
    obtain rfl := Except.ok.inj (Option.some.inj (hneg.symm.trans hneg'))
    obtain rfl := Option.some.inj (hadv.symm.trans hd.advertised)
    have hreg : (node.step lib (.executeTask env t payload qos)).2.identityStore.Registered
        outcome.contract.dst := by
      obtain ⟨r, -, -, hstore⟩ := hd.interaction
      rw [hstore, ← hwid]
      exact hl.known t w hw
    obtain ⟨n, hn, htrust⟩ := hagrees.graph _ hreg
    rw [hd.router] at hn
    exact (h.taskDone_iff hexp hl hd now).mp (htrust.symm.trans (h.nodes _ n hn))
  | _ => trivial

/-- In every run of registrations and successful tasks, all copies of trust agree after each call,
    whenever they are read, exactly when every task is contracted to an agent whose registered
    quality for it is the prior. `exp` is positive, and arithmetic exact. -/
theorem one_trust_value_iff (lib : External K) (hexp : ∀ x, 0 < lib.exp x) (agentId : AgentId)
    (config : AtpConfig K) (events : List (NodeEvent K)) (hops : ∀ e ∈ events, TrustOp e)
    (hok : ∀ es e, es ++ [e] <+: events →
      ((Trace.run (step lib) (new agentId config) es).step lib e).1 = .accepted)
    (readAt : List (NodeEvent K) → DateTime) :
    (∀ es, es <+: events →
        TrustAgrees lib (readAt es) (Trace.run (step lib) (new agentId config) es)) ↔
      ∀ es e, es ++ [e] <+: events →
        NeutralTask (Trace.run (step lib) (new agentId config) es) e := by
  have hop : ∀ es e, es ++ [e] <+: events → TrustOp e :=
    fun es e h => hops e (h.subset (by simp))
  have hlinked : ∀ es, es <+: events →
      Linked (Trace.run (step lib) (new agentId config) es) := by
    refine Trace.prefix_induction (linked_new agentId config) ?_
    intro es e hpre h
    rw [Trace.run_concat]
    exact h.step (hop es e hpre) (hok es e hpre)
  have hbefore : ∀ es e, es ++ [e] <+: events → es <+: events :=
    fun es e h => (List.prefix_append es [e]).trans h
  -- the copies stay at the prior while every step from there is neutral
  have hall : (∀ es e, es ++ [e] <+: events →
      AllAt TrustEngine.default.prior (Trace.run (step lib) (new agentId config) es) →
      NeutralTask (Trace.run (step lib) (new agentId config) es) e) → ∀ es, es <+: events →
      AllAt TrustEngine.default.prior (Trace.run (step lib) (new agentId config) es) := by
    intro hneutral
    refine Trace.prefix_induction (allAt_new _ agentId config) ?_
    intro es e hpre h
    rw [Trace.run_concat]
    exact h.step hexp (hlinked es (hbefore es e hpre)) (hop es e hpre) (hok es e hpre)
      (hneutral es e hpre h)
  constructor
  · intro hagrees
    have hneutral : ∀ es e, es ++ [e] <+: events →
        AllAt TrustEngine.default.prior (Trace.run (step lib) (new agentId config) es) →
        NeutralTask (Trace.run (step lib) (new agentId config) es) e := by
      intro es e hpre h
      have hpost := hagrees (es ++ [e]) hpre
      rw [Trace.run_concat] at hpost
      exact h.neutral hexp (hlinked es (hbefore es e hpre)) (hok es e hpre) hpost
    intro es e hpre
    exact hneutral es e hpre (hall hneutral es (hbefore es e hpre))
  · intro hneutral es hpre
    exact (hall (fun es e hpre _ => hneutral es e hpre) es hpre).agrees hexp (hlinked es hpre)
      (readAt es)

end Exact

/-! ### One task of good quality -/

/-- Agent 1 registers an analysis and a code generation of quality 0.9. -/
def goodAgent : NodeEvent ℚ :=
  .registerAgent ⟨⟨1⟩, [review, { review with taskType := .codeGeneration }]⟩ (.insertion _) 0

/-- An analysis is asked for, without context, while the clock stands still. -/
def analysisTask : NodeEvent ℚ :=
  .executeTask ⟨9, fun _ => ⟨0, 0, fun _ => 0, fun _ => 0, 0, 0⟩, 0, 0, 0, 0, 0, 0⟩ .analysis []
    ⟨1 / 2, Duration.secs 1, 1, 1 / 2⟩

theorem one_trust_value_iff_task :
    (∀ es, es <+: [goodAgent, analysisTask] → TrustAgrees External.sample 0
        (Trace.run (step External.sample) (new ⟨0⟩ .default) es)) ↔
      ∀ es e, es ++ [e] <+: [goodAgent, analysisTask] →
        NeutralTask (Trace.run (step External.sample) (new ⟨0⟩ .default) es) e :=
  one_trust_value_iff External.sample (fun _ => zero_lt_one) ⟨0⟩ .default
    [goodAgent, analysisTask] (by simp [TrustOp, goodAgent, analysisTask]) (by
      intro es e h
      rcases es with _ | ⟨a, _ | ⟨b, es⟩⟩
      · obtain ⟨rest, h⟩ := h
        cases h
        decide +kernel
      · obtain ⟨rest, h⟩ := h
        cases h
        decide +kernel
      · exact absurd h.length_le (by simp)) fun _ => 0

/-- After the task the store computes trust 0.9 in agent 1; its node in the graph still has 0.5, and
    so has its entry for code generation. -/
theorem copies_diverge :
    let registered := Trace.run (step External.sample) (new ⟨0⟩ .default) [goodAgent]
    let node := (registered.step External.sample analysisTask).2
    (registered.step External.sample analysisTask).1 = .accepted ∧
      node.identityStore.aggregateTrust External.sample ⟨1⟩ 0 = 9 / 10 ∧
      (node.economicRouter.graph.nodeById ⟨1⟩).map (·.trustScore) = some (1 / 2) ∧
      (node.capabilityRegistry.byTaskType .codeGeneration).map (·.trustScore) = [1 / 2] ∧
      ¬ TrustAgrees External.sample 0 node := by
  intro registered node
  have hstore : node.identityStore.aggregateTrust External.sample ⟨1⟩ 0 = 9 / 10 := by
    decide +kernel
  have hgraph : (node.economicRouter.graph.nodeById ⟨1⟩).map (·.trustScore) = some (1 / 2) := by
    decide +kernel
  have hregistered : node.identityStore.Registered ⟨1⟩ := by
    show (node.identityStore.identities.lookup ⟨1⟩).isSome = true
    decide +kernel
  refine ⟨by decide +kernel, hstore, hgraph, by decide +kernel, ?_⟩
  intro h
  obtain ⟨n, hn, htrust⟩ := h.graph ⟨1⟩ hregistered
  rw [hn, Option.map_some, Option.some.injEq, htrust, hstore] at hgraph
  norm_num at hgraph

end AtpNode

end ATP
