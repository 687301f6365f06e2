import AgentTransport.Node.Node

/-! Tasks and open circuits. The handshake ranks the registry without a look at the breakers, and
    the breaker is asked about the one agent it contracted:

        best entry ─▶ contract ─▶ circuit OPEN within its cool-down ─▶ the task fails

    No other entry is tried, however healthy. -/

namespace ATP
open F64
variable {F : Type} [F64 F]

namespace CircuitBreaker

/-- The circuit of the agent is OPEN within its cool-down. -/
def Refuses (cb : CircuitBreaker) (a : AgentId) (now : DateTime) : Prop :=
  (cb.entry a now).state = .open ∧
    now - (cb.entry a now).lastStateChange < BreakerState.cooldownChrono cb.cooldown

instance (cb : CircuitBreaker) (a : AgentId) (now : DateTime) : Decidable (cb.Refuses a now) :=
  inferInstanceAs (Decidable (_ ∧ _))

/-- The breaker has one error. -/
theorem allowRequest_fst (cb : CircuitBreaker) (a : AgentId) (now : DateTime) :
    (cb.allowRequest a now).1 =
      if cb.Refuses a now then .error (.circuitOpen a.display) else .ok () := by
  split_ifs with h
  · exact allowRequest_error_iff.mpr h
  · have hne : (cb.allowRequest a now).1 ≠ .error (.circuitOpen a.display) :=
      mt allowRequest_error_iff.mp h
    rw [allowRequest] at hne ⊢
    dsimp only at hne ⊢
    split_ifs with hpass
    · rfl
    · rw [if_neg hpass] at hne
      exact absurd rfl hne

end CircuitBreaker

namespace AtpNode
open HandshakeCoordinator
variable {lib : External F} {node : AtpNode F} {env : TaskEnv} {t : TaskType}
  {payload : List UInt8} {qos : QoSConstraints F}

/-- The task fails with a `CircuitOpen` error. -/
def FailsOpen (lib : External F) (node : AtpNode F) (env : TaskEnv) (t : TaskType)
    (payload : List UInt8) (qos : QoSConstraints F) : Prop :=
  ∃ text node', node.executeTask lib env t payload qos =
    some (.error (.fault (.circuitOpen text)), node')

/-- The task fails so exactly when it is not poisoned and the breaker refuses the contracted
    agent. -/
theorem failsOpen_iff : FailsOpen lib node env t payload qos ↔
    node.poisonDetector.isPoisoned env.taskId = false ∧
      ∃ outcome, node.negotiate env t qos = some (.ok outcome) ∧
        node.circuitBreaker.Refuses outcome.contract.dst env.requestedAt := by
  constructor
  · rintro ⟨text, node', h⟩
    generalize hr : (Except.error (.fault (.circuitOpen text)) :
      Except (AtpError F) (TaskResultMsg F)) = r at h
    cases executeTask_cases h with
    | poisoned hp => cases hr
    | noContract _ hn => cases hr
    | @refused outcome e breaker hp hn ha =>
      refine ⟨Bool.eq_false_iff.mpr hp, outcome, hn, ?_⟩
      -- the only end with this error is the refusal by the breaker
      have hfst := congrArg Prod.fst ha
      rw [CircuitBreaker.allowRequest_fst] at hfst
      by_contra hpass
      rw [if_neg hpass] at hfst
      cases hfst
    | noContext _ hn ha hc => cases hr
    | completed _ hn ha => cases hr
  · rintro ⟨hpoison, outcome, hn, hrefuses⟩
    have hfst := CircuitBreaker.allowRequest_fst node.circuitBreaker outcome.contract.dst
      env.requestedAt
    rw [if_pos hrefuses] at hfst
    cases ha : node.circuitBreaker.allowRequest outcome.contract.dst env.requestedAt with
    | mk allowed breaker =>
      rw [ha] at hfst
      dsimp only at hfst
      subst hfst
      refine ⟨outcome.contract.dst.display, { node with circuitBreaker := breaker }, ?_⟩
      rw [executeTask, if_neg (by simp [hpoison]), hn]
      simp only [Option.bind_eq_bind, Option.bind_some, ha]
      rfl

/-- The contract is with an agent registered for the task type. -/
theorem contracted_registered {outcome : HandshakeOutcome F}
    (h : node.negotiate env t qos = some (.ok outcome)) :
    ∃ w ∈ node.capabilityRegistry.byTaskType t, outcome.contract.dst = w.agentId := by
  obtain ⟨⟨result, c'⟩, hrun, rfl⟩ := Option.map_eq_some_iff.mp h
  exact negotiate_withEntry hrun

/-- When some entry meets the request and no offer expires, the contract is with the entry ranked
    first. -/
theorem contracted_best {outcome : HandshakeOutcome F} {w : RegistryEntry F}
    {rest : List (RegistryEntry F)} (hprompt : (env.negotiation 1).Prompt)
    (hbest : sortDesc (·.offerScore qos) (node.capabilityRegistry.findCapable t qos) = w :: rest)
    (h : node.negotiate env t qos = some (.ok outcome)) : outcome.contract.dst = w.agentId := by
  have hsome : node.capabilityRegistry.findCapable t qos ≠ [] := by
    intro hnone
    rw [hnone] at hbest
    cases hbest
  obtain ⟨⟨result, c'⟩, hrun, rfl⟩ := Option.map_eq_some_iff.mp h
  obtain ⟨⟨result', sm⟩, hattempts, heq⟩ := Option.map_eq_some_iff.mp hrun
  obtain ⟨rfl, -⟩ := Prod.mk.inj heq
  cases hmax : (HandshakeCoordinator.new node.agentId node.config.handshake).maxAttempts with
  | zero =>
    -- `max_retries + 1` has wrapped around: no attempt is made
    rw [hmax] at hattempts
    cases hattempts
  | succ n =>
    rw [hmax] at hattempts
    obtain ⟨best, rest', hranked, haccept⟩ := attemptsFrom_accept (n := n) hsome hprompt
    obtain ⟨hout, -⟩ := Prod.mk.inj (Option.some.inj (haccept.symm.trans hattempts))
    obtain rfl := Except.ok.inj hout
    rw [hbest] at hranked
    exact congrArg RegistryEntry.agentId (List.cons.inj hranked).1

/-- An open circuit fails the task: exactly when the contracted agent's circuit is OPEN within its
    cool-down. No such circuit among the agents of the task type, or none for the entry ranked
    first, keeps that from happening. -/
theorem open_circuit_fails_task (lib : External F) (node : AtpNode F) (env : TaskEnv)
    (t : TaskType) (payload : List UInt8) (qos : QoSConstraints F) :
    (FailsOpen lib node env t payload qos ↔
      node.poisonDetector.isPoisoned env.taskId = false ∧
        ∃ outcome, node.negotiate env t qos = some (.ok outcome) ∧
          node.circuitBreaker.Refuses outcome.contract.dst env.requestedAt) ∧
    ((∀ e ∈ node.capabilityRegistry.byTaskType t,
        ¬ node.circuitBreaker.Refuses e.agentId env.requestedAt) →
      ¬ FailsOpen lib node env t payload qos) ∧
    ∀ w rest, (env.negotiation 1).Prompt →
      sortDesc (·.offerScore qos) (node.capabilityRegistry.findCapable t qos) = w :: rest →
      ¬ node.circuitBreaker.Refuses w.agentId env.requestedAt →
      ¬ FailsOpen lib node env t payload qos := by
  refine ⟨failsOpen_iff, ?_, ?_⟩
  · intro hhealthy hfails
    obtain ⟨-, outcome, hn, hrefuses⟩ := failsOpen_iff.mp hfails
    obtain ⟨e, he, hdst⟩ := contracted_registered hn
    exact hhealthy e he (hdst ▸ hrefuses)
  · intro w rest hprompt hbest hhealthy hfails
    obtain ⟨-, outcome, hn, hrefuses⟩ := failsOpen_iff.mp hfails
    exact hhealthy (contracted_best hprompt hbest hn ▸ hrefuses)

/-- A new node that knows two agents for analyses; the better one, agent 1, has failed three tasks
    at time 0, which opens its circuit. -/
def trippedNode : AtpNode ℚ :=
  Trace.run (step External.sample) (new ⟨0⟩ .default)
    ([.registerAgent ⟨⟨1⟩, [⟨.analysis, 9 / 10, Duration.millis 100, 1 / 100⟩]⟩ (.insertion _) 0,
      .registerAgent ⟨⟨2⟩, [⟨.analysis, 8 / 10, Duration.millis 100, 1 / 100⟩]⟩ (.insertion _) 0] ++
    [1, 2, 3].map fun task => .recordTaskFailure task ⟨1⟩ fun _ => 0)

/-- An analysis without context, its request made at `now`. -/
def requestAt (now : DateTime) : TaskEnv :=
  ⟨9, fun _ => ⟨0, 0, fun _ => 0, fun _ => 0, 0, 0⟩, now, 0, 0, 0, 0, 0⟩

def anyQos : QoSConstraints ℚ := ⟨1 / 2, Duration.secs 1, 1, 1 / 2⟩

/-- Once the circuit of agent 1 has cooled down neither circuit refuses a request. -/
theorem open_circuit_fails_task_cooled :
    ¬ FailsOpen External.sample trippedNode (requestAt (Duration.secs 60 : ℕ)) .analysis []
      anyQos := by
  have hranked : (sortDesc (·.offerScore anyQos)
      (trippedNode.capabilityRegistry.findCapable .analysis anyQos)).map (·.agentId) =
        [⟨1⟩, ⟨2⟩] := by
    decide +kernel
  obtain ⟨w, rest, hbest, hw, -⟩ := List.map_eq_cons_iff.mp hranked
  refine (open_circuit_fails_task External.sample trippedNode (requestAt (Duration.secs 60 : ℕ))
    .analysis [] anyQos).2.2 w rest (fun _ => ?_) hbest ?_
  · show (0 : ℤ) ≤ 0 + (defaultOfferTtl : ℤ)
    decide
  · rw [hw]
    decide +kernel

/-- Agent 2 meets the request and its circuit is CLOSED, yet the task fails on the OPEN circuit of
    agent 1. -/
theorem open_circuit_not_rerouted :
    (∃ e ∈ trippedNode.capabilityRegistry.byTaskType .analysis, e.Meets anyQos ∧
      ¬ trippedNode.circuitBreaker.Refuses e.agentId 0) ∧
    FailsOpen External.sample trippedNode (requestAt 0) .analysis [] anyQos := by
  refine ⟨by decide +kernel, failsOpen_iff.mpr ⟨by decide +kernel, ?_⟩⟩
  have hdst : (trippedNode.negotiate (requestAt 0) .analysis anyQos).bind
      (fun r => r.toOption.map (·.contract.dst)) = some ⟨1⟩ := by decide +kernel
  obtain ⟨r, hn, hr⟩ := Option.bind_eq_some_iff.mp hdst
  obtain ⟨outcome, hok, hagent⟩ := Option.map_eq_some_iff.mp hr
  cases r with
  | error e => cases hok
  | ok o =>
    obtain rfl := Option.some.inj hok
    refine ⟨o, hn, ?_⟩
    rw [hagent]
    decide +kernel

end AtpNode

end ATP
