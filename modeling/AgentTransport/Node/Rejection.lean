import AgentTransport.Node.Node

/-! What a rejected call leaves behind. A message is rejected only as a TASK_SUBMIT, a task at any
    of its checks; the one thing that may differ afterwards is the circuit of the agent that the
    breaker was asked about, which goes from OPEN to HALF_OPEN once its cool-down has elapsed,
    whatever the later checks say. -/

namespace ATP
open F64 Collections
variable {F : Type} [F64 F]

namespace CircuitBreaker

/-- The circuit is OPEN and its cool-down has elapsed. -/
structure CooledDown (cb : CircuitBreaker) (agent : AgentId) (now : DateTime) : Prop where
  isOpen : cb.state agent = .open
  elapsed : BreakerState.cooldownChrono cb.cooldown ≤ now - (cb.entry agent now).lastStateChange

/-- Whether a request passes is decided without touching the count of failures. -/
theorem failureCount_allowRequest (cb : CircuitBreaker) (agent : AgentId) (now : DateTime)
    (a : AgentId) : (cb.allowRequest agent now).2.failureCount a = cb.failureCount a := by
  rcases eq_or_ne agent a with rfl | h
  · have hstep : (cb.allowRequest agent now).2.failureCount agent =
      ((cb.entry agent now).allowRequest cb.cooldown now).2.consecutiveFailures :=
      failureCount_step_self (c := ⟨.allowRequest, agent, now⟩)
    rw [failureCount_eq_entry cb agent now, hstep, BreakerState.allowRequest]
    split
    · rfl
    · rfl
    · split <;> rfl
  · exact failureCount_step_ne (c := ⟨.allowRequest, agent, now⟩) h

/-- Asking about an agent whose circuit has cooled down lets the request pass, HALF_OPEN. -/
theorem CooledDown.allowRequest {cb : CircuitBreaker} {agent : AgentId} {now : DateTime}
    (h : cb.CooledDown agent now) : (cb.allowRequest agent now).1 = .ok () ∧
      (cb.allowRequest agent now).2.state agent = .halfOpen := by
  have hopen : (cb.entry agent now).state = .open :=
    (state_eq_entry cb agent now).symm.trans h.isOpen
  have hpost : (cb.allowRequest agent now).2.state agent =
    ((cb.entry agent now).allowRequest cb.cooldown now).2.state :=
    state_step_self (c := ⟨.allowRequest, agent, now⟩)
  rw [hpost]
  simp [CircuitBreaker.allowRequest, BreakerState.allowRequest, hopen, h.elapsed]

/-- Asking about any other agent leaves the state of every circuit. -/
theorem state_allowRequest {cb : CircuitBreaker} {agent : AgentId} {now : DateTime} {a : AgentId}
    (h : ¬ (agent = a ∧ cb.CooledDown a now)) :
    (cb.allowRequest agent now).2.state a = cb.state a := by
  rcases eq_or_ne agent a with rfl | hne
  · have hpost : (cb.allowRequest agent now).2.state agent =
      ((cb.entry agent now).allowRequest cb.cooldown now).2.state :=
      state_step_self (c := ⟨.allowRequest, agent, now⟩)
    have hpre := state_eq_entry cb agent now
    rw [hpost, hpre]
    unfold BreakerState.allowRequest
    split
    · rfl
    · rfl
    · rename_i hopen
      split
      · rename_i helapsed
        exact absurd ⟨rfl, hpre.trans hopen, helapsed⟩ h
      · rfl
  · exact state_step_ne (c := ⟨.allowRequest, agent, now⟩) hne

end CircuitBreaker

namespace AtpNode

/-- The node is as it was, but for the breaker, which was asked about an agent at `now`, or not at
    all. That agent's circuit is HALF_OPEN if it had cooled down, every other one as it was, and so
    are all of them after a request that the breaker refused. -/
structure KeptBut (asked : Option AgentId) (now : DateTime) (e : AtpError F)
    (node node' : AtpNode F) : Prop where
  rest : node' = { node with circuitBreaker := asked.elim node.circuitBreaker fun agent =>
    (node.circuitBreaker.allowRequest agent now).2 }
  failureCount : ∀ a, node'.circuitBreaker.failureCount a = node.circuitBreaker.failureCount a
  moved : ∀ a, asked = some a → node.circuitBreaker.CooledDown a now →
    node'.circuitBreaker.state a = .halfOpen
  circuit : ∀ a, ¬ (asked = some a ∧ node.circuitBreaker.CooledDown a now) →
    node'.circuitBreaker.state a = node.circuitBreaker.state a
  refused : ∀ text, e = .fault (.circuitOpen text) →
    ∀ a, node'.circuitBreaker.state a = node.circuitBreaker.state a

omit [F64 F] in
theorem KeptBut.same (now : DateTime) (e : AtpError F) (node : AtpNode F) :
    KeptBut none now e node node where
  rest := rfl
  failureCount _ := rfl
  moved _ h := by cases h
  circuit _ _ := rfl
  refused _ _ _ := rfl

omit [F64 F] in
/-- A call that asks the breaker about one agent and is then rejected. -/
theorem KeptBut.of_asked {now : DateTime} {e : AtpError F} {node : AtpNode F} {agent : AgentId}
    (he : (node.circuitBreaker.allowRequest agent now).1 = .ok () →
      ∀ text, e ≠ .fault (.circuitOpen text)) :
    KeptBut (some agent) now e node
      { node with circuitBreaker := (node.circuitBreaker.allowRequest agent now).2 } where
  rest := rfl
  failureCount := CircuitBreaker.failureCount_allowRequest node.circuitBreaker agent now
  moved a h hcool := by
    obtain rfl := Option.some.inj h
    exact hcool.allowRequest.2
  circuit a h := CircuitBreaker.state_allowRequest fun hcool => h ⟨congrArg some hcool.1, hcool.2⟩
  refused text htext a :=
    CircuitBreaker.state_allowRequest fun hcool => he (hcool.1 ▸ hcool.2.allowRequest.1) text htext

/-- The agent that a task makes the breaker asked about: the contracted one, unless the task is
    poisoned. -/
def askedAbout (node : AtpNode F) (env : TaskEnv) (t : TaskType) (qos : QoSConstraints F) :
    Option AgentId :=
  if node.poisonDetector.isPoisoned env.taskId then none
  else
    match node.negotiate env t qos with
    | some (.ok outcome) => some outcome.contract.dst
    | _ => none

/-- Only a TASK_SUBMIT is ever rejected. -/
theorem handleMessage_error {node node' : AtpNode F} {msg : AtpMessage F} {clock : ℕ → DateTime}
    {e : AtpError F} (h : node.handleMessage msg clock = (.error e, node')) :
    ∃ submit, msg = .taskSubmit submit ∧
      node' = { node with
        circuitBreaker := (node.circuitBreaker.allowRequest submit.src (clock 0)).2 } ∧
      ((node.circuitBreaker.allowRequest submit.src (clock 0)).1 = .ok () →
        ∀ text, e ≠ .fault (.circuitOpen text)) := by
  cases msg with
  | taskSubmit submit =>
    refine ⟨submit, rfl, ?_⟩
    simp only [handleMessage, MessageDispatcher.dispatch, MessageDispatcher.handleTaskSubmit] at h
    cases ha : node.circuitBreaker.allowRequest submit.src (clock 0) with
    | mk allowed breaker =>
      rw [ha] at h
      cases allowed with
      | error e' =>
        obtain ⟨-, rfl⟩ := Prod.mk.inj h
        exact ⟨rfl, fun hok => by cases hok⟩
      -- the breaker has been asked by now, and may have moved
      | ok u =>
        by_cases hp : node.poisonDetector.isPoisoned submit.taskId = true
        · simp only [hp, if_true] at h
          obtain ⟨he, rfl⟩ := Prod.mk.inj h
          obtain rfl := Except.error.inj he
          exact ⟨rfl, fun _ text htext => by cases htext⟩
        · simp only [hp] at h
          obtain ⟨he, -⟩ := Prod.mk.inj h
          cases he
  | capabilityProbe probe =>
    simp only [handleMessage, MessageDispatcher.dispatch, MessageDispatcher.handleProbe] at h
    obtain ⟨he, -⟩ := Prod.mk.inj h
    split at he <;> cases he
  | _ =>
    obtain ⟨he, -⟩ := Prod.mk.inj h
    cases he

/-- Of all messages only a TASK_SUBMIT is rejected. A rejected message or task leaves the node as it
    was, but for the circuit of the submitting or the contracted agent: asking about an OPEN circuit
    that has cooled down makes it HALF_OPEN even when a later check rejects the call. -/
theorem rejection_keeps_node (lib : External F) (node node' : AtpNode F) (e : AtpError F) :
    (∀ msg clock, node.handleMessage msg clock = (.error e, node') →
      ∃ submit, msg = .taskSubmit submit ∧
        KeptBut (some submit.src) (clock 0) e node node') ∧
    (∀ env t payload qos, node.executeTask lib env t payload qos = some (.error e, node') →
      KeptBut (node.askedAbout env t qos) env.requestedAt e node node') := by
  constructor
  · intro msg clock h
    obtain ⟨submit, rfl, rfl, he⟩ := handleMessage_error h
    exact ⟨submit, rfl, .of_asked he⟩
  · intro env t payload qos h
    generalize hr : (Except.error e : Except (AtpError F) (TaskResultMsg F)) = r at h
    -- the breaker is asked once a contract is made, about its agent
    have hasked : ∀ {outcome}, ¬ node.poisonDetector.isPoisoned env.taskId = true →
        node.negotiate env t qos = some (.ok outcome) →
          node.askedAbout env t qos = some outcome.contract.dst := by
      intro outcome hp hn
      rw [askedAbout, if_neg hp, hn]
    cases executeTask_cases h with
    | poisoned hp =>
      rw [askedAbout, if_pos hp]
      exact .same _ _ _
    | noContract hp hn =>
      rw [askedAbout, if_neg hp, hn]
      exact .same _ _ _
    | refused hp hn ha =>
      obtain rfl := Except.error.inj hr
      have hbreaker := congrArg Prod.snd ha
      subst hbreaker
      rw [hasked hp hn]
      exact .of_asked fun hok => by rw [ha] at hok; cases hok
    | noContext hp hn ha hc =>
      obtain rfl := Except.error.inj hr
      have hbreaker := congrArg Prod.snd ha
      subst hbreaker
      rw [hasked hp hn]
      exact .of_asked fun _ text htext => by cases htext
    | completed hp hn ha => cases hr

/-- A new node after five failures of one task at time 0: the task is poisoned, by three agents,
    and the circuit of agent 1, which failed it three times, is OPEN. -/
def afterFailures : AtpNode ℚ :=
  Trace.run (step External.sample) (new ⟨0⟩ .default)
    ([⟨1⟩, ⟨1⟩, ⟨1⟩, ⟨2⟩, ⟨3⟩].map fun agent => .recordTaskFailure 7 agent fun _ => 0)

/-- Agent 1 submits the poisoned task. -/
def poisonedSubmit : AtpMessage ℚ :=
  .taskSubmit ⟨⟨1⟩, ⟨0⟩, 7, .analysis, [], ⟨Vector.replicate 32 0, [], 1, 0, 0⟩, 0⟩

theorem rejection_keeps_node_poisoned :
    ∃ submit, poisonedSubmit = .taskSubmit submit ∧
      KeptBut (some submit.src) (Duration.secs 31 : ℕ) (.fault (.poisonTask (Uuid.display 7)))
        afterFailures (afterFailures.handleMessage poisonedSubmit fun _ => Duration.secs 31).2 :=
  (rejection_keeps_node External.sample afterFailures _ _).1 poisonedSubmit
    (fun _ => Duration.secs 31) (Prod.ext rfl rfl)

/-- The submission is rejected because the task is poisoned, and the circuit of its sender has
    moved all the same. -/
theorem rejected_submit_moves_circuit :
    (∃ e, (afterFailures.handleMessage poisonedSubmit fun _ => Duration.secs 31).1 = .error e) ∧
      afterFailures.circuitBreaker.state ⟨1⟩ = .open ∧
      (afterFailures.handleMessage poisonedSubmit
        fun _ => Duration.secs 31).2.circuitBreaker.state ⟨1⟩ = .halfOpen := by
  refine ⟨⟨.fault (.poisonTask (Uuid.display 7)), ?_⟩, ?_, ?_⟩
  · rfl
  · decide +kernel
  · decide +kernel

end AtpNode

end ATP
