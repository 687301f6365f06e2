import AgentTransport.Handshake.Contract

/-! The three phases as one negotiation against a local registry: probe, rank the offers, accept
    the best one, and relax the constraints and try again when nobody qualifies. -/

namespace ATP
open F64
variable {F : Type} [F64 F]

/-- The successful outcome of a handshake negotiation. -/
structure HandshakeOutcome (F : Type) where
  contract : ContractAcceptMsg F
  selectedOffer : RankedOffer F
  attempts : ℕ
  effectiveQos : QoSConstraints F

/-- Orchestrates the full 3-phase handshake flow. -/
structure HandshakeCoordinator (F : Type) where
  requester : AgentId
  config : HandshakeConfig F
  stateMachine : HandshakeStateMachine
  contractDuration : Duration

/-- What one attempt takes from its surroundings: the nonce and the times of the probe and of the
    contract, and for each offer when it is made and when its expiry is checked. -/
structure AttemptEnv where
  nonce : UInt64
  probedAt : DateTime
  offeredAt : ℕ → DateTime
  checkedAt : ℕ → DateTime
  contractId : Uuid
  acceptedAt : DateTime

/-- No offer of the attempt has run out when it is checked. -/
def AttemptEnv.Prompt (env : AttemptEnv) : Prop :=
  ∀ i, env.checkedAt i ≤ env.offeredAt i + (defaultOfferTtl : ℤ)

/-- A step of the negotiation: it moves the state machine and may fail; `none` is a panic. -/
abbrev NegotiateM := ExceptT HandshakeError (StateT HandshakeStateMachine Option)

/-- A transition of the state machine; a refused one leaves it where it is. -/
def transition (f : HandshakeStateMachine → Except HandshakeError HandshakeStateMachine) :
    NegotiateM Unit := do
  match f (← get) with
  | .ok sm => set sm
  | .error e => throw e

/-- The offers of the matching entries, each stamped by its own clock reading. -/
def simulateOffers (env : AttemptEnv) (probe : CapabilityProbeMsg F)
    (entries : List (RegistryEntry F)) : List (CapabilityOfferMsg F × ℕ) :=
  entries.zipIdx.map fun (e, i) =>
    (createOffer e.agentId probe e.capability e.trustScore defaultOfferTtl (env.offeredAt i), i)

/-- The offers that have not expired when they are checked. -/
def validOffers (env : AttemptEnv) (offers : List (CapabilityOfferMsg F × ℕ)) :
    List (CapabilityOfferMsg F) :=
  (offers.filter fun (o, i) => !isOfferExpired (env.checkedAt i) o).map Prod.fst

namespace HandshakeCoordinator
open HandshakeStateMachine (onProbeSent onOffersReceived onFailure resetForRetry)

/-- Create a new coordinator for the given requester. -/
def new (requester : AgentId) (config : HandshakeConfig F) : HandshakeCoordinator F :=
  ⟨requester, config, .new, Duration.secs 60⟩

/-- Override the contract duration. -/
def setContractDuration (c : HandshakeCoordinator F) (duration : Duration) :
    HandshakeCoordinator F := { c with contractDuration := duration }

/-- Current state of the handshake. -/
def state (c : HandshakeCoordinator F) : HandshakeState := c.stateMachine.state

/-- `max_retries + 1`, in 32 bits. -/
def maxAttempts (c : HandshakeCoordinator F) : ℕ := (c.config.maxRetries + 1).toNat

/-- An attempt starts from Idle. -/
def ensureIdle : NegotiateM Unit := do
  if (← get).state ≠ .idle then
    tryCatch (transition resetForRetry) fun _ => do throw ((← get).invalid "Idle")

/-- An attempt that found nobody: relax and go on, or fail with `e` when it was the last. -/
def relaxOrFail (c : HandshakeCoordinator F) (attempt : ℕ) (qos : QoSConstraints F)
    (e : HandshakeError) (next : QoSConstraints F → NegotiateM (HandshakeOutcome F)) :
    NegotiateM (HandshakeOutcome F) := do
  if attempt < c.maxAttempts then
    transition resetForRetry
    next (← qos.relax c.config.relaxationFactor)
  else
    transition onFailure
    throw e

/-- The offers of an attempt are ranked and the best one is accepted. -/
def acceptBest (c : HandshakeCoordinator F) (env : AttemptEnv) (attempt : ℕ)
    (qos : QoSConstraints F) (offers : List (CapabilityOfferMsg F)) :
    NegotiateM (HandshakeOutcome F) := do
  transition onOffersReceived
  match rankOffers offers qos.maxLatency qos.maxCost with
  | [] => throw (.negotiationFailed "no ranked offers")
  | best :: _ =>
    let contract :=
      createContract c.requester best qos c.contractDuration env.contractId env.acceptedAt
    transition fun sm => sm.onContractAccepted contract.contractId best.offer.src
    pure ⟨contract, best, attempt, qos⟩

/-- The attempts that remain, from number `attempt` on. -/
def attemptsFrom (c : HandshakeCoordinator F) (env : ℕ → AttemptEnv) (taskType : TaskType)
    (registry : CapabilityRegistry F) :
    ℕ → ℕ → QoSConstraints F → NegotiateM (HandshakeOutcome F)
  | 0, _, _ => do
    tryCatch (transition onFailure) fun _ => pure ()
    throw (.negotiationFailed "exhausted all attempts")
  | remaining + 1, attempt, qos => do
    ensureIdle
    let probe := createProbe c.requester taskType qos none (env attempt).nonce
      (env attempt).probedAt
    transition onProbeSent
    let probeResult := processProbe probe registry
    if probeResult.matchingEntries.isEmpty then
      c.relaxOrFail attempt qos (.noCapableAgents taskType.display) fun q =>
        attemptsFrom c env taskType registry remaining (attempt + 1) q
    else
      let offers := simulateOffers (env attempt) probe probeResult.matchingEntries
      let valid := validOffers (env attempt) offers
      if valid.isEmpty then
        c.relaxOrFail attempt qos (.negotiationFailed "all offers expired") fun q =>
          attemptsFrom c env taskType registry remaining (attempt + 1) q
      else
        c.acceptBest (env attempt) attempt qos valid

/-- Run the full handshake against a local registry; `none` is the panic of `relax`. -/
def negotiate (c : HandshakeCoordinator F) (env : ℕ → AttemptEnv) (taskType : TaskType)
    (qos : QoSConstraints F) (registry : CapabilityRegistry F) :
    Option (Except HandshakeError (HandshakeOutcome F) × HandshakeCoordinator F) :=
  ((c.attemptsFrom env taskType registry c.maxAttempts 1 qos).run.run c.stateMachine).map
    fun (result, sm) => (result, { c with stateMachine := sm })

end HandshakeCoordinator

/-! ### The offers of one attempt -/

/-- The registry entry an offer speaks for. -/
def RankedOffer.entry (r : RankedOffer F) : RegistryEntry F :=
  ⟨r.offer.src, r.offer.capability, r.offer.trustScore⟩

omit [F64 F] in
/-- Without delay every simulated offer is valid. -/
theorem validOffers_of_prompt {env : AttemptEnv} (h : env.Prompt) (probe : CapabilityProbeMsg F)
    (entries : List (RegistryEntry F)) :
    validOffers env (simulateOffers env probe entries) =
      (simulateOffers env probe entries).map Prod.fst := by
  rw [validOffers, List.filter_eq_self.mpr]
  intro p hp
  obtain ⟨⟨e, i⟩, -, rfl⟩ := List.mem_map.mp hp
  have hfresh : isOfferExpired (env.checkedAt i) (createOffer e.agentId probe e.capability
    e.trustScore defaultOfferTtl (env.offeredAt i)) = false := isOfferExpired_default.mpr (h i)
  simp [hfresh]

/-- Ranking the offers of an attempt ranks the entries by their scores. -/
theorem ranked_entries {env : AttemptEnv} (h : env.Prompt) (probe : CapabilityProbeMsg F)
    (entries : List (RegistryEntry F)) (qos : QoSConstraints F) :
    (rankOffers (validOffers env (simulateOffers env probe entries)) qos.maxLatency
      qos.maxCost).map RankedOffer.entry = sortDesc (·.offerScore qos) entries := by
  rw [validOffers_of_prompt h, simulateOffers, List.map_map, rankOffers]
  rw [rank_map, List.map_map]
  have hkey := map_sortDesc Prod.fst (fun e : RegistryEntry F => e.offerScore qos) entries.zipIdx
  rw [List.zipIdx_map_fst] at hkey
  exact hkey

namespace HandshakeCoordinator

/-! ### One attempt, from the Idle state -/

section Attempt
variable {c : HandshakeCoordinator F} {env : ℕ → AttemptEnv} {t : TaskType}
  {registry : CapabilityRegistry F} {n attempt : ℕ} {qos : QoSConstraints F}

/-- The offers of an attempt that are valid when they are checked. -/
def attemptOffers (c : HandshakeCoordinator F) (env : ℕ → AttemptEnv) (t : TaskType)
    (registry : CapabilityRegistry F) (attempt : ℕ) (qos : QoSConstraints F) :
    List (CapabilityOfferMsg F) :=
  validOffers (env attempt) (simulateOffers (env attempt)
    (createProbe c.requester t qos none (env attempt).nonce (env attempt).probedAt)
    (registry.findCapable t qos))

theorem attemptOffers_of_none (h : registry.findCapable t qos = []) :
    c.attemptOffers env t registry attempt qos = [] := by
  rw [attemptOffers, h]
  rfl

/-- No valid offer and attempts remain: the next one starts from Idle, with relaxed bounds. -/
theorem attemptsFrom_silent (h : c.attemptOffers env t registry attempt qos = [])
    (hlt : attempt < c.maxAttempts) :
    (c.attemptsFrom env t registry (n + 1) attempt qos).run.run .new =
      (qos.relax c.config.relaxationFactor).bind fun relaxed =>
        (c.attemptsFrom env t registry n (attempt + 1) relaxed).run.run .new := by
  have hprobe : (processProbe (createProbe c.requester t qos none (env attempt).nonce
      (env attempt).probedAt) registry).matchingEntries = registry.findCapable t qos := rfl
  rw [attemptOffers] at h
  rw [attemptsFrom]
  simp only [hprobe, h, List.isEmpty_nil, if_true, relaxOrFail, if_pos hlt, ite_self]
  cases qos.relax c.config.relaxationFactor <;> rfl

/-- Nobody qualifies and attempts remain. -/
theorem attemptsFrom_retry {relaxed : QoSConstraints F} (hnone : registry.findCapable t qos = [])
    (hlt : attempt < c.maxAttempts) (hrelax : qos.relax c.config.relaxationFactor = some relaxed) :
    (c.attemptsFrom env t registry (n + 1) attempt qos).run.run .new =
      (c.attemptsFrom env t registry n (attempt + 1) relaxed).run.run .new := by
  rw [attemptsFrom_silent (attemptOffers_of_none hnone) hlt, hrelax, Option.bind_some]

/-- Nobody qualifies at the last attempt. -/
theorem attemptsFrom_fail (hnone : registry.findCapable t qos = [])
    (hlast : ¬ attempt < c.maxAttempts) :
    (c.attemptsFrom env t registry (n + 1) attempt qos).run.run .new =
      some (.error (.noCapableAgents t.display), ⟨.failed, none, none⟩) := by
  have hprobe : (processProbe (createProbe c.requester t qos none (env attempt).nonce
      (env attempt).probedAt) registry).matchingEntries = [] := hnone
  rw [attemptsFrom]
  simp only [hprobe, List.isEmpty_nil, if_true, relaxOrFail, if_neg hlast]
  rfl

/-- The best of the valid offers becomes the contract. -/
theorem attemptsFrom_best {best : RankedOffer F} {rest : List (RankedOffer F)}
    (hr : rankOffers (c.attemptOffers env t registry attempt qos) qos.maxLatency qos.maxCost =
      best :: rest) :
    (c.attemptsFrom env t registry (n + 1) attempt qos).run.run .new =
      some (.ok ⟨createContract c.requester best qos c.contractDuration
          (env attempt).contractId (env attempt).acceptedAt, best, attempt, qos⟩,
        ⟨.contracted, some (env attempt).contractId, some best.offer.src⟩) := by
  have hprobe : (processProbe (createProbe c.requester t qos none (env attempt).nonce
      (env attempt).probedAt) registry).matchingEntries = registry.findCapable t qos := rfl
  have hvalid : c.attemptOffers env t registry attempt qos ≠ [] := by
    intro hnil
    rw [hnil] at hr
    cases hr
  have hcapable : (registry.findCapable t qos).isEmpty = false := by
    rw [List.isEmpty_eq_false_iff]
    exact mt attemptOffers_of_none hvalid
  rw [← List.isEmpty_eq_false_iff, attemptOffers] at hvalid
  rw [attemptOffers] at hr
  rw [attemptsFrom]
  simp only [hprobe, hcapable, hvalid, Bool.false_eq_true, if_false, acceptBest, hr]
  rfl

/-- Somebody qualifies and no offer expires. -/
theorem attemptsFrom_accept (hsome : registry.findCapable t qos ≠ [])
    (hprompt : (env attempt).Prompt) :
    ∃ best rest,
      best.entry :: rest = sortDesc (·.offerScore qos) (registry.findCapable t qos) ∧
      (c.attemptsFrom env t registry (n + 1) attempt qos).run.run .new =
        some (.ok ⟨createContract c.requester best qos c.contractDuration
            (env attempt).contractId (env attempt).acceptedAt, best, attempt, qos⟩,
          ⟨.contracted, some (env attempt).contractId, some best.offer.src⟩) := by
  have hranked : (rankOffers (c.attemptOffers env t registry attempt qos) qos.maxLatency
      qos.maxCost).map RankedOffer.entry = _ := ranked_entries hprompt _ _ qos
  cases hr : rankOffers (c.attemptOffers env t registry attempt qos) qos.maxLatency
      qos.maxCost with
  | nil =>
    -- ranking drops nothing
    rw [hr, List.map_nil] at hranked
    exact absurd (hranked ▸ sortDesc_perm _ _).nil_eq.symm hsome
  | cons best rest =>
    rw [hr] at hranked
    exact ⟨best, rest.map RankedOffer.entry, hranked, attemptsFrom_best hr⟩

end Attempt

/-! ### Whom a contract is with -/

/-- Every value the computation returns without an error satisfies `P`, from any state. -/
def Yields {α : Type} (x : NegotiateM α) (P : α → Prop) : Prop :=
  ∀ sm a sm', x.run.run sm = some (.ok a, sm') → P a

theorem Yields.throw {α : Type} {P : α → Prop} (e : HandshakeError) :
    Yields (throw e : NegotiateM α) P := by
  intro sm a sm' h
  cases h

theorem Yields.pure {α : Type} {P : α → Prop} {a : α} (h : P a) :
    Yields (pure a : NegotiateM α) P := by
  intro sm a' sm' h'
  obtain ⟨ha, -⟩ := Prod.mk.inj (Option.some.inj h')
  obtain rfl := Except.ok.inj ha
  exact h

/-- What comes last decides what is returned. -/
theorem Yields.bind {α β : Type} {P : β → Prop} {x : NegotiateM α} {f : α → NegotiateM β}
    (h : ∀ a, Yields (f a) P) : Yields (x >>= f) P := by
  intro sm b sm' hrun
  have hbind : (x >>= f).run.run sm = (x.run.run sm).bind fun p =>
      match p.1 with
      | .ok a => (f a).run.run p.2
      | .error e => some (.error e, p.2) := by
    show (x.run.run sm).bind _ = _
    congr 1
    funext p
    obtain ⟨r, s⟩ := p
    cases r <;> rfl
  rw [hbind] at hrun
  cases hx : x.run.run sm with
  | none => rw [hx] at hrun; cases hrun
  | some p =>
    obtain ⟨r, s⟩ := p
    rw [hx] at hrun
    cases r with
    | error e => cases hrun
    | ok a => exact h a s b sm' hrun

/-- The contract is with an agent of the registry. -/
def WithEntry (registry : CapabilityRegistry F) (t : TaskType) (o : HandshakeOutcome F) : Prop :=
  ∃ w ∈ registry.byTaskType t, o.contract.dst = w.agentId

section WithEntry
variable {c : HandshakeCoordinator F} {t : TaskType} {registry : CapabilityRegistry F}
  {qos : QoSConstraints F} {attempt : ℕ}

theorem yields_relaxOrFail {e : HandshakeError}
    {next : QoSConstraints F → NegotiateM (HandshakeOutcome F)}
    (h : ∀ q, Yields (next q) (WithEntry registry t)) :
    Yields (c.relaxOrFail attempt qos e next) (WithEntry registry t) := by
  unfold relaxOrFail
  split
  · exact .bind fun _ => .bind fun q => h q
  · exact .bind fun _ => .throw e

omit [F64 F] in
theorem mem_validOffers {env : AttemptEnv} {probe : CapabilityProbeMsg F}
    {entries : List (RegistryEntry F)} {o : CapabilityOfferMsg F}
    (h : o ∈ validOffers env (simulateOffers env probe entries)) :
    ∃ e ∈ entries, o.src = e.agentId := by
  obtain ⟨⟨o', i⟩, hmem, rfl⟩ := List.mem_map.mp h
  obtain ⟨⟨e, j⟩, he, heq⟩ := List.mem_map.mp (List.mem_of_mem_filter hmem)
  refine ⟨e, List.fst_mem_of_mem_zipIdx he, ?_⟩
  rw [← (Prod.mk.inj heq).1]
  rfl

theorem yields_acceptBest {env : AttemptEnv} {offers : List (CapabilityOfferMsg F)}
    (h : ∀ o ∈ offers, ∃ w ∈ registry.byTaskType t, o.src = w.agentId) :
    Yields (c.acceptBest env attempt qos offers) (WithEntry registry t) := by
  unfold acceptBest
  refine .bind fun _ => ?_
  split
  · exact .throw _
  · rename_i best rest hranked
    refine .bind fun _ => .pure ?_
    have hbest : best ∈ rankOffers offers qos.maxLatency qos.maxCost := by
      rw [hranked]
      exact List.mem_cons_self
    obtain ⟨o, ho, rfl⟩ := List.mem_map.mp (mem_sortDesc.mp hbest)
    exact h o ho

theorem yields_attemptsFrom {env : ℕ → AttemptEnv} (remaining : ℕ) :
    ∀ attempt qos, Yields (c.attemptsFrom env t registry remaining attempt qos)
      (WithEntry registry t) := by
  induction remaining with
  | zero =>
    intro attempt qos
    exact .bind fun _ => .throw _
  | succ remaining ih =>
    intro attempt qos
    rw [attemptsFrom]
    refine .bind fun _ => .bind fun _ => ?_
    extract_lets probeResult offers valid
    split
    · exact yields_relaxOrFail (ih (attempt + 1))
    · split
      · exact yields_relaxOrFail (ih (attempt + 1))
      · refine yields_acceptBest ?_
        intro o ho
        obtain ⟨e, he, hsrc⟩ := mem_validOffers ho
        exact ⟨e, (CapabilityRegistry.mem_findCapable.mp he).1, hsrc⟩

/-- Whatever the clock says, a contract is with an agent registered for the task type. -/
theorem negotiate_withEntry {env : ℕ → AttemptEnv} {o : HandshakeOutcome F}
    {c' : HandshakeCoordinator F} (h : c.negotiate env t qos registry = some (.ok o, c')) :
    WithEntry registry t o := by
  obtain ⟨⟨result, sm⟩, hrun, heq⟩ := Option.map_eq_some_iff.mp h
  obtain ⟨rfl, -⟩ := Prod.mk.inj heq
  exact yields_attemptsFrom c.maxAttempts 1 qos _ _ _ hrun

end WithEntry

end HandshakeCoordinator

end ATP
