import AgentTransport.Context.Extraction
import AgentTransport.Handshake.Negotiation
import AgentTransport.Node.Dispatcher
import AgentTransport.Routing.Router

/-! The composition root: one node with its five protocol layers, the registration of agents
    across them, and the execution of a task:

        poison check ─▶ handshake ─▶ circuit breaker ─▶ context compression
          ─▶ checkpoint, result, success, checkpoint removed ─▶ interaction record ─▶ trust update

    The route that a task asks for is only logged, and so is the compressed context. -/

namespace ATP
open F64 Collections
variable {F : Type} [F64 F]

/-- Top-level configuration. -/
structure AtpConfig (F : Type) where
  handshake : HandshakeConfig F
  context : ContextConfig F
  routing : RoutingConfig
  fault : FaultConfig

def AtpConfig.default : AtpConfig F := ⟨.default, .default, .default, .default⟩

/-- The full agent node. -/
structure AtpNode (F : Type) extends Layers F where
  agentId : AgentId
  config : AtpConfig F
  contextCompressor : ContextCompressor F
  economicRouter : EconomicRouter F
  dispatcher : MessageDispatcher

/-- What the execution of a task takes from its surroundings, in the order it is read. -/
structure TaskEnv where
  taskId : Uuid
  negotiation : ℕ → AttemptEnv
  requestedAt : DateTime
  checkpointAt : DateTime
  elapsed : Duration
  succeededAt : DateTime
  recordedAt : DateTime
  trustAt : DateTime

namespace AtpNode

/-- Create a new node with the layers of the given configuration. -/
def new (agentId : AgentId) (config : AtpConfig F) : AtpNode F where
  identityStore := .new
  capabilityRegistry := .new
  heartbeatMonitor := .new config.fault
  circuitBreaker := .new config.fault
    (config.fault.heartbeatInterval * config.fault.heartbeatTimeoutMultiplier.toNat * 10)
  checkpointStore := .new
  poisonDetector := .new config.fault
  loadTracker := .new config.fault
  agentId := agentId
  config := config
  contextCompressor :=
    ⟨⟨config.context.relevanceThreshold, 10, 512, config.context.embeddingDimensions⟩⟩
  economicRouter := ⟨.new, .default, config.routing⟩
  dispatcher := ⟨agentId⟩

/-- Register a capability for this node in the local registry. -/
def registerCapability (node : AtpNode F) (cap : Capability F) (trust : F) : AtpNode F :=
  { node with capabilityRegistry := node.capabilityRegistry.register node.agentId cap trust }

/-- Register capabilities one after the other under one trust score. -/
def registerAll (registry : CapabilityRegistry F) (id : AgentId) (caps : List (Capability F))
    (trust : F) : CapabilityRegistry F :=
  caps.foldl (fun r cap => r.register id cap trust) registry

/-- Connect an agent to all others of a list. -/
def connectAll (router : EconomicRouter F) (id : AgentId) (others : List AgentId) :
    EconomicRouter F :=
  others.foldl (fun r other =>
    if other ≠ id then r.connect id other (Duration.millis 5) else r) router

/-- Register an agent in the identity store, the handshake registry and the routing graph. -/
def registerAgent (lib : External F) (hs : RandomState AgentId) (node : AtpNode F)
    (identity : AgentIdentity F) (now : DateTime) : AtpNode F :=
  let store := node.identityStore.register identity
  let trust := store.aggregateTrust lib identity.id now
  let router := (node.economicRouter.addAgent identity.id identity.capabilities trust).2
  { node with
    identityStore := store
    capabilityRegistry :=
      registerAll node.capabilityRegistry identity.id identity.capabilities trust
    economicRouter := connectAll router identity.id (store.listAgents hs) }

/-- The coordinator that a task creates, run on the registry. -/
def negotiate (node : AtpNode F) (env : TaskEnv) (t : TaskType) (qos : QoSConstraints F) :
    Option (Except HandshakeError (HandshakeOutcome F)) :=
  ((HandshakeCoordinator.new node.agentId node.config.handshake).negotiate env.negotiation t qos
    node.capabilityRegistry).map Prod.fst

/-- Context compression; an empty payload has an empty diff. -/
def compressPayload (lib : External F) (node : AtpNode F) (t : TaskType) (payload : List UInt8) :
    Option (Except (ContextError F) (ContextDiff F)) :=
  if payload.isEmpty then some (.ok ⟨Vector.replicate 32 0, [], 1, 0, 0⟩)
  else node.contextCompressor.compressForTask lib payload t payload

/-- The result simulated from the contracted agent's advertised capability. -/
def simulateResult (node : AtpNode F) (env : TaskEnv) (agent : AgentId) (t : TaskType)
    (payload : List UInt8) : TaskResultMsg F :=
  let (quality, cost) := match node.capabilityRegistry.getCapability agent t with
    | some entry => (entry.capability.estimatedQuality, entry.capability.costPerTask)
    | none => (lit (8 / 10), lit (5 / 10))
  { src := agent
    taskId := env.taskId
    qualitySelfReport := quality
    payload := payload
    elapsed := env.elapsed
    actualCost := cost }

/-- The interaction record of a result. -/
def resultRecord (node : AtpNode F) (env : TaskEnv) (t : TaskType) (result : TaskResultMsg F) :
    InteractionRecord F where
  evaluator := node.agentId
  subject := result.src
  taskType := t
  qualityScore := result.qualitySelfReport
  latencyMs := UInt64.ofNat (result.elapsed / 10 ^ 6)
  cost := result.actualCost
  timestamp := env.recordedAt
  signature := []

/-- The steps of a task after the last check: checkpoint, result, success, record and trust. -/
def completeTask (lib : External F) (node : AtpNode F) (env : TaskEnv) (agent : AgentId)
    (t : TaskType) (payload : List UInt8) : TaskResultMsg F × AtpNode F :=
  let (_, saved) := node.checkpointStore.createCheckpoint env.taskId payload node.agentId 1
    env.checkpointAt
  let result := node.simulateResult env agent t payload
  let store := node.identityStore.addInteraction (node.resultRecord env t result)
  let newTrust := store.aggregateTrust lib agent env.trustAt
  (result,
    { node with
      circuitBreaker := node.circuitBreaker.recordSuccess agent env.succeededAt
      checkpointStore := (saved.remove env.taskId).2
      identityStore := store
      capabilityRegistry := node.capabilityRegistry.updateTrust agent t newTrust })

/-- Execute a task through the full protocol; `none` is a panic. -/
def executeTask (lib : External F) (node : AtpNode F) (env : TaskEnv) (t : TaskType)
    (payload : List UInt8) (qos : QoSConstraints F) :
    Option (Except (AtpError F) (TaskResultMsg F) × AtpNode F) := do
  if node.poisonDetector.isPoisoned env.taskId then
    return (.error (.fault (.poisonTask (Uuid.display env.taskId))), node)
  match ← node.negotiate env t qos with
  | .error e => return (.error (.handshake e), node)
  | .ok outcome =>
    let agent := outcome.contract.dst
    let (allowed, breaker) := node.circuitBreaker.allowRequest agent env.requestedAt
    let node := { node with circuitBreaker := breaker }
    match allowed with
    | .error e => return (.error (.fault e), node)
    | .ok () =>
      match ← node.compressPayload lib t payload with
      | .error e => return (.error (.context e), node)
      | .ok _ =>
        let (result, node) := node.completeTask lib env agent t payload
        return (.ok result, node)

/-- Process an incoming message through the dispatcher. -/
def handleMessage (node : AtpNode F) (msg : AtpMessage F) (clock : ℕ → DateTime) :
    Answer F × AtpNode F :=
  let (answer, layers) := node.dispatcher.dispatch msg node.toLayers clock
  (answer, { node with toLayers := layers })

/-- Record a task failure for an agent with the circuit breaker and the poison detector. -/
def recordTaskFailure (node : AtpNode F) (taskId : Uuid) (agent : AgentId)
    (clock : ℕ → DateTime) : PoisonStatus × AtpNode F :=
  let breaker := node.circuitBreaker.recordFailure agent (clock 0)
  let (status, poison) := node.poisonDetector.recordFailure taskId agent (clock 1)
  (status, { node with circuitBreaker := breaker, poisonDetector := poison })

end AtpNode

/-! ### Calls as events of one machine -/

/-- A call of the node, with what it takes from its surroundings. -/
inductive NodeEvent (F : Type) where
  | registerCapability (cap : Capability F) (trust : F)
  | registerAgent (identity : AgentIdentity F) (hs : RandomState AgentId) (now : DateTime)
  | executeTask (env : TaskEnv) (t : TaskType) (payload : List UInt8) (qos : QoSConstraints F)
  | handleMessage (msg : AtpMessage F) (clock : ℕ → DateTime)
  | recordTaskFailure (taskId : Uuid) (agent : AgentId) (clock : ℕ → DateTime)

/-- How a call ends. -/
inductive Reply (F : Type) where
  | accepted
  | rejected (e : AtpError F)
  | panicked

instance (r : Reply F) : Decidable (r = .accepted) :=
  match r with
  | .accepted => isTrue rfl
  | .rejected _ => isFalse (fun h => by cases h)
  | .panicked => isFalse (fun h => by cases h)

namespace AtpNode

/-- Perform a call. What a panic leaves behind is not modelled. -/
def step (lib : External F) (node : AtpNode F) : NodeEvent F → Reply F × AtpNode F
  | .registerCapability cap trust => (.accepted, node.registerCapability cap trust)
  | .registerAgent identity hs now => (.accepted, node.registerAgent lib hs identity now)
  | .executeTask env t payload qos =>
    match node.executeTask lib env t payload qos with
    | some (.ok _, node) => (.accepted, node)
    | some (.error e, node) => (.rejected e, node)
    | none => (.panicked, node)
  | .handleMessage msg clock =>
    match node.handleMessage msg clock with
    | (.ok _, node) => (.accepted, node)
    | (.error e, node) => (.rejected e, node)
  | .recordTaskFailure taskId agent clock =>
    (.accepted, (node.recordTaskFailure taskId agent clock).2)

/-! ### What a task does -/

/-- The ways a task ends: at one of its checks, or completed. -/
inductive TaskEnd (lib : External F) (node : AtpNode F) (env : TaskEnv) (t : TaskType)
    (payload : List UInt8) (qos : QoSConstraints F) :
    Except (AtpError F) (TaskResultMsg F) → AtpNode F → Prop
  | poisoned (h : node.poisonDetector.isPoisoned env.taskId = true) :
    TaskEnd lib node env t payload qos
      (.error (.fault (.poisonTask (Uuid.display env.taskId)))) node
  | noContract {e : HandshakeError} (hp : ¬ node.poisonDetector.isPoisoned env.taskId = true)
    (h : node.negotiate env t qos = some (.error e)) :
    TaskEnd lib node env t payload qos (.error (.handshake e)) node
  | refused {outcome : HandshakeOutcome F} {e : FaultError} {breaker : CircuitBreaker}
    (hp : ¬ node.poisonDetector.isPoisoned env.taskId = true)
    (hn : node.negotiate env t qos = some (.ok outcome))
    (ha : node.circuitBreaker.allowRequest outcome.contract.dst env.requestedAt =
      (.error e, breaker)) :
    TaskEnd lib node env t payload qos (.error (.fault e))
      { node with circuitBreaker := breaker }
  | noContext {outcome : HandshakeOutcome F} {e : ContextError F} {breaker : CircuitBreaker}
    (hp : ¬ node.poisonDetector.isPoisoned env.taskId = true)
    (hn : node.negotiate env t qos = some (.ok outcome))
    (ha : node.circuitBreaker.allowRequest outcome.contract.dst env.requestedAt =
      (.ok (), breaker))
    (hc : node.compressPayload lib t payload = some (.error e)) :
    TaskEnd lib node env t payload qos (.error (.context e))
      { node with circuitBreaker := breaker }
  | completed {outcome : HandshakeOutcome F} {breaker : CircuitBreaker}
    (hp : ¬ node.poisonDetector.isPoisoned env.taskId = true)
    (hn : node.negotiate env t qos = some (.ok outcome))
    (ha : node.circuitBreaker.allowRequest outcome.contract.dst env.requestedAt =
      (.ok (), breaker)) :
    TaskEnd lib node env t payload qos
      (.ok (({ node with circuitBreaker := breaker } : AtpNode F).completeTask lib env
        outcome.contract.dst t payload).1)
      (({ node with circuitBreaker := breaker } : AtpNode F).completeTask lib env
        outcome.contract.dst t payload).2

theorem executeTask_cases {lib : External F} {node node' : AtpNode F} {env : TaskEnv}
    {t : TaskType} {payload : List UInt8} {qos : QoSConstraints F}
    {r : Except (AtpError F) (TaskResultMsg F)}
    (h : node.executeTask lib env t payload qos = some (r, node')) :
    TaskEnd lib node env t payload qos r node' := by
  unfold executeTask at h
  -- the checks in the order of the source: poison, negotiation, circuit, context
  by_cases hp : node.poisonDetector.isPoisoned env.taskId = true
  · rw [if_pos hp] at h
    obtain ⟨rfl, rfl⟩ := Prod.mk.inj (Option.some.inj h)
    exact .poisoned hp
  · rw [if_neg hp] at h
    cases hn : node.negotiate env t qos with
    | none => rw [hn] at h; cases h
    | some r₁ =>
      rw [hn] at h
      cases r₁ with
      | error e =>
        obtain ⟨rfl, rfl⟩ := Prod.mk.inj (Option.some.inj h)
        exact .noContract hp hn
      | ok outcome =>
        cases ha : node.circuitBreaker.allowRequest outcome.contract.dst env.requestedAt with
        | mk allowed breaker =>
          simp only [Option.bind_eq_bind, Option.bind_some, ha] at h
          cases allowed with
          | error e =>
            obtain ⟨rfl, rfl⟩ := Prod.mk.inj (Option.some.inj h)
            exact .refused hp hn ha
          | ok u =>
            -- compressing does not read the breaker
            have hctx : ({ node with circuitBreaker := breaker } : AtpNode F).compressPayload lib
              t payload = node.compressPayload lib t payload := rfl
            simp only [hctx] at h
            cases hc : node.compressPayload lib t payload with
            | none => rw [hc] at h; cases h
            | some r₂ =>
              rw [hc] at h
              cases r₂ with
              | error e =>
                obtain ⟨rfl, rfl⟩ := Prod.mk.inj (Option.some.inj h)
                exact .noContext hp hn ha hc
              | ok diff =>
                obtain ⟨rfl, rfl⟩ := Prod.mk.inj (Option.some.inj h)
                exact .completed hp hn ha

end AtpNode

end ATP
