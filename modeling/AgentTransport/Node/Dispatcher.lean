import AgentTransport.Fault.Backpressure
import AgentTransport.Fault.Checkpoint
import AgentTransport.Fault.CircuitBreaker
import AgentTransport.Fault.Heartbeat
import AgentTransport.Fault.Poison
import AgentTransport.Handshake.Offer
import AgentTransport.Identity.Store

/-! The message dispatcher: each of the ten message types goes to its protocol layer, which may
    answer with a message. `clock 0` and `clock 1` are the first and the second time a handler
    reads. -/

namespace ATP
open F64
variable {F : Type} [F64 F]

/-- The layer components a message can reach. -/
structure Layers (F : Type) where
  identityStore : IdentityStore F
  capabilityRegistry : CapabilityRegistry F
  heartbeatMonitor : HeartbeatMonitor F
  circuitBreaker : CircuitBreaker
  checkpointStore : CheckpointStore
  poisonDetector : PoisonDetector
  loadTracker : AgentLoadTracker F

/-- What a message handler answers. -/
abbrev Answer (F : Type) := Except (AtpError F) (Option (AtpMessage F))

/-- Dispatches incoming messages to the correct protocol-layer handler. -/
structure MessageDispatcher where
  nodeId : AgentId

namespace MessageDispatcher

/-- Answer a probe with an offer if this node is among the matching agents. -/
def handleProbe (d : MessageDispatcher) (probe : CapabilityProbeMsg F)
    (registry : CapabilityRegistry F) (clock : ℕ → DateTime) : Answer F :=
  let result := processProbe probe registry
  match result.matchingEntries.find? (fun e => e.agentId = d.nodeId) with
  | some entry =>
    .ok (some (.capabilityOffer
      (createOffer d.nodeId probe entry.capability entry.trustScore (Duration.secs 5) (clock 0))))
  | none => .ok none

/-- Check circuit breaker and poison status before accepting the task. -/
def handleTaskSubmit (submit : TaskSubmitMsg F) (breaker : CircuitBreaker)
    (poison : PoisonDetector) (clock : ℕ → DateTime) : Answer F × CircuitBreaker :=
  let (allowed, breaker) := breaker.allowRequest submit.src (clock 0)
  match allowed with
  | .error e => (.error (.fault e), breaker)
  | .ok () =>
    if poison.isPoisoned submit.taskId then
      (.error (.fault (.poisonTask (Uuid.display submit.taskId))), breaker)
    else (.ok none, breaker)

/-- The proof of the interaction that a task result reports. -/
def resultProof (d : MessageDispatcher) (result : TaskResultMsg F) (now : DateTime) :
    InteractionProofMsg F where
  evaluator := d.nodeId
  subject := result.src
  taskId := result.taskId
  taskType := .codeGeneration
  qualityScore := result.qualitySelfReport
  latencyMs := UInt64.ofNat (result.elapsed / 10 ^ 6)
  cost := result.actualCost
  timestamp := now
  signature := []

/-- The interaction that a proof is about. -/
def proofRecord (proof : InteractionProofMsg F) : InteractionRecord F where
  evaluator := proof.evaluator
  subject := proof.subject
  taskType := proof.taskType
  qualityScore := proof.qualityScore
  latencyMs := proof.latencyMs
  cost := proof.cost
  timestamp := proof.timestamp
  signature := proof.signature

/-- Record success with the circuit breaker and the interaction with the identity store. -/
def handleTaskResult (d : MessageDispatcher) (result : TaskResultMsg F)
    (store : IdentityStore F) (breaker : CircuitBreaker) (clock : ℕ → DateTime) :
    Answer F × IdentityStore F × CircuitBreaker :=
  let breaker := breaker.recordSuccess result.src (clock 0)
  let proof := d.resultProof result (clock 1)
  (.ok (some (.interactionProof proof)), store.addInteraction (proofRecord proof), breaker)

/-- Update the heartbeat monitor and the load tracker; ask an overloaded agent's producers to slow
    down. -/
def handleHeartbeat (hb : HeartbeatMsg F) (monitor : HeartbeatMonitor F)
    (tracker : AgentLoadTracker F) (clock : ℕ → DateTime) :
    Answer F × HeartbeatMonitor F × AgentLoadTracker F :=
  let monitor := monitor.recordHeartbeat hb (clock 0)
  let tracker := tracker.updateFromHeartbeat hb (clock 1)
  let answer := if tracker.isOverloaded hb.src then
    some (.backpressure (tracker.buildMessage hb.src)) else none
  (.ok answer, monitor, tracker)

/-- A peer's OPEN or CLOSED circuit counts as a failure or a success of its target. -/
def handleCircuitBreak (cb : CircuitBreakMsg) (breaker : CircuitBreaker)
    (clock : ℕ → DateTime) : CircuitBreaker :=
  match cb.state with
  | .open => breaker.recordFailure cb.target (clock 0)
  | .closed => breaker.recordSuccess cb.target (clock 0)
  | .halfOpen => breaker

/-- Dispatch a single incoming message to the appropriate layer handler. -/
def dispatch (d : MessageDispatcher) (msg : AtpMessage F) (l : Layers F)
    (clock : ℕ → DateTime) : Answer F × Layers F :=
  match msg with
  | .capabilityProbe probe => (d.handleProbe probe l.capabilityRegistry clock, l)
  -- offers, contracts and context requests are acknowledged without a response
  | .capabilityOffer _ => (.ok none, l)
  | .contractAccept _ => (.ok none, l)
  | .contextRequest _ => (.ok none, l)
  | .taskSubmit submit =>
    let (answer, breaker) := handleTaskSubmit submit l.circuitBreaker l.poisonDetector clock
    (answer, { l with circuitBreaker := breaker })
  | .taskResult result =>
    let (answer, store, breaker) :=
      d.handleTaskResult result l.identityStore l.circuitBreaker clock
    (answer, { l with identityStore := store, circuitBreaker := breaker })
  | .interactionProof proof =>
    (.ok none, { l with identityStore := l.identityStore.addInteraction (proofRecord proof) })
  | .heartbeat hb =>
    let (answer, monitor, tracker) := handleHeartbeat hb l.heartbeatMonitor l.loadTracker clock
    (answer, { l with heartbeatMonitor := monitor, loadTracker := tracker })
  | .backpressure bp =>
    (.ok none, { l with loadTracker := l.loadTracker.updateFromBackpressure bp (clock 0) })
  | .circuitBreak cb =>
    (.ok none, { l with circuitBreaker := handleCircuitBreak cb l.circuitBreaker clock })

end MessageDispatcher

end ATP
