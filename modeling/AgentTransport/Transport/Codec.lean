import AgentTransport.Lib.Codec
import AgentTransport.Transport.Crates
import AgentTransport.Transport.Proto
import AgentTransport.Types.Message

/-! Conversions between the messages and their protobuf form. A decoder that falls back on
    `Utc::now()`, and an encoder that stamps its message with it, take that reading as `now`. -/

namespace ATP
open Codec (okOr)
variable {F : Type}

/-- Errors that can occur during conversion. -/
inductive CodecError where
  | missingField (field : String)
  | invalidUuid (text : String)
  | invalidEnum (field : String) (value : Int32)
  deriving DecidableEq

namespace CodecError

/-- The text of an error, which `tonic::Status::invalid_argument` carries. -/
def display : CodecError → String
  | missingField field => "missing required field: " ++ field
  | invalidUuid text => "invalid UUID: " ++ text
  | invalidEnum field value => "invalid enum value: " ++ field ++ " = " ++ toString value

end CodecError

/-- `Duration::as_millis() as u64`. -/
def Duration.asMillisU64 (d : Duration) : UInt64 := UInt64.ofNat (d / 10 ^ 6)

/-- `Duration::from_millis`. -/
def Duration.fromMillis (ms : UInt64) : Duration := Duration.millis ms.toNat

/-! ### Identifiers and enumerations -/

section Ids
variable (c : Crates)

/-- `Uuid::parse_str`, with the error of the codec. -/
def parseUuid (text : String) : Except CodecError Uuid := okOr (c.parseStr text) (.invalidUuid text)

def agentIdToProto (id : AgentId) : Proto.AgentId := ⟨c.display id.uuid⟩

def protoToAgentId (pb : Proto.AgentId) : Except CodecError AgentId := do
  let uuid ← parseUuid c pb.uuid
  return ⟨uuid⟩

/-- An agent id that must be there. -/
def requireAgentId (opt : Option Proto.AgentId) (field : String) : Except CodecError AgentId := do
  protoToAgentId c (← okOr opt (.missingField field))

end Ids

def taskTypeToProto : TaskType → Proto.TaskType
  | .codeGeneration => .codeGeneration
  | .analysis => .analysis
  | .creativeWriting => .creativeWriting
  | .dataProcessing => .dataProcessing

def protoToTaskType (value : Int32) : Except CodecError TaskType :=
  match Proto.TaskType.tryFrom value with
  | some .codeGeneration => .ok .codeGeneration
  | some .analysis => .ok .analysis
  | some .creativeWriting => .ok .creativeWriting
  | some .dataProcessing => .ok .dataProcessing
  | some .unspecified | none => .error (.invalidEnum "task_type" value)

def taskTypeToI32 (t : TaskType) : Int32 := (taskTypeToProto t).toI32

def routingPatternToProto : RoutingPattern → Proto.RoutingPattern
  | .draftRefine => .draftRefine
  | .parallelMerge => .parallelMerge
  | .cascade => .cascade
  | .ensemble => .ensemble
  | .pipeline => .pipeline

def protoToRoutingPattern (value : Int32) : Except CodecError RoutingPattern :=
  match Proto.RoutingPattern.tryFrom value with
  | some .draftRefine => .ok .draftRefine
  | some .parallelMerge => .ok .parallelMerge
  | some .cascade => .ok .cascade
  | some .ensemble => .ok .ensemble
  | some .pipeline => .ok .pipeline
  | some .unspecified | none => .error (.invalidEnum "routing_pattern" value)

def routingPatternToI32 (p : RoutingPattern) : Int32 := (routingPatternToProto p).toI32

def circuitStateToProto : CircuitState → Proto.CircuitState
  | .closed => .closed
  | .open => .open
  | .halfOpen => .halfOpen

def protoToCircuitState (value : Int32) : Except CodecError CircuitState :=
  match Proto.CircuitState.tryFrom value with
  | some .closed => .ok .closed
  | some .open => .ok .open
  | some .halfOpen => .ok .halfOpen
  | some .unspecified | none => .error (.invalidEnum "circuit_state" value)

/-! ### Timestamps -/

section Timestamps
variable (c : Crates)

def datetimeToProto (dt : DateTime) : Proto.Timestamp where
  seconds := c.timestamp dt
  nanos := (c.timestampSubsecNanos dt).toInt32

/-- Negative nanoseconds count as zero; what chrono refuses becomes the reading of the clock. -/
def protoToDatetime (now : DateTime) (ts : Proto.Timestamp) : DateTime :=
  (c.fromTimestamp ts.seconds (max ts.nanos 0).toUInt32).getD now

/-- The timestamp of a message; a missing one becomes the reading of the clock. -/
def timestampOrNow (now : DateTime) (ts : Option Proto.Timestamp) : DateTime :=
  (ts.map (protoToDatetime c now)).getD now

def nowProto (now : DateTime) : Proto.Timestamp := datetimeToProto c now

end Timestamps

/-! ### Parts of messages -/

def qosToProto (qos : QoSConstraints F) : Proto.QoSConstraints F where
  minQuality := qos.minQuality
  maxLatencyMs := qos.maxLatency.asMillisU64
  maxCost := qos.maxCost
  minTrust := qos.minTrust

def protoToQos (pb : Proto.QoSConstraints F) : QoSConstraints F where
  minQuality := pb.minQuality
  maxLatency := Duration.fromMillis pb.maxLatencyMs
  maxCost := pb.maxCost
  minTrust := pb.minTrust

def capabilityToProto (cap : Capability F) : Proto.Capability F where
  taskType := taskTypeToI32 cap.taskType
  estimatedQuality := cap.estimatedQuality
  estimatedLatencyMs := cap.estimatedLatency.asMillisU64
  costPerTask := cap.costPerTask

def protoToCapability (pb : Proto.Capability F) : Except CodecError (Capability F) := do
  let taskType ← protoToTaskType pb.taskType
  return { taskType
           estimatedQuality := pb.estimatedQuality
           estimatedLatency := Duration.fromMillis pb.estimatedLatencyMs
           costPerTask := pb.costPerTask }

def embeddingToProto (emb : ContextEmbedding F) : Proto.Embedding F where
  dimensions := UInt32.ofNat emb.dimensions
  values := emb.values

def protoToEmbedding (pb : Proto.Embedding F) : ContextEmbedding F where
  dimensions := pb.dimensions.toNat
  values := pb.values

def contextChunkToProto (chunk : ContextChunk F) : Proto.ContextChunk F where
  index := chunk.index
  data := chunk.data
  relevanceScore := chunk.relevanceScore

def protoToContextChunk (pb : Proto.ContextChunk F) : ContextChunk F where
  index := pb.index
  data := pb.data
  relevanceScore := pb.relevanceScore

def contextDiffToProto (diff : ContextDiff F) : Proto.ContextDiff F where
  baseHash := diff.baseHash.toList
  chunks := diff.chunks.map contextChunkToProto
  confidence := diff.confidence
  originalSize := diff.originalSize
  compressedSize := diff.compressedSize

/-- The first 32 bytes, copied over an array of zeros. -/
def hash32 (bytes : List UInt8) : Vector UInt8 32 :=
  let len := min bytes.length 32
  ⟨(bytes.take len ++ List.replicate (32 - len) 0).toArray, by simp; omega⟩

def protoToContextDiff (pb : Proto.ContextDiff F) : ContextDiff F where
  baseHash := hash32 pb.baseHash
  chunks := pb.chunks.map protoToContextChunk
  confidence := pb.confidence
  originalSize := pb.originalSize
  compressedSize := pb.compressedSize

def routeMetricsToProto (rm : RouteMetrics F) : Proto.RouteMetrics F where
  quality := rm.quality
  latencyMs := rm.latency.asMillisU64
  cost := rm.cost

def protoToRouteMetrics (pb : Proto.RouteMetrics F) : RouteMetrics F where
  quality := pb.quality
  latency := Duration.fromMillis pb.latencyMs
  cost := pb.cost

/-! ### Messages -/

section Messages
variable (c : Crates) (now : DateTime)

def routeToProto (route : Route F) : Proto.Route F where
  routeId := c.display route.id
  pattern := routingPatternToI32 route.pattern
  agents := route.agents.map (agentIdToProto c)
  metrics := some (routeMetricsToProto route.metrics)
  computedAt := some (datetimeToProto c route.computedAt)
  ttlMs := route.ttl.asMillisU64

/-- The agents are decoded with the pattern, and a bad one is reported after the metrics. -/
def protoToRoute (pb : Proto.Route F) : Except CodecError (Route F) := do
  let id ← parseUuid c pb.routeId
  let pattern ← protoToRoutingPattern pb.pattern
  let metrics ← okOr pb.metrics (.missingField "metrics")
  let agents ← pb.agents.mapM (protoToAgentId c)
  return { id, pattern, agents
           metrics := protoToRouteMetrics metrics
           computedAt := timestampOrNow c now pb.computedAt
           ttl := Duration.fromMillis pb.ttlMs }

def probeToProto (msg : CapabilityProbeMsg F) : Proto.CapabilityProbe F where
  src := some (agentIdToProto c msg.src)
  taskType := taskTypeToI32 msg.taskType
  qos := some (qosToProto msg.qos)
  contextEmbedding := msg.contextEmbedding.map embeddingToProto
  nonce := msg.nonce
  timestamp := some (datetimeToProto c msg.timestamp)
  signature := msg.signature

def protoToProbe (pb : Proto.CapabilityProbe F) : Except CodecError (CapabilityProbeMsg F) := do
  let src ← requireAgentId c pb.src "from"
  let taskType ← protoToTaskType pb.taskType
  let qos ← okOr pb.qos (.missingField "qos")
  return { src, taskType
           qos := protoToQos qos
           contextEmbedding := pb.contextEmbedding.map protoToEmbedding
           nonce := pb.nonce
           timestamp := timestampOrNow c now pb.timestamp
           signature := pb.signature }

def offerToProto (msg : CapabilityOfferMsg F) : Proto.CapabilityOffer F where
  src := some (agentIdToProto c msg.src)
  inReplyTo := msg.inReplyTo
  capability := some (capabilityToProto msg.capability)
  trustScore := msg.trustScore
  trustProof := msg.trustProof
  ttlMs := msg.ttl.asMillisU64
  timestamp := some (datetimeToProto c msg.timestamp)
  signature := msg.signature

def protoToOffer (pb : Proto.CapabilityOffer F) : Except CodecError (CapabilityOfferMsg F) := do
  let src ← requireAgentId c pb.src "from"
  let capability ← protoToCapability (← okOr pb.capability (.missingField "capability"))
  return { src, capability
           inReplyTo := pb.inReplyTo
           trustScore := pb.trustScore
           trustProof := pb.trustProof
           ttl := Duration.fromMillis pb.ttlMs
           timestamp := timestampOrNow c now pb.timestamp
           signature := pb.signature }

def contractAcceptToProto (msg : ContractAcceptMsg F) : Proto.ContractAccept F where
  src := some (agentIdToProto c msg.src)
  dst := some (agentIdToProto c msg.dst)
  agreedQos := some (qosToProto msg.agreedQos)
  contextPlan := msg.contextPlan
  contractId := c.display msg.contractId
  expiresMs := (c.timestampMillis msg.expiresAt).toUInt64
  timestamp := some (datetimeToProto c msg.timestamp)
  signature := msg.signature

/-- `early` and `now` are the readings for the expiry and for the timestamp. -/
def protoToContractAccept (early : DateTime) (pb : Proto.ContractAccept F) :
    Except CodecError (ContractAcceptMsg F) := do
  let contractId ← parseUuid c pb.contractId
  let expiresAt := (c.fromTimestampMillis pb.expiresMs.toInt64).getD early
  let src ← requireAgentId c pb.src "from"
  let dst ← requireAgentId c pb.dst "to"
  let agreedQos ← okOr pb.agreedQos (.missingField "agreed_qos")
  return { src, dst, contractId, expiresAt
           agreedQos := protoToQos agreedQos
           contextPlan := pb.contextPlan
           timestamp := timestampOrNow c now pb.timestamp
           signature := pb.signature }

def contextRequestToProto (msg : ContextRequestMsg F) : Proto.ContextRequest F where
  src := some (agentIdToProto c msg.src)
  dst := some (agentIdToProto c msg.dst)
  taskId := c.display msg.taskId
  currentConfidence := msg.currentConfidence
  requestedChunkIndices := msg.requestedChunkIndices
  timestamp := some (nowProto c now)

def protoToContextRequest (pb : Proto.ContextRequest F) :
    Except CodecError (ContextRequestMsg F) := do
  let taskId ← parseUuid c pb.taskId
  let src ← requireAgentId c pb.src "from"
  let dst ← requireAgentId c pb.dst "to"
  return { src, dst, taskId
           currentConfidence := pb.currentConfidence
           requestedChunkIndices := pb.requestedChunkIndices }

def taskSubmitToProto (msg : TaskSubmitMsg F) : Proto.TaskSubmit F where
  src := some (agentIdToProto c msg.src)
  dst := some (agentIdToProto c msg.dst)
  taskId := c.display msg.taskId
  taskType := taskTypeToI32 msg.taskType
  payload := msg.payload
  context := some (contextDiffToProto msg.context)
  contractId := c.display msg.contractId
  timestamp := some (nowProto c now)

def protoToTaskSubmit (pb : Proto.TaskSubmit F) : Except CodecError (TaskSubmitMsg F) := do
  let taskId ← parseUuid c pb.taskId
  let contractId ← parseUuid c pb.contractId
  let context ← okOr pb.context (.missingField "context")
  let src ← requireAgentId c pb.src "from"
  let dst ← requireAgentId c pb.dst "to"
  let taskType ← protoToTaskType pb.taskType
  return { src, dst, taskId, taskType, contractId
           payload := pb.payload
           context := protoToContextDiff context }

def taskResultToProto (tr : TaskResult F) : Proto.TaskResult F where
  src := some (agentIdToProto c tr.src)
  taskId := c.display tr.taskId
  qualitySelfReport := tr.qualitySelfReport
  payload := tr.payload
  elapsedMs := tr.elapsed.asMillisU64
  actualCost := tr.actualCost
  timestamp := some (nowProto c now)

def protoToTaskResult (pb : Proto.TaskResult F) : Except CodecError (TaskResult F) := do
  let taskId ← parseUuid c pb.taskId
  let src ← requireAgentId c pb.src "from"
  return { taskId, src
           qualitySelfReport := pb.qualitySelfReport
           payload := pb.payload
           elapsed := Duration.fromMillis pb.elapsedMs
           actualCost := pb.actualCost }

def interactionProofToProto (msg : InteractionProofMsg F) : Proto.InteractionProof F where
  evaluator := some (agentIdToProto c msg.evaluator)
  subject := some (agentIdToProto c msg.subject)
  taskId := c.display msg.taskId
  taskType := taskTypeToI32 msg.taskType
  qualityScore := msg.qualityScore
  latencyMs := msg.latencyMs
  cost := msg.cost
  timestamp := some (datetimeToProto c msg.timestamp)
  signature := msg.signature

def protoToInteractionProof (pb : Proto.InteractionProof F) :
    Except CodecError (InteractionProofMsg F) := do
  let taskId ← parseUuid c pb.taskId
  let evaluator ← requireAgentId c pb.evaluator "evaluator"
  let subject ← requireAgentId c pb.subject "subject"
  let taskType ← protoToTaskType pb.taskType
  return { evaluator, subject, taskId, taskType
           qualityScore := pb.qualityScore
           latencyMs := pb.latencyMs
           cost := pb.cost
           timestamp := timestampOrNow c now pb.timestamp
           signature := pb.signature }

def heartbeatToProto (msg : HeartbeatMsg F) : Proto.Heartbeat F where
  src := some (agentIdToProto c msg.src)
  sequence := msg.sequence
  queueDepth := msg.queueDepth
  loadFactor := msg.loadFactor
  timestamp := some (nowProto c now)

def protoToHeartbeat (pb : Proto.Heartbeat F) : Except CodecError (HeartbeatMsg F) := do
  let src ← requireAgentId c pb.src "from"
  return { src
           sequence := pb.sequence
           queueDepth := pb.queueDepth
           loadFactor := pb.loadFactor }

def backpressureToProto (msg : BackpressureMsg F) : Proto.Backpressure F where
  src := some (agentIdToProto c msg.src)
  queueDepth := msg.queueDepth
  recommendedRate := msg.recommendedRate
  estimatedDrainMs := msg.estimatedDrainMs
  timestamp := some (nowProto c now)

def protoToBackpressure (pb : Proto.Backpressure F) : Except CodecError (BackpressureMsg F) := do
  let src ← requireAgentId c pb.src "from"
  return { src
           queueDepth := pb.queueDepth
           recommendedRate := pb.recommendedRate
           estimatedDrainMs := pb.estimatedDrainMs }

def circuitBreakToProto (msg : CircuitBreakMsg) : Proto.CircuitBreak where
  src := some (agentIdToProto c msg.src)
  target := some (agentIdToProto c msg.target)
  state := (circuitStateToProto msg.state).toI32
  failureCount := msg.failureCount
  timestamp := some (nowProto c now)

def protoToCircuitBreak (pb : Proto.CircuitBreak) : Except CodecError CircuitBreakMsg := do
  let src ← requireAgentId c pb.src "from"
  let target ← requireAgentId c pb.target "target"
  let state ← protoToCircuitState pb.state
  return { src, target, state
           failureCount := pb.failureCount }

end Messages

end ATP
