import AgentTransport.Types.Basic

/-! The ten message types of the protocol, with the payloads they carry. -/

namespace ATP

inductive CircuitState where | closed | open | halfOpen
  deriving DecidableEq

/-- Dense vector embedding for a task's semantic context. -/
structure ContextEmbedding (F : Type) where
  dimensions : ℕ
  values : List F

/-- A chunk of context with relevance score. -/
structure ContextChunk (F : Type) where
  index : UInt32
  data : List UInt8
  relevanceScore : F

/-- A differential context payload, not the full context. -/
structure ContextDiff (F : Type) where
  baseHash : Vector UInt8 32
  chunks : List (ContextChunk F)
  confidence : F
  originalSize : UInt64
  compressedSize : UInt64

structure CapabilityProbeMsg (F : Type) where
  src : AgentId
  taskType : TaskType
  qos : QoSConstraints F
  contextEmbedding : Option (ContextEmbedding F)
  nonce : UInt64
  timestamp : DateTime
  signature : List UInt8

structure CapabilityOfferMsg (F : Type) where
  src : AgentId
  inReplyTo : UInt64
  capability : Capability F
  trustScore : F
  trustProof : List UInt8
  ttl : Duration
  timestamp : DateTime
  signature : List UInt8

structure ContractAcceptMsg (F : Type) where
  src : AgentId
  dst : AgentId
  agreedQos : QoSConstraints F
  contextPlan : String
  contractId : Uuid
  expiresAt : DateTime
  timestamp : DateTime
  signature : List UInt8

structure ContextRequestMsg (F : Type) where
  src : AgentId
  dst : AgentId
  taskId : Uuid
  currentConfidence : F
  requestedChunkIndices : List UInt32

structure TaskSubmitMsg (F : Type) where
  src : AgentId
  dst : AgentId
  taskId : Uuid
  taskType : TaskType
  payload : List UInt8
  context : ContextDiff F
  contractId : Uuid

structure TaskResultMsg (F : Type) where
  src : AgentId
  taskId : Uuid
  qualitySelfReport : F
  payload : List UInt8
  elapsed : Duration
  actualCost : F

/-- Result of task execution. -/
structure TaskResult (F : Type) where
  taskId : Uuid
  src : AgentId
  qualitySelfReport : F
  payload : List UInt8
  elapsed : Duration
  actualCost : F

structure InteractionProofMsg (F : Type) where
  evaluator : AgentId
  subject : AgentId
  taskId : Uuid
  taskType : TaskType
  qualityScore : F
  latencyMs : UInt64
  cost : F
  timestamp : DateTime
  signature : List UInt8

structure HeartbeatMsg (F : Type) where
  src : AgentId
  sequence : UInt64
  queueDepth : UInt32
  loadFactor : F

structure BackpressureMsg (F : Type) where
  src : AgentId
  queueDepth : UInt32
  recommendedRate : F
  estimatedDrainMs : UInt64

structure CircuitBreakMsg where
  src : AgentId
  target : AgentId
  state : CircuitState
  failureCount : UInt32

/-- The 10 ATP message types. -/
inductive AtpMessage (F : Type) where
  | capabilityProbe (m : CapabilityProbeMsg F)
  | capabilityOffer (m : CapabilityOfferMsg F)
  | contractAccept (m : ContractAcceptMsg F)
  | contextRequest (m : ContextRequestMsg F)
  | taskSubmit (m : TaskSubmitMsg F)
  | taskResult (m : TaskResultMsg F)
  | interactionProof (m : InteractionProofMsg F)
  | heartbeat (m : HeartbeatMsg F)
  | backpressure (m : BackpressureMsg F)
  | circuitBreak (m : CircuitBreakMsg)

end ATP
