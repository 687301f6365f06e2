import AgentTransport.Types.Basic

/-! The protobuf side of the wire: the structures generated from the `.proto` files. An embedded
    message is optional, a repeated field a list, an `enum` field the `i32` it was sent as. -/

namespace ATP.Proto

structure AgentId where
  uuid : String
  deriving DecidableEq

structure Timestamp where
  seconds : Int64
  nanos : Int32
  deriving DecidableEq

/-! ### Enumerations -/

inductive TaskType where
  | unspecified | codeGeneration | analysis | creativeWriting | dataProcessing
  deriving DecidableEq

namespace TaskType

/-- `as i32`. -/
def toI32 : TaskType → Int32
  | .unspecified => 0
  | .codeGeneration => 1
  | .analysis => 2
  | .creativeWriting => 3
  | .dataProcessing => 4

def tryFrom (value : Int32) : Option TaskType :=
  if value = 0 then some .unspecified
  else if value = 1 then some .codeGeneration
  else if value = 2 then some .analysis
  else if value = 3 then some .creativeWriting
  else if value = 4 then some .dataProcessing
  else none

end TaskType

inductive RoutingPattern where
  | unspecified | draftRefine | parallelMerge | cascade | ensemble | pipeline
  deriving DecidableEq

namespace RoutingPattern

def toI32 : RoutingPattern → Int32
  | .unspecified => 0
  | .draftRefine => 1
  | .parallelMerge => 2
  | .cascade => 3
  | .ensemble => 4
  | .pipeline => 5

def tryFrom (value : Int32) : Option RoutingPattern :=
  if value = 0 then some .unspecified
  else if value = 1 then some .draftRefine
  else if value = 2 then some .parallelMerge
  else if value = 3 then some .cascade
  else if value = 4 then some .ensemble
  else if value = 5 then some .pipeline
  else none

end RoutingPattern

inductive CircuitState where | unspecified | closed | open | halfOpen
  deriving DecidableEq

namespace CircuitState

def toI32 : CircuitState → Int32
  | .unspecified => 0
  | .closed => 1
  | .open => 2
  | .halfOpen => 3

def tryFrom (value : Int32) : Option CircuitState :=
  if value = 0 then some .unspecified
  else if value = 1 then some .closed
  else if value = 2 then some .open
  else if value = 3 then some .halfOpen
  else none

end CircuitState

/-- Each number is read back as the one enumerator that has it. -/
theorem TaskType.tryFrom_eq_some {value : Int32} {t : TaskType} :
    tryFrom value = some t ↔ value = t.toI32 := by
  refine ⟨fun h => ?_, ?_⟩
  · unfold tryFrom at h
    split_ifs at h with h₀ h₁ h₂ h₃ h₄ <;> cases h <;> assumption
  · rintro rfl
    cases t <;> rfl

theorem RoutingPattern.tryFrom_eq_some {value : Int32} {p : RoutingPattern} :
    tryFrom value = some p ↔ value = p.toI32 := by
  refine ⟨fun h => ?_, ?_⟩
  · unfold tryFrom at h
    split_ifs at h with h₀ h₁ h₂ h₃ h₄ h₅ <;> cases h <;> assumption
  · rintro rfl
    cases p <;> rfl

theorem CircuitState.tryFrom_eq_some {value : Int32} {s : CircuitState} :
    tryFrom value = some s ↔ value = s.toI32 := by
  refine ⟨fun h => ?_, ?_⟩
  · unfold tryFrom at h
    split_ifs at h with h₀ h₁ h₂ h₃ <;> cases h <;> assumption
  · rintro rfl
    cases s <;> rfl

/-! ### Parts of messages -/

structure QoSConstraints (F : Type) where
  minQuality : F
  maxLatencyMs : UInt64
  maxCost : F
  minTrust : F

structure Embedding (F : Type) where
  dimensions : UInt32
  values : List F

structure Capability (F : Type) where
  taskType : Int32
  estimatedQuality : F
  estimatedLatencyMs : UInt64
  costPerTask : F

structure ContextChunk (F : Type) where
  index : UInt32
  data : List UInt8
  relevanceScore : F

structure ContextDiff (F : Type) where
  baseHash : List UInt8
  chunks : List (ContextChunk F)
  confidence : F
  originalSize : UInt64
  compressedSize : UInt64

structure RouteMetrics (F : Type) where
  quality : F
  latencyMs : UInt64
  cost : F

/-! ### Messages -/

structure Route (F : Type) where
  routeId : String
  pattern : Int32
  agents : List AgentId
  metrics : Option (RouteMetrics F)
  computedAt : Option Timestamp
  ttlMs : UInt64

structure CapabilityProbe (F : Type) where
  src : Option AgentId
  taskType : Int32
  qos : Option (QoSConstraints F)
  contextEmbedding : Option (Embedding F)
  nonce : UInt64
  timestamp : Option Timestamp
  signature : List UInt8

structure CapabilityOffer (F : Type) where
  src : Option AgentId
  inReplyTo : UInt64
  capability : Option (Capability F)
  trustScore : F
  trustProof : List UInt8
  ttlMs : UInt64
  timestamp : Option Timestamp
  signature : List UInt8

structure ContractAccept (F : Type) where
  src : Option AgentId
  dst : Option AgentId
  agreedQos : Option (QoSConstraints F)
  contextPlan : String
  contractId : String
  expiresMs : UInt64
  timestamp : Option Timestamp
  signature : List UInt8

structure ContextRequest (F : Type) where
  src : Option AgentId
  dst : Option AgentId
  taskId : String
  currentConfidence : F
  requestedChunkIndices : List UInt32
  timestamp : Option Timestamp

structure TaskSubmit (F : Type) where
  src : Option AgentId
  dst : Option AgentId
  taskId : String
  taskType : Int32
  payload : List UInt8
  context : Option (ContextDiff F)
  contractId : String
  timestamp : Option Timestamp

structure TaskResult (F : Type) where
  src : Option AgentId
  taskId : String
  qualitySelfReport : F
  payload : List UInt8
  elapsedMs : UInt64
  actualCost : F
  timestamp : Option Timestamp

structure InteractionProof (F : Type) where
  evaluator : Option AgentId
  subject : Option AgentId
  taskId : String
  taskType : Int32
  qualityScore : F
  latencyMs : UInt64
  cost : F
  timestamp : Option Timestamp
  signature : List UInt8

structure Heartbeat (F : Type) where
  src : Option AgentId
  sequence : UInt64
  queueDepth : UInt32
  loadFactor : F
  timestamp : Option Timestamp

structure Backpressure (F : Type) where
  src : Option AgentId
  queueDepth : UInt32
  recommendedRate : F
  estimatedDrainMs : UInt64
  timestamp : Option Timestamp

structure CircuitBreak where
  src : Option AgentId
  target : Option AgentId
  state : Int32
  failureCount : UInt32
  timestamp : Option Timestamp

end ATP.Proto
