import AgentTransport.Lib.Exact
import AgentTransport.Lib.Collections

/-! Core types of the protocol: identifiers, task types, capabilities, QoS constraints, routes,
    configuration and errors. Amounts the source keeps in an `f64` have the type parameter `F`. -/

namespace ATP
open F64

abbrev Uuid := BitVec 128

/-- The hyphenated text of a UUID: 8, 4, 4, 4 and 12 hexadecimal digits. -/
def Uuid.display (u : Uuid) : String :=
  let digits := (List.range 32).map fun i => Nat.digitChar (u.toNat / 16 ^ (31 - i) % 16)
  let group (start len : ℕ) := String.ofList ((digits.drop start).take len)
  "-".intercalate [group 0 8, group 8 4, group 12 4, group 16 4, group 20 12]

/-- Unique agent identifier wrapping a UUID. -/
structure AgentId where
  uuid : Uuid
  deriving DecidableEq

def AgentId.display (a : AgentId) : String := Uuid.display a.uuid

/-- `std::time::Duration`, in nanoseconds. -/
abbrev Duration := ℕ

/-- `chrono::DateTime<Utc>`, in nanoseconds since the epoch. -/
abbrev DateTime := ℤ

/-- The earliest and the latest `chrono::DateTime<Utc>`. -/
def DateTime.minUtc : DateTime := -8334601228800 * 10 ^ 9

def DateTime.maxUtc : DateTime := 8210266876800 * 10 ^ 9 - 1

def Duration.millis (n : ℕ) : Duration := n * 10 ^ 6

def Duration.secs (n : ℕ) : Duration := n * 10 ^ 9

/-- The largest `chrono::Duration`: `i64::MAX` milliseconds. -/
def chronoMax : Duration := (2 ^ 63 - 1) * 10 ^ 6

/-- `chrono::Duration::from_std`; `none` when out of range. -/
def chronoFromStd (d : Duration) : Option ℤ := if d ≤ chronoMax then some d else none

theorem chronoFromStd_of_le {d : Duration} (h : d ≤ chronoMax) :
    chronoFromStd d = some (d : ℤ) := if_pos h

theorem chronoFromStd_of_lt {d : Duration} (h : chronoMax < d) : chronoFromStd d = none :=
  if_neg (not_le.mpr h)

/-- The four benchmark task categories. -/
inductive TaskType where | codeGeneration | analysis | creativeWriting | dataProcessing
  deriving DecidableEq

/-- `TaskType::complexity_weight`. -/
def TaskType.complexityWeight {F : Type} [F64 F] : TaskType → F
  | .codeGeneration => lit (3 / 2)
  | .analysis => lit (6 / 5)
  | .creativeWriting => lit 1
  | .dataProcessing => lit (4 / 5)

def TaskType.all : List TaskType := [.codeGeneration, .analysis, .creativeWriting, .dataProcessing]

theorem TaskType.mem_all : ∀ t, t ∈ TaskType.all
  | .codeGeneration | .analysis | .creativeWriting | .dataProcessing => by decide

theorem TaskType.nodup_all : TaskType.all.Nodup := by decide

def TaskType.display : TaskType → String
  | .codeGeneration => "code_generation"
  | .analysis => "analysis"
  | .creativeWriting => "creative_writing"
  | .dataProcessing => "data_processing"

/-- A capability an agent advertises. -/
structure Capability (F : Type) where
  taskType : TaskType
  estimatedQuality : F
  estimatedLatency : Duration
  costPerTask : F
  deriving DecidableEq

/-- Quality-of-Service constraints from a task requester. -/
structure QoSConstraints (F : Type) where
  minQuality : F
  maxLatency : Duration
  maxCost : F
  minTrust : F

/-- `QoSConstraints::relax`; `none` is the panic of `Duration::from_secs_f64`. -/
def QoSConstraints.relax {F : Type} [F64 F] (q : QoSConstraints F) (factor : F) :
    Option (QoSConstraints F) :=
  (fromSecs (asSecs q.maxLatency * (1 + factor))).map fun latency =>
    { minQuality := F64.max (q.minQuality * (1 - factor)) 0
      maxLatency := latency
      maxCost := q.maxCost * (1 + factor)
      minTrust := F64.max (q.minTrust * (1 - factor)) 0 }

/-- `q'` is at most as strict as `q` in all four fields. -/
structure QoSConstraints.AtMostAsStrict {F : Type} [F64 F] (q' q : QoSConstraints F) : Prop where
  quality : q'.minQuality ≤ q.minQuality
  latency : q.maxLatency ≤ q'.maxLatency
  cost : q.maxCost ≤ q'.maxCost
  trust : q'.minTrust ≤ q.minTrust

/-- A routing pattern for task execution. -/
inductive RoutingPattern where | draftRefine | parallelMerge | cascade | ensemble | pipeline
  deriving DecidableEq

/-- Metrics for a computed route. -/
structure RouteMetrics (F : Type) where
  quality : F
  latency : Duration
  cost : F
  deriving DecidableEq

/-- A computed route through the agent network. -/
structure Route (F : Type) where
  id : Uuid
  pattern : RoutingPattern
  agents : List AgentId
  metrics : RouteMetrics F
  computedAt : DateTime
  ttl : Duration
  deriving DecidableEq

/-- What a route takes from its surroundings: a fresh UUID and the clock. -/
structure Stamp where
  id : Uuid
  now : DateTime

structure HandshakeConfig (F : Type) where
  probeTimeout : Duration
  relaxationFactor : F
  maxRetries : UInt32

structure ContextConfig (F : Type) where
  relevanceThreshold : F
  confidenceThreshold : F
  embeddingDimensions : ℕ

structure RoutingConfig where
  recomputeInterval : Duration
  routeTtl : Duration
  maxRoutes : ℕ

structure FaultConfig where
  heartbeatInterval : Duration
  heartbeatTimeoutMultiplier : UInt32
  circuitBreakerThreshold : UInt32
  poisonDetectionWindow : Duration
  poisonAgentThreshold : UInt32
  backpressureThreshold : UInt32

/-- `HandshakeConfig::default`. -/
def HandshakeConfig.default {F : Type} [F64 F] : HandshakeConfig F :=
  ⟨Duration.millis 500, lit (1 / 10), 3⟩

/-- `ContextConfig::default`. -/
def ContextConfig.default {F : Type} [F64 F] : ContextConfig F := ⟨lit (3 / 10), lit (7 / 10), 768⟩

/-- `RoutingConfig::default`. -/
def RoutingConfig.default : RoutingConfig := ⟨Duration.secs 60, Duration.secs 120, 10⟩

/-- `FaultConfig::default`. -/
def FaultConfig.default : FaultConfig :=
  ⟨Duration.secs 1, 3, 3, Duration.secs 60, 3, 100⟩

inductive RoutingError where | noFeasibleRoute | negativeCycle | routeExpired | emptyGraph
  deriving DecidableEq

inductive HandshakeError where
  | timeout (d : Duration)
  | noCapableAgents (taskType : String)
  | negotiationFailed (reason : String)
  | invalidTransition (src dst : String)
  | offerExpired
  deriving DecidableEq

inductive ContextError (F : Type) where
  | dimensionMismatch (expected got : ℕ)
  | lowConfidence (confidence : F)
  | extractionFailed (reason : String)

inductive FaultError where
  | heartbeatTimeout (agent : String)
  | circuitOpen (agent : String)
  | poisonTask (task : String)
  | checkpointFailed (reason : String)
  deriving DecidableEq

inductive AtpError (F : Type) where
  | handshake (e : HandshakeError)
  | context (e : ContextError F)
  | routing (e : RoutingError)
  | fault (e : FaultError)

end ATP
