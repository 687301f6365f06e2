import AgentTransport.Types.Message

/-! Queue-depth signalling: the load of every known agent, and the message that asks upstream
    producers to slow down. -/

namespace ATP
open F64 Collections
variable {F : Type} [F64 F]

/-- Per-agent load snapshot. -/
structure AgentLoad (F : Type) where
  queueDepth : UInt32
  processingRate : F
  lastUpdated : DateTime

def AgentLoad.new (now : DateTime) : AgentLoad F := ⟨0, 1, now⟩

/-- A new queue depth and, when reported, a new rate in an exponential moving average. -/
def AgentLoad.report (now : DateTime) (queueDepth : UInt32) (processingRate : Option F)
    (load : AgentLoad F) : AgentLoad F where
  queueDepth := queueDepth
  processingRate := match processingRate with
    | some rate => lit (7 / 10) * load.processingRate + lit (3 / 10) * rate
    | none => load.processingRate
  lastUpdated := now

/-- Tracks queue depth and processing rate for every known agent. -/
structure AgentLoadTracker (F : Type) where
  config : FaultConfig
  agents : HashMap AgentId (AgentLoad F)

/-- A signal emitted when an agent's queue depth exceeds the threshold. -/
structure BackpressureSignal (F : Type) where
  agentId : AgentId
  queueDepth : UInt32
  recommendedRate : F
  estimatedDrainTime : Duration
  timestamp : DateTime

namespace AgentLoadTracker

def new (config : FaultConfig) : AgentLoadTracker F := ⟨config, ∅⟩

/-- Update the load information for an agent. -/
def update (tr : AgentLoadTracker F) (agent : AgentId) (queueDepth : UInt32)
    (processingRate : Option F) (now : DateTime) : AgentLoadTracker F :=
  { tr with agents := tr.agents.upsert agent (.new now) (·.report now queueDepth processingRate) }

/-- The load factor stands in for a processing rate. -/
def updateFromHeartbeat (tr : AgentLoadTracker F) (msg : HeartbeatMsg F) (now : DateTime) :
    AgentLoadTracker F :=
  let rate := lit 10 * F64.max (1 - msg.loadFactor) (lit (1 / 100))
  tr.update msg.src msg.queueDepth (some rate) now

/-- The recommended rate stands in for a processing rate. -/
def updateFromBackpressure (tr : AgentLoadTracker F) (msg : BackpressureMsg F) (now : DateTime) :
    AgentLoadTracker F :=
  tr.update msg.src msg.queueDepth (some msg.recommendedRate) now

/-- Query the current queue depth for an agent. -/
def queueDepth (tr : AgentLoadTracker F) (agent : AgentId) : Option UInt32 :=
  (tr.agents.lookup agent).map (·.queueDepth)

/-- Is the agent's queue above the threshold? -/
def isOverloaded (tr : AgentLoadTracker F) (agent : AgentId) : Bool :=
  match tr.queueDepth agent with
  | some depth => decide (depth > tr.config.backpressureThreshold)
  | none => false

/-- Generate a backpressure signal for an agent above the threshold. The outer `none` is the panic
    of `Duration::from_secs_f64`; `none` seconds are `f64::INFINITY`, and count as one hour. -/
def signal (tr : AgentLoadTracker F) (agent : AgentId) (now : DateTime) :
    Option (Option (BackpressureSignal F)) :=
  match tr.agents.lookup agent with
  | none => some none
  | some load =>
    if load.queueDepth ≤ tr.config.backpressureThreshold then some none
    else
      let recommendedRate := F64.max (load.processingRate * lit (8 / 10)) (lit (1 / 10))
      let drainSecs :=
        if 0 < load.processingRate then some (lit load.queueDepth.toNat / load.processingRate)
        else none
      let estimatedDrainTime := match drainSecs with
        | some secs => if isFinite secs then fromSecs secs else some (Duration.secs 3600)
        | none => some (Duration.secs 3600)
      estimatedDrainTime.map fun drain =>
        some ⟨agent, load.queueDepth, recommendedRate, drain, now⟩

/-- The signal of one overloaded agent; `none` is a panic. -/
def overloadSignal (agent : AgentId) (load : AgentLoad F) (now : DateTime) :
    Option (BackpressureSignal F) :=
  let recommendedRate := F64.max (load.processingRate * lit (8 / 10)) (lit (1 / 10))
  let drainSecs :=
    if 0 < load.processingRate then lit load.queueDepth.toNat / load.processingRate else lit 3600
  (fromSecs drainSecs).map fun drain => ⟨agent, load.queueDepth, recommendedRate, drain, now⟩

/-- All agents above the threshold, with their signals. The clock is read for each of them. -/
def overloadedAgents (tr : AgentLoadTracker F) (hs : RandomState AgentId)
    (clock : AgentId → DateTime) : Option (List (BackpressureSignal F)) :=
  let entries := (hs.order tr.agents.keys).filterMap fun id =>
    (tr.agents.lookup id).map fun load => (id, load)
  (entries.filter fun (_, load) => load.queueDepth > tr.config.backpressureThreshold).mapM
    fun (id, load) => overloadSignal id load (clock id)

/-- Build a BACKPRESSURE message for an agent. -/
def buildMessage (tr : AgentLoadTracker F) (agent : AgentId) : BackpressureMsg F :=
  match tr.agents.lookup agent with
  | some load =>
    { src := agent
      queueDepth := load.queueDepth
      recommendedRate := F64.max (load.processingRate * lit (8 / 10)) (lit (1 / 10))
      estimatedDrainMs :=
        if 0 < load.processingRate then
          toU64 (lit load.queueDepth.toNat / load.processingRate * lit 1000)
        else 3600000 }
  | none => ⟨agent, 0, 1, 0⟩

end AgentLoadTracker

end ATP
