import AgentTransport.Lib.Collections
import AgentTransport.Sim.Agent

/-! The benchmark harness: the tasks of a scenario, one after the other, over one simulated network.

        selected agent ──▶ success: completed
              │
              └─▶ failure ─▶ retry with each other capable agent ─▶ completed at the first success
                                                                 ─▶ failed if there is none

    A complex task may first be drafted by the cheapest agent and refined by the selected one; a
    draft whose refinement fails is kept. A panic of the source is `none`. -/

namespace ATP
open F64 Collections
variable {F R : Type}

/-- Benchmark metrics collected during simulation. -/
structure BenchMetrics (F : Type) where
  scenario : String
  totalTasks : ℕ
  tasksCompleted : ℕ
  tasksFailed : ℕ
  totalCost : F
  avgCostPerTask : F
  avgLatencyMs : F
  p50LatencyMs : F
  p95LatencyMs : F
  p99LatencyMs : F
  avgQuality : F
  /-- `none` is `f64::INFINITY`. -/
  faultRecoveryMs : Option F
  contextEfficiency : F
  routingTimeUs : F

/-- Scenario strategy for how tasks are routed. -/
inductive Scenario where
  | sequential | roundRobin | fullAtp | atpNoContext | atpNoRouting | atpNoTrust | atpNoFault
  deriving DecidableEq

namespace Scenario

def display : Scenario → String
  | .sequential => "Sequential"
  | .roundRobin => "Round-Robin"
  | .fullAtp => "ATP (full)"
  | .atpNoContext => "ATP w/o SCD"
  | .atpNoRouting => "ATP w/o routing"
  | .atpNoTrust => "ATP w/o trust"
  | .atpNoFault => "ATP w/o fault"

def usesScd : Scenario → Bool
  | .fullAtp | .atpNoRouting | .atpNoTrust | .atpNoFault => true
  | .sequential | .roundRobin | .atpNoContext => false

/-- The scenarios in which complex tasks are treated as such. -/
def seesComplexity : Scenario → Bool
  | .fullAtp | .atpNoContext | .atpNoFault => true
  | .sequential | .roundRobin | .atpNoRouting | .atpNoTrust => false

/-- The scenarios in which a failed task is retried. -/
def recovers : Scenario → Bool
  | .fullAtp | .atpNoContext | .atpNoRouting | .atpNoTrust => true
  | .sequential | .roundRobin | .atpNoFault => false

end Scenario

def isComplexTask (taskType : TaskType) : Bool :=
  taskType = .codeGeneration ∨ taskType = .analysis

/-- Trust observed so far: the qualities of each agent for each task type. -/
abbrev TrustScores (F : Type) := HashMap (AgentId × TaskType) (List F)

/-- The accumulators of a run. -/
structure RunState (F R : Type) where
  rng : R
  latencies : List Duration
  qualities : List F
  totalCost : F
  completed : ℕ
  failed : ℕ
  contextSentTotal : UInt64
  contextFullTotal : UInt64
  routingTimeTotal : Duration
  /-- `none` is `f64::INFINITY`. -/
  faultRecoveryTimes : List (Option F)
  trustScores : TrustScores F
  rrCounters : HashMap TaskType ℕ
  /-- Every attempt made, in order. The source drops them when their task ends. -/
  attempts : List (SimulatedTaskResult F)

variable [F64 F]

/-- `d.as_millis() as f64`. -/
def asMillis (d : Duration) : F := lit ((d / 10 ^ 6 : ℕ) : ℚ)

/-- `x.ceil() as u64`, of an `x` that is not negative. -/
def ceilU64 (x : F) : UInt64 :=
  let n := toU64 x
  if lit n.toNat < x then n + 1 else n

/-- `a.partial_cmp(&b)`. -/
def partialCmp (a b : F) : Option Ordering :=
  if a ≤ b then some (if b ≤ a then .eq else .lt) else if b ≤ a then some .gt else none

/-- The lesser of two elements by `partial_cmp(..).unwrap()`, the first of equal ones. -/
def lesserBy {α : Type} (key : α → F) (a b : α) : Option α :=
  (partialCmp (key a) (key b)).map fun o => if o = .gt then b else a

/-- `min_by(|a, b| key(a).partial_cmp(&key(b)).unwrap()).unwrap()`. -/
def minBy {α : Type} (key : α → F) : List α → Option α
  | [] => none
  | a :: as => as.foldlM (lesserBy key) a

def contextCostFraction : F := lit (55 / 100)

/-- The effective cost of a task given SCD compression. -/
def effectiveCost (baseCost : F) (usesScd : Bool) : F :=
  if usesScd then
    let compressionRatio := lit 28
    let savings := contextCostFraction * (1 - 1 / compressionRatio)
    baseCost * (1 - savings)
  else baseCost

def computeTransferLatency (contextSize : UInt64) : Duration :=
  if contextSize > 10000 then
    Duration.millis (toU64 (lit contextSize.toNat / lit 10000 * lit 50 : F)).toNat
  else Duration.millis 10

namespace RunState

def start (rng : R) : RunState F R :=
  { rng
    latencies := []
    qualities := []
    totalCost := 0
    completed := 0
    failed := 0
    contextSentTotal := 0
    contextFullTotal := 0
    routingTimeTotal := 0
    faultRecoveryTimes := []
    trustScores := ∅
    rrCounters := ∅
    attempts := [] }

/-- One call of `execute_task`. -/
def execute (ext : SimExternal F R) (agent : SimulatedAgent F) (task : SimTask F)
    (s : RunState F R) : Option (SimulatedTaskResult F × RunState F R) :=
  (agent.executeTask ext task.taskType s.rng).map fun (result, rng) =>
    (result, { s with rng := rng, attempts := s.attempts ++ [result] })

def addRoutingTime (ext : SimExternal F R) (s : RunState F R) : RunState F R :=
  let (elapsed, rng) := ext.elapsed s.rng
  { s with rng := rng, routingTimeTotal := s.routingTimeTotal + elapsed }

def addRecoveryTime (ext : SimExternal F R) (s : RunState F R) : RunState F R :=
  let (elapsed, rng) := ext.elapsed s.rng
  { s with rng := rng, faultRecoveryTimes := s.faultRecoveryTimes ++ [some (asMillis elapsed)] }

/-- Send the context of a task, compressed or not; its size as sent. -/
def sendContext (scenario : Scenario) (task : SimTask F) (s : RunState F R) :
    UInt64 × RunState F R :=
  let sent := if scenario.usesScd then ceilU64 (lit task.fullContextSize.toNat / lit 28 : F)
    else task.fullContextSize
  (sent, { s with
    contextSentTotal := s.contextSentTotal + sent
    contextFullTotal := s.contextFullTotal + task.fullContextSize })

def complete (s : RunState F R) (latency : Duration) (quality cost : F) : RunState F R :=
  { s with
    latencies := s.latencies ++ [latency]
    qualities := s.qualities ++ [quality]
    totalCost := s.totalCost + cost
    completed := s.completed + 1 }

def fail (s : RunState F R) : RunState F R := { s with failed := s.failed + 1 }

/-- A task that fails without recovery. -/
def failUnrecovered (s : RunState F R) : RunState F R :=
  { s.fail with faultRecoveryTimes := s.faultRecoveryTimes ++ [none] }

def recordTrust (s : RunState F R) (agentId : AgentId) (taskType : TaskType) (quality : F) :
    RunState F R :=
  { s with trustScores := s.trustScores.upsert (agentId, taskType) [] fun l => l ++ [quality] }

end RunState

section Selection
variable (ext : SimExternal F R) (capable : List (SimulatedAgent F)) (task : SimTask F)

/-- The first of the agents with the lowest cost for the task; one without a cost comes last. -/
def cheapestAgent : Option (SimulatedAgent F) :=
  minBy (fun a => ((a.getCapability task.taskType).map (·.cost)).getD (lit (2 ^ 1024 - 2 ^ 971)))
    capable

def findDraftAgent : Option (SimulatedAgent F) := cheapestAgent capable task

def selectCheapestAgent : Option (SimulatedAgent F) := cheapestAgent capable task

/-- Blend historical trust with the capability prior. -/
def effectiveQuality (trustScores : TrustScores F) (agent : SimulatedAgent F)
    (cap : SimulatedCapability F) : F :=
  match trustScores.lookup (agent.id, task.taskType) with
  | none => cap.qualityMean
  | some scores =>
    let n : F := lit scores.length
    let avg := F64.sum scores / n
    let confidence := 1 - ext.exp (-n / lit 10)
    cap.qualityMean * (1 - confidence) + avg * confidence

/-- The score of an agent: quality against cost and latency. -/
def agentScore (trustScores : TrustScores F) (isComplex : Bool) (agent : SimulatedAgent F)
    (cap : SimulatedCapability F) : F :=
  let quality := effectiveQuality ext task trustScores agent cap
  let costEff := quality / F64.max cap.cost (lit (1 / 1000))
  let latencyPenalty := cap.latencyMeanMs / asMillis task.qos.maxLatency
  if isComplex then
    quality * quality * lit 5 + costEff * lit (1 / 10) - latencyPenalty * lit (3 / 10)
  else quality * quality * quality * lit 8 + costEff * lit (3 / 10) - latencyPenalty * lit (3 / 10)

/-- `score > best`, where no best yet is `f64::NEG_INFINITY`. -/
def beats (score : F) : Option F → Bool
  | none => ltInfinity (-score)
  | some best => best < score

def qualityFloor (isComplex : Bool) : F := if isComplex then lit (85 / 100) else lit (82 / 100)

/-- The agents above the quality floor. -/
def qualifying (isComplex : Bool) : List (SimulatedAgent F) :=
  capable.filter fun a => ((a.getCapability task.taskType).map fun c =>
    decide (qualityFloor isComplex ≤ c.qualityMean)).getD false

/-- The qualifying agents, or all when there are none. -/
def candidates (isComplex : Bool) : List (SimulatedAgent F) :=
  if (qualifying capable task isComplex).isEmpty then capable else qualifying capable task isComplex

/-- Take an agent when it beats the best so far. -/
def improveBest (trustScores : TrustScores F) (isComplex : Bool)
    (best : Option F × SimulatedAgent F) (agent : SimulatedAgent F) :
    Option (Option F × SimulatedAgent F) :=
  (agent.getCapability task.taskType).map fun cap =>
    let score := agentScore ext task trustScores isComplex agent cap
    if beats score best.1 then (some score, agent) else best

/-- Select best agent using economic routing (trust-weighted, quality-aware). -/
def selectBestAgent (trustScores : TrustScores F) (isComplex : Bool) :
    Option (SimulatedAgent F) :=
  match candidates capable task isComplex with
  | [] => none
  | first :: rest =>
    ((first :: rest).foldlM (improveBest ext task trustScores isComplex) (none, first)).map (·.2)

/-- The agent that a scenario selects for a task. -/
def selectAgent (scenario : Scenario) (isComplex : Bool) (s : RunState F R) :
    Option (SimulatedAgent F × RunState F R) :=
  match scenario with
  | .sequential => capable[0]?.map fun agent => (agent, s)
  | .roundRobin =>
    let counter := (s.rrCounters.lookup task.taskType).getD 0
    capable[counter % capable.length]?.map fun agent =>
      (agent, { s with rrCounters := s.rrCounters.insert task.taskType (counter + 1) })
  | .fullAtp | .atpNoContext | .atpNoFault =>
    (selectBestAgent ext capable task s.trustScores isComplex).map fun agent => (agent, s)
  | .atpNoRouting =>
    let (i, rng) := ext.genRange capable.length s.rng
    capable[i]?.map fun agent => (agent, { s with rng := rng })
  | .atpNoTrust => (selectCheapestAgent capable task).map fun agent => (agent, s)

/-- Draft-Refine: only for complex tasks when the selected agent is specialist or premium. -/
def useDraftRefine (isComplex : Bool) (selected : SimulatedAgent F) : Option Bool :=
  if isComplex then
    (selected.getCapability task.taskType).map fun cap => decide (lit (85 / 100) ≤ cap.qualityMean)
  else some false

end Selection

section Execution
variable (ext : SimExternal F R) (scenario : Scenario) (task : SimTask F) (contextSize : UInt64)

/-- Retry with each agent but the failed one, up to the first success. -/
def retryBackups (failedAgent : SimulatedAgent F) (original : SimulatedTaskResult F) :
    List (SimulatedAgent F) → RunState F R → Option (RunState F R)
  | [], s => some s.fail
  | backup :: backups, s =>
    if backup.id ≠ failedAgent.id then do
      let (retry, s) ← s.execute ext backup task
      let s := s.addRecoveryTime ext
      if retry.success then
        let latency := original.latency + retry.latency + Duration.millis 500 +
          computeTransferLatency (F := F) contextSize
        let cost := effectiveCost retry.cost scenario.usesScd
        some ((s.complete latency retry.quality cost).recordTrust backup.id task.taskType
          retry.quality)
      else retryBackups failedAgent original backups s
    else retryBackups failedAgent original backups s

def handleFaultRecovery (capable : List (SimulatedAgent F)) (failedAgent : SimulatedAgent F)
    (original : SimulatedTaskResult F) (s : RunState F R) : Option (RunState F R) :=
  if scenario.recovers then
    retryBackups ext scenario task contextSize failedAgent original capable s
  else some s.failUnrecovered

/-- One agent on its own, with recovery when it fails. -/
def runDirect (capable : List (SimulatedAgent F)) (agent : SimulatedAgent F) (s : RunState F R) :
    Option (RunState F R) := do
  let (result, s) ← s.execute ext agent task
  if result.success then
    let latency := result.latency + computeTransferLatency (F := F) contextSize
    let cost := effectiveCost result.cost scenario.usesScd
    some ((s.complete latency result.quality cost).recordTrust result.agentId task.taskType
      result.quality)
  else handleFaultRecovery ext scenario task contextSize capable agent result s

/-- A draft by the cheapest agent, refined by the selected one. -/
def runDraftRefine (capable : List (SimulatedAgent F)) (refineAgent : SimulatedAgent F)
    (s : RunState F R) : Option (RunState F R) := do
  let draftAgent ← findDraftAgent capable task
  let (draft, s) ← s.execute ext draftAgent task
  if draft.success then
    let (refine, s) ← s.execute ext refineAgent task
    let transferLatency := computeTransferLatency (F := F) contextSize
    let draftCost := effectiveCost draft.cost scenario.usesScd
    if refine.success then
      let combinedLatency := draft.latency + refine.latency + transferLatency
      let combinedQuality :=
        F64.min (refine.quality * lit (85 / 100) + draft.quality * lit (15 / 100)) 1
      let combinedCost := draftCost + effectiveCost refine.cost scenario.usesScd
      some (((s.complete combinedLatency combinedQuality combinedCost).recordTrust
        draft.agentId task.taskType draft.quality).recordTrust
        refine.agentId task.taskType refine.quality)
    else
      -- the draft is what the task ends with
      some ((s.complete (draft.latency + transferLatency) draft.quality draftCost).recordTrust
        draft.agentId task.taskType draft.quality)
  else runDirect ext scenario task contextSize capable refineAgent s

end Execution

/-- Test harness that runs simulated benchmarks. -/
structure SimHarness (F : Type) where
  network : SimulatedNetwork F
  seed : UInt64

/-- `percentile`, of sorted durations. -/
def percentile (sorted : List Duration) (p : F) : F :=
  let idx := Nat.min (toU64 (lit sorted.length * p)).toNat (sorted.length - 1)
  (sorted[idx]?.map asMillis).getD 0

/-- The average fault recovery time, over the finite ones. -/
def avgFaultRecovery (times : List (Option F)) : Option F :=
  if times.isEmpty then some 0
  else
    let finite := times.filterMap id
    if finite.isEmpty then none else some (F64.sum finite / lit finite.length)

namespace SimHarness
variable (ext : SimExternal F R) (h : SimHarness F) (scenario : Scenario)

/-- One task of a scenario. -/
def runTask (s : RunState F R) (task : SimTask F) : Option (RunState F R) :=
  let capable := h.network.capableAgents task.taskType
  if capable.isEmpty then some s.fail
  else do
    let isComplex := scenario.seesComplexity && isComplexTask task.taskType
    let (selected, s) ← selectAgent ext capable task scenario isComplex s
    let s := s.addRoutingTime ext
    let drafts ← useDraftRefine task isComplex selected
    let (contextSize, s) := s.sendContext scenario task
    if drafts then runDraftRefine ext scenario task contextSize capable selected s
    else runDirect ext scenario task contextSize capable selected s

def runTasks (tasks : List (SimTask F)) : Option (RunState F R) :=
  tasks.foldlM (h.runTask ext scenario) (.start (ext.seedFromU64 h.seed))

/-- The metrics at the end of a run. -/
def metrics (tasks : List (SimTask F)) (s : RunState F R) : BenchMetrics F :=
  let latencies := s.latencies.insertionSort (· ≤ ·)
  { scenario := scenario.display
    totalTasks := tasks.length
    tasksCompleted := s.completed
    tasksFailed := s.failed
    totalCost := s.totalCost
    avgCostPerTask := if 0 < s.completed then s.totalCost / lit s.completed else 0
    avgLatencyMs :=
      if latencies.isEmpty then 0 else F64.sum (latencies.map asMillis) / lit latencies.length
    p50LatencyMs := percentile latencies (lit (50 / 100))
    p95LatencyMs := percentile latencies (lit (95 / 100))
    p99LatencyMs := percentile latencies (lit (99 / 100))
    avgQuality := if s.qualities.isEmpty then 0 else F64.sum s.qualities / lit s.qualities.length
    faultRecoveryMs := avgFaultRecovery s.faultRecoveryTimes
    contextEfficiency :=
      if s.contextFullTotal = 0 then 1
      else lit s.contextSentTotal.toNat / lit s.contextFullTotal.toNat
    routingTimeUs := lit ((s.routingTimeTotal / 10 ^ 3 : ℕ) : ℚ) / lit tasks.length }

/-- Run a scenario and collect metrics. -/
def runScenario (tasks : List (SimTask F)) : Option (BenchMetrics F) :=
  (h.runTasks ext scenario tasks).map (metrics scenario tasks)

end SimHarness

end ATP
