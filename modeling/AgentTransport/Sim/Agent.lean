import AgentTransport.Types.External

/-! Simulated agents, the network they form, and the tasks they are given. An attempt of an agent at
    a task fails with the agent's failure rate; otherwise its quality and its latency are drawn from
    the distributions of the capability it has for the task. -/

namespace ATP
open F64
variable {F R : Type}

/-- What a simulation takes from outside the repository. `R` is the state of the random generator
    and of the clock. -/
structure SimExternal (F R : Type) extends External F where
  ln : F → F
  seedFromU64 : UInt64 → R
  /-- `rng.gen::<f64>()`. -/
  gen : R → F × R
  /-- `rng.gen_range(0..n)`. -/
  genRange : ℕ → R → ℕ × R
  genRange_lt : ∀ n r, 0 < n → (genRange n r).1 < n
  /-- `Normal::new` and `LogNormal::new`, with what a sample gives; `none` is an error. -/
  normal : F → F → Option (R → F × R)
  logNormal : F → F → Option (R → F × R)
  /-- `Instant::elapsed`. -/
  elapsed : R → Duration × R

/-- Draws taken from a list, one half when it is empty. A normal distribution gives its mean, which
    for latencies is that of one millisecond, and no time passes. -/
def SimExternal.sample (draws : List ℚ) : SimExternal ℚ (List ℚ) where
  toExternal := .sample
  ln _ := 0
  seedFromU64 _ := draws
  gen r := (r.headD (1 / 2), r.tail)
  genRange _ r := (0, r)
  genRange_lt _ _ h := h
  normal mean _ := some fun r => (mean, r)
  logNormal _ _ := some fun r => (1, r)
  elapsed r := (0, r)

/-- A capability with stochastic quality and latency distributions. -/
structure SimulatedCapability (F : Type) where
  taskType : TaskType
  qualityMean : F
  qualityStd : F
  latencyMeanMs : F
  latencyStdMs : F
  cost : F

/-- A simulated agent with configurable performance distributions. -/
structure SimulatedAgent (F : Type) where
  id : AgentId
  capabilities : List (SimulatedCapability F)
  failureRate : F

/-- Result of simulating a task execution. -/
structure SimulatedTaskResult (F : Type) where
  agentId : AgentId
  taskType : TaskType
  quality : F
  latency : Duration
  cost : F
  success : Bool

/-- A task for simulation. -/
structure SimTask (F : Type) where
  taskType : TaskType
  fullContextSize : UInt64
  qos : QoSConstraints F

/-- A simulated multi-agent network. -/
structure SimulatedNetwork (F : Type) where
  agents : List (SimulatedAgent F)

namespace SimulatedAgent

def hasCapability (a : SimulatedAgent F) (taskType : TaskType) : Bool :=
  a.capabilities.any fun c => c.taskType = taskType

def getCapability (a : SimulatedAgent F) (taskType : TaskType) : Option (SimulatedCapability F) :=
  a.capabilities.find? fun c => c.taskType = taskType

/-- What an agent without the capability performs like. -/
def defaultCap [F64 F] (taskType : TaskType) : SimulatedCapability F :=
  { taskType
    qualityMean := lit (1 / 2)
    qualityStd := lit (15 / 100)
    latencyMeanMs := lit 5000
    latencyStdMs := lit 1
    cost := lit (1 / 10) }

/-- Simulate executing a task; `none` is the panic of a distribution that cannot be built. -/
def executeTask [F64 F] (ext : SimExternal F R) (a : SimulatedAgent F) (taskType : TaskType)
    (rng : R) : Option (SimulatedTaskResult F × R) :=
  let (roll, rng) := ext.gen rng
  if roll < a.failureRate then
    some (⟨a.id, taskType, 0, Duration.millis 100, 0, false⟩, rng)
  else
    let cap := (a.getCapability taskType).getD (defaultCap taskType)
    (ext.normal cap.qualityMean cap.qualityStd).bind fun qualityDist =>
      let (sample, rng) := qualityDist rng
      let quality := clamp sample 0 1
      let lnMean := ext.ln cap.latencyMeanMs
      (ext.logNormal lnMean (F64.max cap.latencyStdMs (lit (1 / 100)))).map fun latencyDist =>
        let (sample, rng) := latencyDist rng
        let latencyMs := F64.max sample 1
        (⟨a.id, taskType, quality, Duration.millis (toU64 latencyMs).toNat, cap.cost, true⟩, rng)

end SimulatedAgent

/-- Find agents capable of handling a task type. -/
def SimulatedNetwork.capableAgents (n : SimulatedNetwork F) (taskType : TaskType) :
    List (SimulatedAgent F) :=
  n.agents.filter fun a => a.hasCapability taskType

variable [F64 F] {ext : SimExternal F R}

/-- The distributions of a capability can be built, and its cost is a number. -/
structure SimulatedCapability.WellFormed (ext : SimExternal F R) (c : SimulatedCapability F) :
    Prop where
  normal : (ext.normal c.qualityMean c.qualityStd).isSome
  logNormal :
    (ext.logNormal (ext.ln c.latencyMeanMs) (F64.max c.latencyStdMs (lit (1 / 100)))).isSome
  cost : IsNum c.cost

def SimulatedNetwork.WellFormed (ext : SimExternal F R) (n : SimulatedNetwork F) : Prop :=
  ∀ a ∈ n.agents, ∀ c ∈ a.capabilities, c.WellFormed ext

/-- An agent that can handle the task type, with well-formed parameters. -/
structure SimulatedAgent.Capable (ext : SimExternal F R) (taskType : TaskType)
    (a : SimulatedAgent F) : Prop where
  capability : ∃ c, a.getCapability taskType = some c
  wellFormed : ∀ c ∈ a.capabilities, c.WellFormed ext

namespace SimulatedAgent
variable {a : SimulatedAgent F} {taskType : TaskType}

theorem Capable.of_getCapability (h : a.Capable ext taskType) {c : SimulatedCapability F}
    (hc : a.getCapability taskType = some c) : c.WellFormed ext :=
  h.wellFormed c (List.mem_of_find?_eq_some hc)

/-- A capable agent attempts the task, under its own name. -/
theorem Capable.executeTask (h : a.Capable ext taskType) (rng : R) : ∃ result rng',
    a.executeTask ext taskType rng = some (result, rng') ∧
      result.agentId = a.id ∧ result.taskType = taskType := by
  obtain ⟨c, hc⟩ := h.capability
  obtain ⟨qualityDist, hquality⟩ := Option.isSome_iff_exists.mp (h.of_getCapability hc).normal
  obtain ⟨latencyDist, hlatency⟩ := Option.isSome_iff_exists.mp (h.of_getCapability hc).logNormal
  simp only [SimulatedAgent.executeTask, hc, Option.getD_some, hquality, Option.bind_some,
    hlatency, Option.map_some]
  split
  · exact ⟨_, _, rfl, rfl, rfl⟩
  · exact ⟨_, _, rfl, rfl, rfl⟩

end SimulatedAgent

/-- The agents found for a task type are capable, when the network is well formed. -/
theorem SimulatedNetwork.WellFormed.capable {n : SimulatedNetwork F} (h : n.WellFormed ext)
    {taskType : TaskType} {a : SimulatedAgent F} (ha : a ∈ n.capableAgents taskType) :
    a.Capable ext taskType := by
  obtain ⟨hmem, hhas⟩ := List.mem_filter.mp ha
  refine ⟨?_, h a hmem⟩
  obtain ⟨c, hc, htype⟩ := List.any_eq_true.mp hhas
  cases hfind : a.getCapability taskType with
  | some c => exact ⟨c, rfl⟩
  | none => exact absurd htype (List.find?_eq_none.mp hfind c hc)

end ATP
