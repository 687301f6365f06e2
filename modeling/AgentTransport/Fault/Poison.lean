import AgentTransport.Types.Basic
import AgentTransport.Lib.SlidingWindow

/-! Poison task detection: a task that enough distinct agents have failed within a sliding window is
    never tried again. -/

namespace ATP
open Collections

/-- Whether a task is healthy, under observation, or confirmed poisoned. -/
inductive PoisonStatus where | healthy | suspected | poisoned
  deriving DecidableEq

/-- A single failure record. -/
structure FailureRecord where
  agentId : AgentId
  timestamp : DateTime
  deriving DecidableEq

/-- Poison task tracker. -/
structure PoisonDetector where
  config : FaultConfig
  failures : HashMap Uuid (List FailureRecord)
  poisoned : Finset Uuid

namespace PoisonDetector

def new (config : FaultConfig) : PoisonDetector := ⟨config, ∅, ∅⟩

/-- The detection window, 60 s when out of range. -/
def window (config : FaultConfig) : ℤ :=
  (chronoFromStd config.poisonDetectionWindow).getD (Duration.secs 60 : ℕ)

/-- The number of distinct agents of some records. -/
def distinctAgents (records : List FailureRecord) : ℕ := (records.map (·.agentId)).dedup.length

/-- Record a task failure by a specific agent: prune the records outside the window and evaluate
    the poison condition. -/
def recordFailure (d : PoisonDetector) (taskId : Uuid) (agentId : AgentId) (now : DateTime) :
    PoisonStatus × PoisonDetector :=
  if taskId ∈ d.poisoned then (.poisoned, d)
  else
    let cutoff := now - window d.config
    let all : List FailureRecord := (d.failures.lookup taskId).getD [] ++ [⟨agentId, now⟩]
    let records := all.filter (fun r => r.timestamp ≥ cutoff)
    let d := { d with failures := d.failures.insert taskId records }
    let n := UInt32.ofNat (distinctAgents records)
    if n ≥ d.config.poisonAgentThreshold then
      (.poisoned, { d with poisoned := insert taskId d.poisoned })
    else if n ≥ 2 then (.suspected, d)
    else (.healthy, d)

/-- Whether a task is poisoned. -/
def isPoisoned (d : PoisonDetector) (taskId : Uuid) : Bool := decide (taskId ∈ d.poisoned)

/-- `now - window`; `none` is the panic of a subtraction that leaves the range of `DateTime`. -/
def cutoff (config : FaultConfig) (now : DateTime) : Option DateTime :=
  if DateTime.minUtc ≤ now - window config then some (now - window config) else none

/-- Check the poison status of a task without recording anything; `none` when it panics. -/
def status (d : PoisonDetector) (taskId : Uuid) (now : DateTime) : Option PoisonStatus :=
  if taskId ∈ d.poisoned then some .poisoned
  else match d.failures.lookup taskId with
    | none => some .healthy
    | some records => (cutoff d.config now).map fun cutoff =>
      let distinct := distinctAgents (records.filter (fun r => r.timestamp ≥ cutoff))
      if UInt32.ofNat distinct ≥ d.config.poisonAgentThreshold then .poisoned
      else if distinct ≥ 2 then .suspected
      else .healthy

/-- Should the system retry this task? -/
def allowRetry (d : PoisonDetector) (taskId : Uuid) : Except FaultError Unit :=
  if d.isPoisoned taskId then .error (.poisonTask (Uuid.display taskId)) else .ok ()

/-- Manually mark a task as poisoned. -/
def forcePoison (d : PoisonDetector) (taskId : Uuid) : PoisonDetector :=
  { d with poisoned := insert taskId d.poisoned }

/-- Clear poison status for a task. -/
def clear (d : PoisonDetector) (taskId : Uuid) : PoisonDetector :=
  { d with poisoned := d.poisoned.erase taskId, failures := d.failures.erase taskId }

/-! ### Calls -/

inductive Op where
  | recordFailure (agentId : AgentId)
  | forcePoison
  | clear
  | status
  | isPoisoned
  | allowRetry
  deriving DecidableEq

/-- A call for a task, and the time it reads. -/
structure Call where
  op : Op
  taskId : Uuid
  now : DateTime
  deriving DecidableEq

/-- What a call that returns leaves behind. -/
def apply (d : PoisonDetector) (c : Call) : PoisonDetector :=
  match c.op with
  | .recordFailure agentId => (d.recordFailure c.taskId agentId c.now).2
  | .forcePoison => d.forcePoison c.taskId
  | .clear => d.clear c.taskId
  | .status | .isPoisoned | .allowRetry => d

/-- The call does not panic. -/
def returns (d : PoisonDetector) (c : Call) : Bool :=
  match c.op with
  | .recordFailure _ => decide (c.taskId ∈ d.poisoned) || (cutoff d.config c.now).isSome
  | .status => (d.status c.taskId c.now).isSome
  | _ => true

/-- The calls one after the other; `none` when one of them panics. -/
def runCalls (d : PoisonDetector) : List Call → Option PoisonDetector
  | [] => some d
  | c :: cs => if d.returns c then (d.apply c).runCalls cs else none

/-- The calls one after the other, none of them panicking. -/
def applyAll (d : PoisonDetector) (cs : List Call) : PoisonDetector := cs.foldl apply d

@[simp] theorem apply_config (d : PoisonDetector) (c : Call) : (d.apply c).config = d.config := by
  obtain ⟨op, t, now⟩ := c
  cases op with
  | recordFailure a => simp only [apply, recordFailure]; split_ifs <;> rfl
  | _ => rfl

@[simp] theorem applyAll_config (cs : List Call) : ∀ d : PoisonDetector,
    (d.applyAll cs).config = d.config := by
  induction cs with
  | nil => exact fun _ => rfl
  | cons c cs ih => exact fun d => (ih _).trans (apply_config d c)

/-! ### What the detector keeps about one task -/

structure Entry where
  records : Option (List FailureRecord)
  poisoned : Bool
  deriving DecidableEq

def entry (d : PoisonDetector) (taskId : Uuid) : Entry :=
  ⟨d.failures.lookup taskId, decide (taskId ∈ d.poisoned)⟩

/-- The records after one more failure. -/
def Entry.pruned (e : Entry) (config : FaultConfig) (agentId : AgentId) (now : DateTime) :
    List FailureRecord :=
  (e.records.getD [] ++ [FailureRecord.mk agentId now]).filter
    (fun r => r.timestamp ≥ now - window config)

/-- The records reach the threshold. -/
def reaches (config : FaultConfig) (records : List FailureRecord) : Bool :=
  decide (UInt32.ofNat (distinctAgents records) ≥ config.poisonAgentThreshold)

/-- What a call does to the entry of its task. -/
def Call.onEntry (config : FaultConfig) (e : Entry) (c : Call) : Entry :=
  match c.op with
  | .recordFailure a =>
    if e.poisoned then e
    else ⟨some (e.pruned config a c.now), reaches config (e.pruned config a c.now)⟩
  | .forcePoison => ⟨e.records, true⟩
  | .clear => ⟨none, false⟩
  | _ => e

/-- A failure of a task that is not poisoned. -/
theorem recordFailure_eq {d : PoisonDetector} {t : Uuid} (h : t ∉ d.poisoned) (a : AgentId)
    (now : DateTime) : (d.recordFailure t a now).2 =
      { d with
        failures := d.failures.insert t ((d.entry t).pruned d.config a now)
        poisoned := if reaches d.config ((d.entry t).pruned d.config a now) then
          insert t d.poisoned else d.poisoned } := by
  unfold recordFailure
  rw [if_neg h]
  by_cases hn : reaches d.config ((d.entry t).pruned d.config a now) = true
  · rw [if_pos hn]
    exact congrArg Prod.snd (if_pos (of_decide_eq_true hn))
  · rw [if_neg hn]
    refine (congrArg Prod.snd (if_neg (of_decide_eq_false (eq_false_of_ne_true hn)))).trans ?_
    split_ifs <;> rfl

theorem entry_recordFailure (d : PoisonDetector) (t : Uuid) (a : AgentId) (now : DateTime) :
    (d.recordFailure t a now).2.entry t =
      if (d.entry t).poisoned then d.entry t
      else ⟨some ((d.entry t).pruned d.config a now),
        reaches d.config ((d.entry t).pruned d.config a now)⟩ := by
  by_cases hp : t ∈ d.poisoned
  · simp [recordFailure, entry, hp]
  · have hpe : (d.entry t).poisoned = false := decide_eq_false hp
    rw [recordFailure_eq hp, hpe]
    generalize (d.entry t).pruned d.config a now = records
    cases hn : reaches d.config records <;> simp [entry, hp]

theorem entry_recordFailure_ne {t t' : Uuid} (h : t' ≠ t) (d : PoisonDetector) (a : AgentId)
    (now : DateTime) : (d.recordFailure t a now).2.entry t' = d.entry t' := by
  by_cases hp : t ∈ d.poisoned
  · simp [recordFailure, hp]
  · rw [recordFailure_eq hp]
    generalize (d.entry t).pruned d.config a now = records
    cases hn : reaches d.config records <;> simp [entry, AList.lookup_insert_ne h, h]

theorem entry_apply (d : PoisonDetector) (c : Call) (t : Uuid) :
    (d.apply c).entry t =
      if c.taskId = t then c.onEntry d.config (d.entry t) else d.entry t := by
  obtain ⟨op, t', now⟩ := c
  rcases eq_or_ne t' t with rfl | h
  · rw [if_pos rfl]
    cases op with
    | recordFailure a => exact entry_recordFailure d t' a now
    | forcePoison => simp [apply, forcePoison, Call.onEntry, entry]
    | clear => simp [apply, clear, Call.onEntry, entry]
    | _ => rfl
  · have h' : t ≠ t' := fun e => h e.symm
    rw [if_neg h]
    cases op with
    | recordFailure a => exact entry_recordFailure_ne h' d a now
    | forcePoison => simp [apply, forcePoison, entry, h']
    | clear => simp [apply, clear, entry, AList.lookup_erase_ne h', h']
    | _ => rfl

end PoisonDetector

end ATP
