import AgentTransport.Types.Basic

/-! Checkpoint storage: the newest snapshot of each task, and everything saved for it. -/

namespace ATP
open Collections

/-- A snapshot of a task's intermediate state. -/
structure CheckpointData where
  taskId : Uuid
  stateBytes : List UInt8
  agentId : AgentId
  timestamp : DateTime
  version : UInt64
  deriving DecidableEq

/-- The decision to move a task from a failed agent to another. -/
structure FailoverDecision where
  taskId : Uuid
  checkpoint : Option CheckpointData
  failedAgent : AgentId
  newAgent : AgentId
  decidedAt : DateTime

/-- In-memory checkpoint store keyed by task. -/
structure CheckpointStore where
  store : HashMap Uuid CheckpointData
  history : HashMap Uuid (List CheckpointData)

namespace CheckpointStore

def new : CheckpointStore := ⟨∅, ∅⟩

/-- The hot store takes a checkpoint that is newer than the one it has. -/
def shouldUpdate (s : CheckpointStore) (data : CheckpointData) : Bool :=
  match s.store.lookup data.taskId with
  | some existing => decide (data.version > existing.version)
  | none => true

/-- Save a checkpoint: append it to the history, and make it the latest if it is newer. -/
def save (s : CheckpointStore) (data : CheckpointData) : CheckpointStore where
  history := s.history.upsert data.taskId [] (· ++ [data])
  store := if s.shouldUpdate data then s.store.insert data.taskId data else s.store

/-- Create and save a checkpoint in one call. -/
def createCheckpoint (s : CheckpointStore) (taskId : Uuid) (stateBytes : List UInt8)
    (agentId : AgentId) (version : UInt64) (now : DateTime) : CheckpointData × CheckpointStore :=
  let data : CheckpointData := ⟨taskId, stateBytes, agentId, now, version⟩
  (data, s.save data)

/-- Retrieve the latest checkpoint for a task. -/
def get (s : CheckpointStore) (taskId : Uuid) : Option CheckpointData := s.store.lookup taskId

/-- Retrieve the full version history for a task. -/
def getHistory (s : CheckpointStore) (taskId : Uuid) : List CheckpointData :=
  (s.history.lookup taskId).getD []

/-- Remove the checkpoint and the history of a completed task. -/
def remove (s : CheckpointStore) (taskId : Uuid) : Option CheckpointData × CheckpointStore :=
  (s.store.lookup taskId, ⟨s.store.erase taskId, s.history.erase taskId⟩)

/-- Build a failover decision for a task whose agent has failed. -/
def failover (s : CheckpointStore) (taskId : Uuid) (failedAgent newAgent : AgentId)
    (now : DateTime) : Except FaultError FailoverDecision :=
  if failedAgent = newAgent then
    .error (.checkpointFailed "new agent is the same as the failed agent")
  else .ok ⟨taskId, s.get taskId, failedAgent, newAgent, now⟩

/-! ### Calls -/

inductive Op where
  | save (data : CheckpointData)
  | createCheckpoint (taskId : Uuid) (stateBytes : List UInt8) (agentId : AgentId)
      (version : UInt64) (now : DateTime)
  | remove (taskId : Uuid)
  deriving DecidableEq

/-- The checkpoint that a call saves. -/
def Op.saved : Op → Option CheckpointData
  | .save data => some data
  | .createCheckpoint taskId stateBytes agentId version now =>
    some ⟨taskId, stateBytes, agentId, now, version⟩
  | .remove _ => none

/-- The task of a call. -/
def Op.taskId : Op → Uuid
  | .save data => data.taskId
  | .createCheckpoint taskId _ _ _ _ => taskId
  | .remove taskId => taskId

def apply (s : CheckpointStore) : Op → CheckpointStore
  | .save data => s.save data
  | .createCheckpoint taskId stateBytes agentId version now =>
    (s.createCheckpoint taskId stateBytes agentId version now).2
  | .remove taskId => (s.remove taskId).2

/-- The calls one after the other. -/
def applyAll (s : CheckpointStore) (ops : List Op) : CheckpointStore := ops.foldl apply s

/-! ### What the store keeps about one task -/

structure Entry where
  latest : Option CheckpointData
  log : List CheckpointData
  deriving DecidableEq

def entry (s : CheckpointStore) (taskId : Uuid) : Entry := ⟨s.get taskId, s.getHistory taskId⟩

/-- The newest of a checkpoint and the one there was; the latter if there is a tie. -/
def newer (latest : Option CheckpointData) (data : CheckpointData) : CheckpointData :=
  match latest with
  | some existing => if data.version > existing.version then data else existing
  | none => data

/-- What a call does to the entry of its task. -/
def Entry.apply (e : Entry) (op : Op) : Entry :=
  match op.saved with
  | some data => ⟨some (newer e.latest data), e.log ++ [data]⟩
  | none => ⟨none, []⟩

theorem get_update (s : CheckpointStore) (data : CheckpointData) (t : Uuid) :
    (if s.shouldUpdate data then s.store.insert data.taskId data else s.store).lookup t =
      if data.taskId = t then some (newer (s.get t) data) else s.get t := by
  rcases eq_or_ne data.taskId t with rfl | h
  · rw [if_pos rfl]
    unfold shouldUpdate get newer
    cases hl : s.store.lookup data.taskId with
    | none => simp
    | some existing => by_cases hv : data.version > existing.version <;> simp [hv, hl]
  · have h' : t ≠ data.taskId := fun e => h e.symm
    rw [if_neg h]
    cases s.shouldUpdate data <;> simp [get, AList.lookup_insert_ne h']

theorem entry_save (s : CheckpointStore) (data : CheckpointData) (t : Uuid) :
    (s.save data).entry t =
      if data.taskId = t then ⟨some (newer (s.get t) data), s.getHistory t ++ [data]⟩
      else s.entry t := by
  have hget : (s.save data).get t =
      if data.taskId = t then some (newer (s.get t) data) else s.get t := get_update s data t
  rcases eq_or_ne data.taskId t with rfl | h
  · rw [entry, hget, if_pos rfl, if_pos rfl]
    simp [getHistory, save, lookup_upsert]
  · have h' : ¬ t = data.taskId := fun e => h e.symm
    rw [entry, hget, if_neg h, if_neg h, entry]
    simp [getHistory, save, lookup_upsert, h']

theorem entry_apply (s : CheckpointStore) (op : Op) (t : Uuid) :
    (s.apply op).entry t = if op.taskId = t then (s.entry t).apply op else s.entry t := by
  cases op with
  | save data => exact entry_save s data t
  | createCheckpoint taskId stateBytes agentId version now => exact entry_save s _ t
  | remove taskId =>
    rcases eq_or_ne taskId t with rfl | h
    · simp [apply, remove, entry, Entry.apply, get, getHistory, Op.taskId, Op.saved]
    · have h' : t ≠ taskId := fun e => h e.symm
      simp [apply, remove, entry, get, getHistory, Op.taskId, h, AList.lookup_erase_ne h']

end CheckpointStore

end ATP
