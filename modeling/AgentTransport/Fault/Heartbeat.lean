import AgentTransport.Types.Message

/-! Heartbeat reception and failure detection: the latest report of every known agent, and what its
    silence since then says about it. -/

namespace ATP
open F64 Collections
variable {F : Type} [F64 F]

/-- Per-agent health status. -/
inductive HeartbeatStatus where | alive | suspected | dead
  deriving DecidableEq

/-- Internal bookkeeping for a single agent. -/
structure AgentHeartbeatState (F : Type) where
  lastSequence : UInt64
  lastSeen : DateTime
  queueDepth : UInt32
  loadFactor : F
  status : HeartbeatStatus

/-- The entry created by the first heartbeat of an agent. -/
def AgentHeartbeatState.new (now : DateTime) : AgentHeartbeatState F := ⟨0, now, 0, 0, .alive⟩

/-- Accept a report with a new sequence number; ignore it otherwise. -/
def AgentHeartbeatState.accept (now : DateTime) (msg : HeartbeatMsg F)
    (s : AgentHeartbeatState F) : AgentHeartbeatState F :=
  if msg.sequence > s.lastSequence then
    ⟨msg.sequence, now, msg.queueDepth, msg.loadFactor, .alive⟩
  else s

/-- Tracks heartbeat reception for all known agents. -/
structure HeartbeatMonitor (F : Type) where
  config : FaultConfig
  agents : HashMap AgentId (AgentHeartbeatState F)

namespace HeartbeatMonitor

/-- Create a new monitor with the given fault configuration. -/
def new (config : FaultConfig) : HeartbeatMonitor F := ⟨config, ∅⟩

/-- Record an incoming heartbeat from an agent. -/
def recordHeartbeat (m : HeartbeatMonitor F) (msg : HeartbeatMsg F) (now : DateTime) :
    HeartbeatMonitor F :=
  { m with agents := m.agents.upsert msg.src (.new now) (·.accept now msg) }

/-- Computed timeout duration (interval × multiplier). -/
def timeout (m : HeartbeatMonitor F) : Duration :=
  m.config.heartbeatInterval * m.config.heartbeatTimeoutMultiplier.toNat

/-- The timeout of a check, 3 s when out of range. -/
def checkTimeout (m : HeartbeatMonitor F) : ℤ :=
  (chronoFromStd m.timeout).getD (Duration.secs 3 : ℕ)

omit [F64 F] in
theorem checkTimeout_of_le {m : HeartbeatMonitor F} (h : m.timeout ≤ chronoMax) :
    m.checkTimeout = (m.timeout : ℤ) := by
  rw [checkTimeout, chronoFromStd_of_le h]
  rfl

/-- What an agent's silence says about it. -/
def verdict (timeout elapsed : ℤ) : HeartbeatStatus :=
  if elapsed ≤ timeout then .alive
  -- between 1× and 2× timeout
  else if elapsed ≤ timeout + timeout then .suspected
  else .dead

/-- One agent of a check: note its new status if it changed. -/
def checkAgent (timeout : ℤ) (now : DateTime)
    (acc : List (AgentId × HeartbeatStatus) × HashMap AgentId (AgentHeartbeatState F))
    (id : AgentId) :
    List (AgentId × HeartbeatStatus) × HashMap AgentId (AgentHeartbeatState F) :=
  match acc.2.lookup id with
  | some state =>
    let newStatus := verdict timeout (now - state.lastSeen)
    if newStatus ≠ state.status then
      (acc.1 ++ [(id, newStatus)], acc.2.insert id { state with status := newStatus })
    else acc
  | none => acc

/-- Evaluate all tracked agents and return those whose status changed. -/
def checkAll (m : HeartbeatMonitor F) (hs : RandomState AgentId) (now : DateTime) :
    List (AgentId × HeartbeatStatus) × HeartbeatMonitor F :=
  let (changed, agents) :=
    (hs.order m.agents.keys).foldl (checkAgent m.checkTimeout now) ([], m.agents)
  (changed, { m with agents := agents })

/-- Query the current status of a single agent. -/
def status (m : HeartbeatMonitor F) (agent : AgentId) : Except FaultError HeartbeatStatus :=
  match m.agents.lookup agent with
  | some s => .ok s.status
  | none => .error (.heartbeatTimeout agent.display)

/-- The last-seen timestamp for an agent, if known. -/
def lastSeen (m : HeartbeatMonitor F) (agent : AgentId) : Option DateTime :=
  (m.agents.lookup agent).map (·.lastSeen)

/-- The queue depth most recently reported by an agent. -/
def queueDepth (m : HeartbeatMonitor F) (agent : AgentId) : Option UInt32 :=
  (m.agents.lookup agent).map (·.queueDepth)

/-- Remove an agent from tracking entirely. -/
def removeAgent (m : HeartbeatMonitor F) (agent : AgentId) : Bool × HeartbeatMonitor F :=
  ((m.agents.lookup agent).isSome, { m with agents := m.agents.erase agent })

/-! ### One check -/

section Check
omit [F64 F]

/-- An agent after a check. -/
def recheck (timeout : ℤ) (now : DateTime) (s : AgentHeartbeatState F) : AgentHeartbeatState F :=
  { s with status := verdict timeout (now - s.lastSeen) }

/-- What a check reports about an agent. -/
def change (timeout : ℤ) (now : DateTime) (agents : HashMap AgentId (AgentHeartbeatState F))
    (id : AgentId) : Option (AgentId × HeartbeatStatus) :=
  match agents.lookup id with
  | some s =>
    if verdict timeout (now - s.lastSeen) ≠ s.status then
      some (id, verdict timeout (now - s.lastSeen)) else none
  | none => none

theorem checkAgent_eq (timeout : ℤ) (now : DateTime)
    (acc : List (AgentId × HeartbeatStatus) × HashMap AgentId (AgentHeartbeatState F))
    (id : AgentId) :
    (checkAgent timeout now acc id).1 = acc.1 ++ (change timeout now acc.2 id).toList ∧
      (checkAgent timeout now acc id).2.lookup id =
        (acc.2.lookup id).map (recheck timeout now) ∧
      ∀ id', id' ≠ id → (checkAgent timeout now acc id).2.lookup id' = acc.2.lookup id' := by
  cases h : acc.2.lookup id with
  | none => simp [checkAgent, change, h]
  | some s =>
    by_cases hs : verdict timeout (now - s.lastSeen) = s.status
    · have hsame : recheck timeout now s = s := by rw [recheck, hs]
      simp [checkAgent, change, h, hs, hsame]
    · simp only [checkAgent, change, h, hs, ne_eq, not_false_eq_true, if_true]
      exact ⟨rfl, by simp [recheck], fun id' hne => AList.lookup_insert_ne hne⟩

/-- The loop of a check over distinct agents. -/
theorem foldl_checkAgent (timeout : ℤ) (now : DateTime) (ids : List AgentId) (hids : ids.Nodup) :
    ∀ acc : List (AgentId × HeartbeatStatus) × HashMap AgentId (AgentHeartbeatState F),
      (ids.foldl (checkAgent timeout now) acc).1 =
        acc.1 ++ ids.filterMap (change timeout now acc.2) ∧
      ∀ id, (ids.foldl (checkAgent timeout now) acc).2.lookup id =
        if id ∈ ids then (acc.2.lookup id).map (recheck timeout now) else acc.2.lookup id := by
  induction ids with
  | nil => intro acc; simp
  | cons id ids ih =>
    intro acc
    obtain ⟨hid, hids⟩ := List.nodup_cons.mp hids
    obtain ⟨hout, hself, hother⟩ := checkAgent_eq timeout now acc id
    obtain ⟨hrest, hlookup⟩ := ih hids (checkAgent timeout now acc id)
    -- the agents that are left are other ones, so their entries are still as they were
    have hchange : ids.filterMap (change timeout now (checkAgent timeout now acc id).2) =
        ids.filterMap (change timeout now acc.2) :=
      List.filterMap_congr fun id' hid' => by
        simp only [change, hother id' fun h => hid (h ▸ hid')]
    rw [List.foldl_cons]
    refine ⟨?_, fun id' => ?_⟩
    · rw [hrest, hout, hchange, List.append_assoc, List.filterMap_cons]
      cases change timeout now acc.2 id <;> rfl
    · rw [hlookup]
      rcases eq_or_ne id' id with rfl | h
      · rw [if_neg hid, if_pos List.mem_cons_self, hself]
      · simp only [List.mem_cons, h, false_or, hother id' h]

theorem lookup_checkAll (m : HeartbeatMonitor F) (hs : RandomState AgentId) (now : DateTime)
    (id : AgentId) : (m.checkAll hs now).2.agents.lookup id =
      (m.agents.lookup id).map (recheck m.checkTimeout now) := by
  have hnodup : (hs.order m.agents.keys).Nodup :=
    (hs.perm m.agents.keys).nodup_iff.mpr m.agents.keys_nodup
  refine ((foldl_checkAgent m.checkTimeout now _ hnodup ([], m.agents)).2 id).trans ?_
  by_cases hid : id ∈ hs.order m.agents.keys
  · rw [if_pos hid]
  · rw [if_neg hid]
    rw [RandomState.mem_order, ← AList.mem_keys, ← AList.lookup_eq_none] at hid
    rw [hid]
    rfl

theorem checkAll_changed (m : HeartbeatMonitor F) (hs : RandomState AgentId) (now : DateTime) :
    (m.checkAll hs now).1 =
      (hs.order m.agents.keys).filterMap (change m.checkTimeout now m.agents) := by
  have hnodup : (hs.order m.agents.keys).Nodup :=
    (hs.perm m.agents.keys).nodup_iff.mpr m.agents.keys_nodup
  exact (foldl_checkAgent m.checkTimeout now _ hnodup ([], m.agents)).1

end Check

end HeartbeatMonitor

end ATP
