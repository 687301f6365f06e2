import AgentTransport.Fault.Heartbeat
import AgentTransport.Lib.Trace
import Mathlib.Data.List.DropRight
import Mathlib.Data.List.MinMax

/-! Runs of the heartbeat monitor: heartbeats of any agents in any order, checks and removals.

    The queue depth of an agent is that of its newest heartbeat, except that the entry an agent
    starts with already counts as sequence number 0. -/

namespace ATP
namespace HeartbeatMonitor
open F64 Collections
variable {F : Type} [F64 F]

inductive Op (F : Type) where
  | recordHeartbeat (msg : HeartbeatMsg F)
  | checkAll (hs : RandomState AgentId)
  | removeAgent (agent : AgentId)

/-- A call, and the time it reads. -/
structure Call (F : Type) where
  op : Op F
  now : DateTime

/-- A call reports the agents whose status changed; only a check does. -/
def step (m : HeartbeatMonitor F) (c : Call F) :
    List (AgentId × HeartbeatStatus) × HeartbeatMonitor F :=
  match c.op with
  | .recordHeartbeat msg => ([], m.recordHeartbeat msg c.now)
  | .checkAll hs => m.checkAll hs c.now
  | .removeAgent agent => ([], (m.removeAgent agent).2)

/-- A step of a run. -/
abbrev Step (F : Type) :=
  TraceStep (HeartbeatMonitor F) (Call F) (List (AgentId × HeartbeatStatus))

/-- The entry of an agent after a call. -/
def Call.onEntry (timeout : ℤ) (a : AgentId) (c : Call F) (o : Option (AgentHeartbeatState F)) :
    Option (AgentHeartbeatState F) :=
  match c.op with
  | .recordHeartbeat msg =>
    if msg.src = a then some ((o.getD (.new c.now)).accept c.now msg) else o
  | .checkAll _ => o.map (recheck timeout c.now)
  | .removeAgent agent => if agent = a then none else o

@[simp] theorem step_config (m : HeartbeatMonitor F) (c : Call F) :
    (m.step c).2.config = m.config := by
  obtain ⟨op, now⟩ := c
  cases op <;> rfl

@[simp] theorem step_timeout (m : HeartbeatMonitor F) (c : Call F) :
    (m.step c).2.checkTimeout = m.checkTimeout := by
  rw [checkTimeout, timeout, step_config]
  rfl

theorem lookup_step (m : HeartbeatMonitor F) (c : Call F) (a : AgentId) :
    (m.step c).2.agents.lookup a = c.onEntry m.checkTimeout a (m.agents.lookup a) := by
  obtain ⟨op, now⟩ := c
  cases op with
  | recordHeartbeat msg =>
    refine (lookup_upsert m.agents msg.src a _ _).trans ?_
    rcases eq_or_ne a msg.src with rfl | h
    · simp [Call.onEntry]
    · simp [Call.onEntry, h, Ne.symm h]
  | checkAll hs => exact lookup_checkAll m hs now a
  | removeAgent agent =>
    rcases eq_or_ne agent a with rfl | h
    · simp [step, removeAgent, Call.onEntry]
    · simp [step, removeAgent, Call.onEntry, h, AList.lookup_erase_ne (Ne.symm h)]

/-! ### Delivery order -/

/-- The heartbeat of an agent that a call delivers. -/
def Call.heartbeat (a : AgentId) (c : Call F) : Option (HeartbeatMsg F) :=
  match c.op with
  | .recordHeartbeat msg => if msg.src = a then some msg else none
  | _ => none

/-- The call removes the agent. -/
def Call.removes (a : AgentId) (c : Call F) : Bool :=
  match c.op with
  | .removeAgent agent => decide (agent = a)
  | _ => false

/-- The heartbeats delivered from an agent since it began to be tracked. -/
def heartbeatsSince (a : AgentId) (calls : List (Call F)) : List (HeartbeatMsg F) :=
  (calls.rtakeWhile fun c => !c.removes a).filterMap (Call.heartbeat a)

/-- The first delivered of some heartbeats with the greatest sequence number. -/
def newest (msgs : List (HeartbeatMsg F)) : Option (HeartbeatMsg F) :=
  msgs.argmax fun msg => msg.sequence.toNat

/-- The sequence number and queue depth that the heartbeats of an agent leave in its entry. -/
def held (msgs : List (HeartbeatMsg F)) : UInt64 × UInt32 :=
  match newest msgs with
  | some msg => if msg.sequence > 0 then (msg.sequence, msg.queueDepth) else (0, 0)
  | none => (0, 0)

omit [F64 F] in
theorem heartbeatsSince_concat (a : AgentId) (calls : List (Call F)) (c : Call F) :
    heartbeatsSince a (calls ++ [c]) =
      if c.removes a then [] else heartbeatsSince a calls ++ (c.heartbeat a).toList := by
  cases h : c.removes a with
  | true => simp [heartbeatsSince, h]
  | false => cases hm : c.heartbeat a <;> simp [heartbeatsSince, h, hm]

omit [F64 F] in
theorem held_concat (msgs : List (HeartbeatMsg F)) (msg : HeartbeatMsg F) :
    held (msgs ++ [msg]) =
      if msg.sequence > (held msgs).1 then (msg.sequence, msg.queueDepth) else held msgs := by
  unfold held newest
  rw [List.argmax_concat]
  cases List.argmax (fun msg => msg.sequence.toNat) msgs with
  | none => by_cases h : msg.sequence > 0 <;> simp [h]
  | some top =>
    by_cases htop : top.sequence > 0
    · by_cases h : top.sequence.toNat < msg.sequence.toNat
      · have h' : msg.sequence > top.sequence := UInt64.lt_iff_toNat_lt.mpr h
        have hpos : msg.sequence > 0 := UInt64.lt_trans htop h'
        simp [h, h', htop, hpos]
      · have h' : ¬ msg.sequence > top.sequence := fun hl => h (UInt64.lt_iff_toNat_lt.mp hl)
        simp [h, h', htop]
    · have hzero : top.sequence = 0 := by
        rw [← UInt64.toNat_inj]
        exact Nat.le_zero.mp (Nat.not_lt.mp fun hl => htop (UInt64.lt_iff_toNat_lt.mpr hl))
      by_cases h : msg.sequence > 0
      · have h' : 0 < msg.sequence.toNat := UInt64.lt_iff_toNat_lt.mp h
        simp [h, h', hzero]
      · have h' : ¬ 0 < msg.sequence.toNat := fun hl => h (UInt64.lt_iff_toNat_lt.mpr hl)
        simp [h, h', hzero]

/-- The entry of an agent holds what its heartbeats since it began to be tracked leave there. -/
def Holds (msgs : List (HeartbeatMsg F)) : Option (AgentHeartbeatState F) → Prop
  | none => msgs = []
  | some s => msgs ≠ [] ∧ (s.lastSequence, s.queueDepth) = held msgs

theorem holds_accept {msgs : List (HeartbeatMsg F)} {o : Option (AgentHeartbeatState F)}
    (h : Holds msgs o) (msg : HeartbeatMsg F) (now : DateTime) :
    Holds (msgs ++ [msg]) (some ((o.getD (.new now)).accept now msg)) := by
  have hheld : ((o.getD (.new now)).lastSequence, (o.getD (.new now)).queueDepth) = held msgs := by
    cases o with
    | none => rw [show msgs = [] from h]; rfl
    | some s => exact h.2
  refine ⟨by simp, ?_⟩
  rw [held_concat, ← hheld, AgentHeartbeatState.accept]
  split_ifs <;> rfl

theorem holds_step {msgs : List (HeartbeatMsg F)} {o : Option (AgentHeartbeatState F)}
    {timeout : ℤ} {a : AgentId} (c : Call F) (h : Holds msgs o) :
    Holds (if c.removes a then [] else msgs ++ (c.heartbeat a).toList)
      (c.onEntry timeout a o) := by
  obtain ⟨op, now⟩ := c
  cases op with
  | recordHeartbeat msg =>
    by_cases ha : msg.src = a
    · simpa [Call.removes, Call.heartbeat, Call.onEntry, ha] using holds_accept h msg now
    · simpa [Call.removes, Call.heartbeat, Call.onEntry, ha] using h
  | checkAll hs =>
    cases o with
    | none => simpa [Call.removes, Call.heartbeat, Call.onEntry] using h
    | some s => simpa [Call.removes, Call.heartbeat, Call.onEntry, recheck, Holds] using h
  | removeAgent agent =>
    by_cases ha : agent = a
    · simp [Call.removes, Call.onEntry, ha, Holds]
    · simpa [Call.removes, Call.heartbeat, Call.onEntry, ha] using h

theorem holds_run (config : FaultConfig) (a : AgentId) (calls : List (Call F)) :
    Holds (heartbeatsSince a calls) ((Trace.run step (new config) calls).agents.lookup a) := by
  induction calls using List.reverseRecOn with
  | nil => rfl
  | append_singleton calls c ih =>
    rw [Trace.run_concat, lookup_step, heartbeatsSince_concat]
    exact holds_step c ih

omit [F64 F] in
/-- Of heartbeats that all have sequence number 0 the first is the newest. -/
theorem newest_of_all_zero {msg : HeartbeatMsg F} {msgs : List (HeartbeatMsg F)}
    (h : ∀ m ∈ msg :: msgs, m.sequence = 0) : newest (msg :: msgs) = some msg := by
  unfold newest
  rw [List.argmax_cons]
  cases hmax : List.argmax (fun m : HeartbeatMsg F => m.sequence.toNat) msgs with
  | none => rfl
  | some top =>
    have htop : top.sequence = 0 := h top (List.mem_cons_of_mem _ (List.argmax_mem hmax))
    simp [htop, h msg List.mem_cons_self]

/-- The queue depth of an agent is that of the first delivered of its heartbeats with the greatest
    sequence number exactly when one of them has a sequence number above 0, or the first one brings
    the depth that an entry starts with. -/
theorem queueDepth_newest_iff (config : FaultConfig) (calls : List (Call F)) {a : AgentId}
    (hne : heartbeatsSince a calls ≠ []) :
    (Trace.run step (new config) calls).queueDepth a =
        (newest (heartbeatsSince a calls)).map (·.queueDepth) ↔
      (∃ m ∈ heartbeatsSince a calls, 0 < m.sequence) ∨
        ∀ m, (heartbeatsSince a calls).head? = some m → m.queueDepth = 0 := by
  have hholds := holds_run config a calls
  have hdepth : (Trace.run step (new config) calls).queueDepth a =
      some (held (heartbeatsSince a calls)).2 := by
    unfold queueDepth
    cases hl : (Trace.run step (new config) calls).agents.lookup a with
    | none => rw [hl] at hholds; exact absurd hholds hne
    | some s =>
      rw [hl] at hholds
      rw [← hholds.2]
      rfl
  rw [hdepth]
  generalize heartbeatsSince a calls = msgs at hne ⊢
  by_cases hpos : ∃ m ∈ msgs, 0 < m.sequence
  · -- the newest was accepted
    refine iff_of_true ?_ (Or.inl hpos)
    obtain ⟨m, hm, hmpos⟩ := hpos
    cases hnew : newest msgs with
    | none => exact absurd (List.argmax_eq_none.mp hnew) hne
    | some top =>
      have hle : m.sequence.toNat ≤ top.sequence.toNat :=
        List.le_of_mem_argmax (f := fun m : HeartbeatMsg F => m.sequence.toNat) hm hnew
      have htop : top.sequence > 0 :=
        UInt64.lt_iff_toNat_lt.mpr ((UInt64.lt_iff_toNat_lt.mp hmpos).trans_le hle)
      simp [held, hnew, htop]
  · have hzero : ∀ m ∈ msgs, m.sequence = 0 := by
      intro m hm
      rw [← UInt64.toNat_inj]
      exact Nat.le_zero.mp (Nat.not_lt.mp fun hl =>
        hpos ⟨m, hm, UInt64.lt_iff_toNat_lt.mpr hl⟩)
    rw [or_iff_right hpos]
    cases msgs with
    | nil => exact absurd rfl hne
    | cons m msgs =>
      rw [held, newest_of_all_zero hzero]
      simp [hzero m List.mem_cons_self, eq_comm]

/-- The only heartbeat of an agent has sequence number 0: its queue depth is ignored. -/
theorem queueDepth_not_newest :
    let msg : HeartbeatMsg ℚ := ⟨⟨1⟩, 0, 5, 0⟩
    (Trace.run step (new FaultConfig.default) [⟨.recordHeartbeat msg, 0⟩]).queueDepth ⟨1⟩ = some 0 ∧
      newest (heartbeatsSince ⟨1⟩ [⟨.recordHeartbeat msg, 0⟩]) = some msg := by
  refine ⟨by decide, rfl⟩

/-- A heartbeat overtaken by a newer one. -/
theorem queueDepth_newest_iff_two :
    (Trace.run step (new FaultConfig.default)
      [⟨.recordHeartbeat (⟨⟨1⟩, 2, 5, 0⟩ : HeartbeatMsg ℚ), 0⟩,
        ⟨.recordHeartbeat ⟨⟨1⟩, 1, 9, 0⟩, 3⟩]).queueDepth ⟨1⟩ = some 5 :=
  (queueDepth_newest_iff FaultConfig.default _ (by decide)).mpr
    (Or.inl ⟨⟨⟨1⟩, 2, 5, 0⟩, List.mem_cons_self, by decide⟩)

end HeartbeatMonitor
end ATP
