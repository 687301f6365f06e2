import AgentTransport.Node.Node
import AgentTransport.Lib.Trace

/-! What a heartbeat tells the monitor and the load tracker.

    The dispatcher hands every heartbeat to both. The monitor takes its queue depth only if the
    heartbeat is newer than what it has, the tracker always. The two agree for as long as no
    heartbeat arrives that is not newer and brings another depth. -/

namespace ATP
namespace MessageDispatcher
open F64 Collections
variable {F : Type} [F64 F]

/-- Dispatch one heartbeat. -/
def heartbeatStep (d : MessageDispatcher) (l : Layers F) (e : HeartbeatMsg F × (ℕ → DateTime)) :
    Answer F × Layers F :=
  d.dispatch (.heartbeat e.1) l e.2

/-- The monitor has no heartbeat of the sender as new as this one. -/
def Newer (monitor : HeartbeatMonitor F) (hb : HeartbeatMsg F) : Prop :=
  hb.sequence > ((monitor.agents.lookup hb.src).map (·.lastSequence)).getD 0

/-- Monitor and tracker have the same queue depth for every agent. -/
def LoadAgrees (l : Layers F) : Prop :=
  ∀ a, l.heartbeatMonitor.queueDepth a = l.loadTracker.queueDepth a

section Step
variable {d : MessageDispatcher} {l : Layers F} {e : HeartbeatMsg F × (ℕ → DateTime)}

theorem tracker_queueDepth (a : AgentId) :
    (d.heartbeatStep l e).2.loadTracker.queueDepth a =
      if a = e.1.src then some e.1.queueDepth else l.loadTracker.queueDepth a := by
  have hlookup := lookup_upsert l.loadTracker.agents e.1.src a (.new (e.2 1))
    (·.report (e.2 1) e.1.queueDepth (some (lit 10 * F64.max (1 - e.1.loadFactor) (lit (1 / 100)))))
  refine (congrArg (Option.map AgentLoad.queueDepth) hlookup).trans ?_
  split_ifs <;> rfl

theorem monitor_queueDepth_ne {a : AgentId} (h : a ≠ e.1.src) :
    (d.heartbeatStep l e).2.heartbeatMonitor.queueDepth a = l.heartbeatMonitor.queueDepth a := by
  have hlookup := lookup_upsert l.heartbeatMonitor.agents e.1.src a (.new (e.2 0))
    (·.accept (e.2 0) e.1)
  rw [if_neg h] at hlookup
  exact congrArg (Option.map AgentHeartbeatState.queueDepth) hlookup

/-- The monitor keeps what it has, 0 for a new agent, unless the heartbeat is newer. -/
theorem monitor_queueDepth_iff :
    (d.heartbeatStep l e).2.heartbeatMonitor.queueDepth e.1.src = some e.1.queueDepth ↔
      Newer l.heartbeatMonitor e.1 ∨
        e.1.queueDepth = (l.heartbeatMonitor.queueDepth e.1.src).getD 0 := by
  have hlookup := lookup_upsert l.heartbeatMonitor.agents e.1.src e.1.src (.new (e.2 0))
    (·.accept (e.2 0) e.1)
  rw [if_pos rfl] at hlookup
  have hdepth : (d.heartbeatStep l e).2.heartbeatMonitor.queueDepth e.1.src =
      some (((l.heartbeatMonitor.agents.lookup e.1.src).getD (.new (e.2 0))).accept
        (e.2 0) e.1).queueDepth :=
    congrArg (Option.map AgentHeartbeatState.queueDepth) hlookup
  rw [hdepth, Option.some.injEq]
  unfold Newer HeartbeatMonitor.queueDepth AgentHeartbeatState.accept
  cases l.heartbeatMonitor.agents.lookup e.1.src with
  | none =>
    simp only [Option.getD_none, Option.map_none, AgentHeartbeatState.new]
    split_ifs with h <;> simp [h, eq_comm]
  | some s =>
    simp only [Option.getD_some, Option.map_some]
    split_ifs with h <;> simp [h, eq_comm]

/-- Where the two agree, they agree after a heartbeat exactly when it is newer or brings no other
    depth. -/
theorem loadAgrees_step (h : LoadAgrees l) : LoadAgrees (d.heartbeatStep l e).2 ↔
    Newer l.heartbeatMonitor e.1 ∨
      e.1.queueDepth = (l.heartbeatMonitor.queueDepth e.1.src).getD 0 := by
  rw [← @monitor_queueDepth_iff _ _ d]
  constructor
  · intro hagrees
    rw [hagrees, tracker_queueDepth, if_pos rfl]
  · intro hself a
    by_cases ha : a = e.1.src
    · rw [tracker_queueDepth, if_pos ha, ha, hself]
    · rw [tracker_queueDepth, if_neg ha, monitor_queueDepth_ne ha, h]

/-- A backpressure reply says that the tracker's queue depth of the sender exceeds the
    threshold. -/
theorem backpressure_reply {bp : BackpressureMsg F}
    (h : (d.heartbeatStep l e).1 = .ok (some (.backpressure bp))) :
    ∃ depth, (d.heartbeatStep l e).2.loadTracker.queueDepth e.1.src = some depth ∧
      depth > l.loadTracker.config.backpressureThreshold := by
  refine ⟨e.1.queueDepth, by rw [tracker_queueDepth, if_pos rfl], ?_⟩
  have hover : (l.loadTracker.updateFromHeartbeat e.1 (e.2 1)).isOverloaded e.1.src = true := by
    by_contra hno
    have hnone : (d.heartbeatStep l e).1 = .ok none := by
      simp only [heartbeatStep, dispatch, handleHeartbeat, if_neg hno]
    rw [hnone] at h
    cases h
  have hdepth : (l.loadTracker.updateFromHeartbeat e.1 (e.2 1)).queueDepth e.1.src =
      some e.1.queueDepth := by
    have := @tracker_queueDepth _ _ d l e e.1.src
    rwa [if_pos rfl] at this
  rw [AgentLoadTracker.isOverloaded, hdepth] at hover
  exact of_decide_eq_true hover

end Step

/-! ### Runs -/

/-- Monitor and tracker agree after every heartbeat of a run exactly when each heartbeat is newer
    than what the monitor has from its sender, or brings the depth the monitor has; and a
    backpressure reply then means that this depth exceeds the threshold. -/
theorem loadAgrees_run_iff (d : MessageDispatcher) {l : Layers F} (h : LoadAgrees l)
    (es : List (HeartbeatMsg F × (ℕ → DateTime))) :
    (∀ x ∈ Trace.trace d.heartbeatStep l es, LoadAgrees x.post ∧
      ∀ bp, x.out = .ok (some (.backpressure bp)) →
        ∃ depth, x.post.heartbeatMonitor.queueDepth x.ev.1.src = some depth ∧
          depth > l.loadTracker.config.backpressureThreshold) ↔
      ∀ x ∈ Trace.trace d.heartbeatStep l es, Newer x.pre.heartbeatMonitor x.ev.1 ∨
        x.ev.1.queueDepth = (x.pre.heartbeatMonitor.queueDepth x.ev.1.src).getD 0 := by
  induction es generalizing l with
  | nil => simp [Trace.trace]
  | cons e es ih =>
    have hfirst := @loadAgrees_step _ _ d l e h
    simp only [Trace.trace, List.forall_mem_cons]
    constructor
    · rintro ⟨⟨hagrees, -⟩, hrest⟩
      exact ⟨hfirst.mp hagrees, (ih hagrees).mp hrest⟩
    · rintro ⟨hnew, hrest⟩
      have hagrees := hfirst.mpr hnew
      refine ⟨⟨hagrees, fun bp hbp => ?_⟩, (ih hagrees).mpr hrest⟩
      rw [hagrees e.1.src]
      exact backpressure_reply hbp

theorem loadAgrees_new (id : AgentId) (config : AtpConfig F) :
    LoadAgrees (AtpNode.new id config).toLayers :=
  fun _ => rfl

/-- A heartbeat that comes late: the monitor keeps the depth 5 of the newer one, the tracker takes
    the depth 500, and the reply asks for backpressure. -/
theorem load_disagrees :
    let tr := Trace.trace (heartbeatStep ⟨⟨9⟩⟩) (AtpNode.new ⟨9⟩ AtpConfig.default).toLayers
      [((⟨⟨1⟩, 2, 5, 0⟩ : HeartbeatMsg ℚ), fun _ => 0), (⟨⟨1⟩, 1, 500, 0⟩, fun _ => 0)]
    tr.map (fun x => (x.post.heartbeatMonitor.queueDepth ⟨1⟩, x.post.loadTracker.queueDepth ⟨1⟩)) =
        [(some 5, some 5), (some 5, some 500)] ∧
      ∃ bp, (tr.map (·.out)).getLast? = some (.ok (some (.backpressure bp))) := by
  intro tr
  refine ⟨by decide, ⟨_, rfl⟩⟩

/-- Two heartbeats in order. -/
theorem loadAgrees_run_iff_two :
    ∃ x ∈ Trace.trace (heartbeatStep ⟨⟨9⟩⟩) (AtpNode.new ⟨9⟩ AtpConfig.default).toLayers
      [((⟨⟨1⟩, 1, 500, 0⟩ : HeartbeatMsg ℚ), fun _ => 0), (⟨⟨1⟩, 2, 5, 0⟩, fun _ => 0)],
      x.ev.1.sequence = 2 ∧ LoadAgrees x.post := by
  have h := (loadAgrees_run_iff ⟨⟨9⟩⟩ (loadAgrees_new ⟨9⟩ AtpConfig.default)
    [((⟨⟨1⟩, 1, 500, 0⟩ : HeartbeatMsg ℚ), fun _ => 0), (⟨⟨1⟩, 2, 5, 0⟩, fun _ => 0)]).mpr (by
      intro x hx
      left
      rcases List.mem_cons.mp hx with rfl | hx
      · exact (by decide : (1 : UInt64) > 0)
      · rcases List.mem_cons.mp hx with rfl | hx
        · exact (by decide : (2 : UInt64) > 1)
        · cases hx)
  have hsecond := (List.forall_mem_cons.mp (List.forall_mem_cons.mp h).2).1
  exact ⟨_, List.mem_cons_of_mem _ List.mem_cons_self, rfl, hsecond.1⟩

end MessageDispatcher
end ATP
