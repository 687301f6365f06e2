import AgentTransport.Fault.CircuitRuns
import AgentTransport.Fault.FailureDetection
import AgentTransport.Fault.PoisonRuns

/-! Configured periods. The cool-down, the heartbeat timeout and the detection window go through
    `chrono::Duration::from_std`; one that does not fit is replaced by a constant:

        cool-down ─▶ 30 s      heartbeat timeout ─▶ 3 s      detection window ─▶ 60 s

    A period that fits is kept in every run, and one that does not is shortened in some run. -/

namespace ATP

/-! ### The cool-down -/

namespace CircuitBreaker

/-- In no run is an OPEN circuit moved to HALF_OPEN before `cooldown` has elapsed since it
    opened. -/
def KeepsCooldown (config : FaultConfig) (cooldown : Duration) : Prop :=
  ∀ (calls : List Call) (c : Call) (a : AgentId),
    (calls ++ [c]).Pairwise (fun c c' => c.now ≤ c'.now) →
    (Trace.run step (new config cooldown) calls).state a = .open →
    ((Trace.run step (new config cooldown) calls).step c).2.state a = .halfOpen →
    ∃ t₀, lastOpened a (Trace.trace step (new config cooldown) calls) = some t₀ ∧
      t₀ + cooldown ≤ c.now

/-- HALF_OPEN is entered once the cool-down that the code computes has elapsed. -/
theorem halfOpen_after {config : FaultConfig} {cooldown : Duration} {calls : List Call} {c : Call}
    {a : AgentId} (hopen : (Trace.run step (new config cooldown) calls).state a = .open)
    (hpost : ((Trace.run step (new config cooldown) calls).step c).2.state a = .halfOpen) :
    ∃ t₀, lastOpened a (Trace.trace step (new config cooldown) calls) = some t₀ ∧
      BreakerState.cooldownChrono cooldown ≤ c.now - t₀ := by
  obtain ⟨rfl, ⟨-, helapsed⟩ | hreset⟩ := leaves_open hopen (by rw [hpost]; decide)
  · exact helapsed
  · rw [state_step_self, hreset] at hpost
    cases hpost

/-- `k` failures of agent 1 at time 0. -/
def failures (k : ℕ) : List Call := List.replicate k ⟨.recordFailure, ⟨1⟩, 0⟩

/-- Below the threshold they are counted. -/
theorem entry_failures (config : FaultConfig) (cooldown : Duration) (k : ℕ)
    (hk : k < max config.circuitBreakerThreshold.toNat 1) :
    (Trace.run step (new config cooldown) (failures k)).entry ⟨1⟩ 0 =
      ⟨.closed, UInt32.ofNat k, 0⟩ := by
  have hmax : config.circuitBreakerThreshold.toNat < 2 ^ 32 := UInt32.toNat_lt _
  induction k with
  | zero => rfl
  | succ k ih =>
    have hbelow : ¬ config.circuitBreakerThreshold ≤ UInt32.ofNat k + 1 := by
      rw [UInt32.le_iff_toNat_le, UInt32.toNat_add, UInt32.toNat_ofNat', UInt32.toNat_one]
      omega
    rw [failures, List.replicate_succ', Trace.run_concat, entry_step_self (by decide), ← failures,
      ih (by omega)]
    simp only [Op.onState, BreakerState.recordFailure, run_config, ge_iff_le, if_neg hbelow]
    rw [UInt32.ofNat_add]
    rfl

/-- Just enough of them to open the circuit. -/
def tripping (config : FaultConfig) : List Call :=
  failures (max config.circuitBreakerThreshold.toNat 1)

theorem entry_tripping (config : FaultConfig) (cooldown : Duration) :
    ((Trace.run step (new config cooldown) (tripping config)).entry ⟨1⟩ 0).state = .open ∧
      ((Trace.run step (new config cooldown) (tripping config)).entry ⟨1⟩ 0).lastStateChange =
        0 := by
  have hmax : config.circuitBreakerThreshold.toNat < 2 ^ 32 := UInt32.toNat_lt _
  obtain ⟨k, hk⟩ : ∃ k, max config.circuitBreakerThreshold.toNat 1 = k + 1 :=
    ⟨max config.circuitBreakerThreshold.toNat 1 - 1, by omega⟩
  have hreached : config.circuitBreakerThreshold ≤ UInt32.ofNat k + 1 := by
    rw [UInt32.le_iff_toNat_le, UInt32.toNat_add, UInt32.toNat_ofNat', UInt32.toNat_one]
    omega
  rw [tripping, hk, failures, List.replicate_succ', Trace.run_concat,
    entry_step_self (by decide), ← failures, entry_failures config cooldown k (by omega)]
  simp only [Op.onState, BreakerState.recordFailure, run_config, ge_iff_le, if_pos hreached,
    and_self]

/-- An OPEN circuit has an entry, whatever the clock says. -/
theorem entry_of_open {cb : CircuitBreaker} {a : AgentId} {now : DateTime}
    (h : (cb.entry a now).state = .open) (now' : DateTime) : cb.entry a now' = cb.entry a now := by
  unfold entry at h ⊢
  cases hl : cb.breakers.lookup a with
  | none => rw [hl] at h; cases h
  | some s => rfl

/-- The request that the breaker lets through 30 s later. -/
def earlyProbe : Call := ⟨.allowRequest, ⟨1⟩, (Duration.secs 30 : ℕ)⟩

theorem not_keepsCooldown (config : FaultConfig) {cooldown : Duration}
    (hlarge : chronoMax < cooldown) : ¬ KeepsCooldown config cooldown := by
  intro h
  have hchrono : BreakerState.cooldownChrono cooldown = (Duration.secs 30 : ℕ) := by
    rw [BreakerState.cooldownChrono, chronoFromStd_of_lt hlarge]
    rfl
  obtain ⟨hopen, hstamp⟩ := entry_tripping config cooldown
  have hprobe : ((Trace.run step (new config cooldown) (tripping config)).step
      earlyProbe).2.state ⟨1⟩ = .halfOpen := by
    refine (state_step_self (c := earlyProbe)).trans ?_
    rw [show earlyProbe.agent = ⟨1⟩ from rfl, entry_of_open hopen]
    simp only [earlyProbe, Op.onState, BreakerState.allowRequest, hopen, run_cooldown, hchrono,
      hstamp, sub_zero, ge_iff_le, le_refl, if_true]
  have hclock : (tripping config ++ [earlyProbe]).Pairwise fun c c' => c.now ≤ c'.now := by
    rw [List.pairwise_append]
    refine ⟨List.pairwise_replicate.mpr (Or.inr le_rfl), List.pairwise_singleton _ _, ?_⟩
    intro c hc c' hc'
    rw [List.eq_of_mem_replicate hc, List.mem_singleton.mp hc']
    exact Int.natCast_nonneg _
  obtain ⟨t₀, ht₀, hle⟩ := h _ _ _ hclock ((state_eq_entry _ _ 0).trans hopen) hprobe
  have htracked := (tracked_run config cooldown (tripping config) ⟨1⟩).opened 0 hopen
  obtain rfl := Option.some.inj (ht₀.symm.trans htracked)
  rw [hstamp, zero_add] at hle
  have hmax : cooldown ≤ Duration.secs 30 := Int.ofNat_le.mp hle
  exact hlarge.not_ge (hmax.trans (by decide))

theorem keepsCooldown_iff (config : FaultConfig) (cooldown : Duration) :
    KeepsCooldown config cooldown ↔ cooldown ≤ chronoMax := by
  refine ⟨fun h => not_lt.mp fun hlarge => not_keepsCooldown config hlarge h, ?_⟩
  intro hfits calls c a _ hopen hpost
  obtain ⟨t₀, ht₀, hle⟩ := halfOpen_after hopen hpost
  rw [BreakerState.cooldownChrono_of_le hfits] at hle
  exact ⟨t₀, ht₀, by linarith⟩

end CircuitBreaker

/-! ### The heartbeat timeout -/

namespace HeartbeatMonitor
open F64
variable {F : Type} [F64 F]

variable (F) in
/-- When the timeout can be computed, in no run does a check leave an agent suspected or dead
    before it has elapsed since a heartbeat of the agent was accepted. -/
def KeepsTimeout (config : FaultConfig) : Prop :=
  (new config : HeartbeatMonitor F).timeout ≤ maxDuration →
  ∀ (calls : List (Call F)) (hs : Collections.RandomState AgentId) (now : DateTime) (a : AgentId)
    (s : AgentHeartbeatState F),
    (calls ++ [Call.mk (.checkAll hs) now]).Pairwise (fun c c' : Call F => c.now ≤ c'.now) →
    ((Trace.run step (new config) calls).step ⟨.checkAll hs, now⟩).2.agents.lookup a = some s →
    s.status ≠ .alive →
    ∀ x ∈ Trace.trace step (new config) calls, accepts a x = true →
      x.ev.now + (new config : HeartbeatMonitor F).timeout ≤ now

theorem run_checkTimeout (config : FaultConfig) (calls : List (Call F)) :
    (Trace.run step (new config) calls).checkTimeout =
      (new config : HeartbeatMonitor F).checkTimeout :=
  Trace.run_invariant step
    (P := fun m => m.checkTimeout = (new config : HeartbeatMonitor F).checkTimeout) rfl
    (fun m c h => by rw [step_timeout]; exact h) calls

/-- The entry of a tracked agent after a call is that of before, or was touched by the call. -/
theorem lastSeen_onEntry {timeout : ℤ} {a : AgentId} {c : Call F}
    {o : Option (AgentHeartbeatState F)} {s : AgentHeartbeatState F}
    (h : c.onEntry timeout a o = some s) :
    (∃ s₀, o = some s₀ ∧ s.lastSeen = s₀.lastSeen) ∨ s.lastSeen = c.now := by
  obtain ⟨op, now⟩ := c
  cases op with
  | recordHeartbeat msg =>
    simp only [Call.onEntry] at h
    split_ifs at h
    · obtain rfl := Option.some.inj h
      rw [AgentHeartbeatState.accept]
      split_ifs
      · exact Or.inr rfl
      · cases o with
        | none => exact Or.inr rfl
        | some s₀ => exact Or.inl ⟨s₀, rfl, rfl⟩
    · exact Or.inl ⟨s, h, rfl⟩
  | checkAll hs =>
    obtain ⟨s₀, ho, rfl⟩ := Option.map_eq_some_iff.mp h
    exact Or.inl ⟨s₀, ho, rfl⟩
  | removeAgent agent =>
    simp only [Call.onEntry] at h
    split_ifs at h
    exact Or.inl ⟨s, h, rfl⟩

/-- An accepted heartbeat is when its agent was last seen. -/
theorem lastSeen_of_accepts {m : HeartbeatMonitor F} {c : Call F} {a : AgentId}
    {s : AgentHeartbeatState F}
    (haccepts : accepts a ⟨m, c, (m.step c).1, (m.step c).2⟩ = true)
    (hs : (m.step c).2.agents.lookup a = some s) : s.lastSeen = c.now := by
  rw [lookup_step] at hs
  obtain ⟨op, now⟩ := c
  cases op with
  | recordHeartbeat msg =>
    simp only [accepts, Bool.and_eq_true, decide_eq_true_eq] at haccepts
    obtain ⟨hsrc, hseq⟩ := haccepts
    simp only [Call.onEntry, if_pos hsrc] at hs
    obtain rfl := Option.some.inj hs
    have hnew : msg.sequence > ((m.agents.lookup a).getD (.new now)).lastSequence := by
      cases hl : m.agents.lookup a <;> rw [hl] at hseq <;> exact hseq
    rw [AgentHeartbeatState.accept, if_pos hnew]
  | checkAll hs => cases haccepts
  | removeAgent agent => cases haccepts

/-- A tracked agent was last seen no earlier than its last accepted heartbeat. -/
theorem accepted_le_lastSeen (config : FaultConfig) (calls : List (Call F))
    (hclock : calls.Pairwise fun c c' => c.now ≤ c'.now) (a : AgentId)
    (s : AgentHeartbeatState F)
    (hs : (Trace.run step (new config) calls).agents.lookup a = some s) :
    ∀ x ∈ Trace.trace step (new config) calls, accepts a x = true → x.ev.now ≤ s.lastSeen := by
  induction calls using List.reverseRecOn generalizing s with
  | nil => simp [Trace.trace]
  | append_singleton calls c ih =>
    obtain ⟨hpre, -, hlast⟩ := List.pairwise_append.mp hclock
    rw [Trace.run_concat] at hs
    rw [Trace.trace_concat]
    intro x hx haccepts
    rcases List.mem_append.mp hx with hx | hx
    · rcases lastSeen_onEntry ((lookup_step _ c a).symm.trans hs) with ⟨s₀, ho, hseen⟩ | hseen
      · rw [hseen]
        exact ih hpre s₀ ho x hx haccepts
      · rw [hseen]
        exact hlast x.ev (Trace.ev_mem_of_mem_trace step hx) c (List.mem_singleton_self c)
    · obtain rfl := List.mem_singleton.mp hx
      exact (lastSeen_of_accepts haccepts hs).ge

/-- A first heartbeat of agent 1, at time 0. -/
def firstHeartbeat : Call F := ⟨.recordHeartbeat ⟨⟨1⟩, 1, 0, 0⟩, 0⟩

theorem not_keepsTimeout {config : FaultConfig}
    (hlarge : chronoMax < (new config : HeartbeatMonitor F).timeout)
    (hmax : (new config : HeartbeatMonitor F).timeout ≤ maxDuration) : ¬ KeepsTimeout F config := by
  intro h
  have hchrono : (new config : HeartbeatMonitor F).checkTimeout = (Duration.secs 3 : ℕ) := by
    rw [checkTimeout, chronoFromStd_of_lt hlarge]
    rfl
  let check : Call F := ⟨.checkAll (.insertion _), (Duration.secs 4 : ℕ)⟩
  have hlookup : ((Trace.run step (new config) [firstHeartbeat]).step check).2.agents.lookup
      ⟨1⟩ = some (recheck (Duration.secs 3 : ℕ) (Duration.secs 4 : ℕ)
        (AgentHeartbeatState.mk 1 0 0 (0 : F) .alive)) := by
    have hfirst : (Trace.run step (new config) [firstHeartbeat]).agents.lookup ⟨1⟩ =
        some (AgentHeartbeatState.mk 1 0 0 (0 : F) .alive) := rfl
    rw [lookup_step, run_checkTimeout, hchrono, hfirst]
    rfl
  have hclock : ([firstHeartbeat] ++ [check]).Pairwise
      fun c c' : Call F => c.now ≤ c'.now := by
    rw [List.singleton_append, List.pairwise_pair]
    exact Int.natCast_nonneg _
  have hsuspected : verdict (Duration.secs 3 : ℕ) ((Duration.secs 4 : ℕ) - 0) ≠ .alive := by decide
  have hle := h hmax [firstHeartbeat] (.insertion _) (Duration.secs 4 : ℕ) ⟨1⟩ _ hclock hlookup
    hsuspected _ List.mem_cons_self rfl
  rw [show (firstHeartbeat : Call F).now = 0 from rfl, zero_add] at hle
  exact hlarge.not_ge ((Int.ofNat_le.mp hle).trans (by decide))

theorem keepsTimeout_iff (config : FaultConfig) :
    KeepsTimeout F config ↔ (new config : HeartbeatMonitor F).timeout ≤ chronoMax ∨
      maxDuration < (new config : HeartbeatMonitor F).timeout := by
  refine ⟨fun h => ?_, fun hrange hmax calls hs now a s hclock hlookup hstatus x hx haccepts => ?_⟩
  · by_contra hlarge
    obtain ⟨hlarge, hmax⟩ := not_or.mp hlarge
    exact not_keepsTimeout (not_le.mp hlarge) (not_lt.mp hmax) h
  have hfits := hrange.resolve_right hmax.not_gt
  rw [lookup_step, run_checkTimeout, checkTimeout_of_le hfits] at hlookup
  obtain ⟨s₀, hs₀, rfl⟩ := Option.map_eq_some_iff.mp hlookup
  have hseen := accepted_le_lastSeen config calls (List.pairwise_append.mp hclock).1 a s₀ hs₀ x hx
    haccepts
  have helapsed : ¬ now - s₀.lastSeen ≤ (new config : HeartbeatMonitor F).timeout := by
    intro hle
    exact hstatus (if_pos hle)
  linarith [not_le.mp helapsed]

end HeartbeatMonitor

/-! ### The detection window -/

namespace PoisonDetector
open Collections SlidingWindow

/-- What some records say about their task. -/
def judge (config : FaultConfig) (records : List FailureRecord) : PoisonStatus :=
  let n := UInt32.ofNat (distinctAgents records)
  if n ≥ config.poisonAgentThreshold then .poisoned
  else if n ≥ 2 then .suspected
  else .healthy

/-- In no run does a failure of a task that is not yet poisoned leave out of its count a failure
    that was recorded since the last clear and is not older than the detection window. -/
def KeepsWindow (config : FaultConfig) : Prop :=
  ∀ (cs : List Call) (t : Uuid) (a : AgentId) (now : DateTime),
    (cs ++ [Call.mk (.recordFailure a) t now]).Pairwise (fun c c' : Call => c.now ≤ c'.now) →
    ((new config).runCalls (cs ++ [⟨.recordFailure a, t, now⟩])).isSome →
    t ∉ ((new config).applyAll cs).poisoned →
    ∃ counted, (((new config).applyAll cs).recordFailure t a now).2.failures.lookup t =
        some counted ∧
      (((new config).applyAll cs).recordFailure t a now).1 = judge config counted ∧
      ∀ r ∈ reported (sinceClear t cs) ++ [⟨a, now⟩],
        now - (config.poisonDetectionWindow : ℤ) ≤ r.timestamp → r ∈ counted

/-- The records that a failure counts are those it keeps. -/
theorem recordFailure_counts {d : PoisonDetector} {t : Uuid} (h : t ∉ d.poisoned) (a : AgentId)
    (now : DateTime) :
    (d.recordFailure t a now).2.failures.lookup t =
        some ((d.entry t).pruned d.config a now) ∧
      (d.recordFailure t a now).1 = judge d.config ((d.entry t).pruned d.config a now) := by
  constructor
  · rw [recordFailure_eq h]
    exact AList.lookup_insert _
  · unfold recordFailure judge Entry.pruned entry
    rw [if_neg h]
    dsimp only
    split_ifs <;> rfl

theorem window_nonneg (config : FaultConfig) : 0 ≤ window config := by
  rw [window, chronoFromStd]
  split_ifs
  · exact Int.natCast_nonneg _
  · exact Int.natCast_nonneg _

/-- A failure is in its own window. -/
theorem pruned_of_none {config : FaultConfig} {e : Entry} (h : e.records = none) (a : AgentId)
    (now : DateTime) : e.pruned config a now = [⟨a, now⟩] := by
  rw [Entry.pruned, h]
  simp [window_nonneg config]

/-- With a threshold of at most one agent the first failure poisons, and nothing is kept of a task
    that is not poisoned. -/
theorem nothing_kept {config : FaultConfig} (h : config.poisonAgentThreshold.toNat ≤ 1) (t : Uuid)
    (cs : List Call) : (((new config).applyAll cs).entry t).poisoned = false →
      (((new config).applyAll cs).entry t).records = none ∧ reported (sinceClear t cs) = [] := by
  induction cs using List.reverseRecOn with
  | nil => exact fun _ => ⟨rfl, rfl⟩
  | append_singleton cs c ih =>
    rw [applyAll_concat, entry_apply, applyAll_config, sinceClear_concat]
    rcases eq_or_ne c.taskId t with ht | ht
    · rw [if_pos ht, if_pos ht]
      obtain ⟨op, t', now⟩ := c
      cases op with
      | recordFailure a =>
        -- the task was poisoned before, or is now
        intro hcalm
        have hentry : Call.onEntry config (((new config).applyAll cs).entry t)
            ⟨.recordFailure a, t', now⟩ = if (((new config).applyAll cs).entry t).poisoned then
              ((new config).applyAll cs).entry t
            else ⟨some ((((new config).applyAll cs).entry t).pruned config a now),
              reaches config ((((new config).applyAll cs).entry t).pruned config a now)⟩ := rfl
        rw [show (new config).config = config from rfl, hentry] at hcalm
        cases hp : (((new config).applyAll cs).entry t).poisoned with
        | true =>
          rw [hp, if_pos rfl, hp] at hcalm
          cases hcalm
        | false =>
          rw [hp, pruned_of_none (ih hp).1] at hcalm
          have hreaches : reaches config [⟨a, now⟩] = true := by
            rw [reaches, decide_eq_true_iff, ge_iff_le, UInt32.le_iff_toNat_le]
            exact h
          rw [if_neg (by decide), hreaches] at hcalm
          cases hcalm
      | forcePoison => exact fun hcalm => by cases hcalm
      | clear => exact fun _ => ⟨rfl, rfl⟩
      | status | isPoisoned | allowRetry =>
        intro hcalm
        rw [if_neg (fun h => by cases h), reported_concat]
        exact ⟨(ih hcalm).1, by rw [(ih hcalm).2]; rfl⟩
    · rw [if_neg ht, if_neg ht]
      exact ih

/-- A failure at a time from 0 on is within the range of `DateTime`, one minute earlier too. -/
theorem returns_of_nonneg {d : PoisonDetector} (hwindow : window d.config = (Duration.secs 60 : ℕ))
    {t : Uuid} {a : AgentId} {now : DateTime} (h : 0 ≤ now) :
    d.returns ⟨.recordFailure a, t, now⟩ = true := by
  have hmin : DateTime.minUtc ≤ 0 - (Duration.secs 60 : ℕ) := by decide
  have hrange : DateTime.minUtc ≤ now - window d.config := by
    rw [hwindow]
    exact hmin.trans (sub_le_sub_right h _)
  simp [returns, cutoff, hrange]

/-- A failure at time 0, and the next one 61 s later. -/
def firstFailure : Call := ⟨.recordFailure ⟨1⟩, 0, 0⟩

def laterFailure : Call := ⟨.recordFailure ⟨2⟩, 0, (Duration.secs 61 : ℕ)⟩

theorem not_keepsWindow {config : FaultConfig} (hlarge : chronoMax < config.poisonDetectionWindow)
    (hthreshold : 2 ≤ config.poisonAgentThreshold.toNat) : ¬ KeepsWindow config := by
  intro hkeeps
  -- a window that chrono cannot hold becomes the 60 s of the fallback
  have hwindow : window config = (Duration.secs 60 : ℕ) := by
    rw [window, chronoFromStd_of_lt hlarge]
    rfl
  have hclock : ([firstFailure] ++ [laterFailure]).Pairwise
      fun c c' : Call => c.now ≤ c'.now := by
    rw [List.singleton_append, List.pairwise_pair]
    exact Int.natCast_nonneg _
  have hruns : ((new config).runCalls ([firstFailure] ++ [laterFailure])).isSome = true := by
    have hfirst : (new config).returns firstFailure = true := returns_of_nonneg hwindow le_rfl
    have hlater : ((new config).apply firstFailure).returns laterFailure = true :=
      returns_of_nonneg (by rw [apply_config]; exact hwindow) (Int.natCast_nonneg _)
    rw [List.singleton_append, runCalls, if_pos hfirst, runCalls, if_pos hlater]
    rfl
  -- one agent does not reach the threshold
  have hcalm : (0 : Uuid) ∉ ((new config).applyAll [firstFailure]).poisoned := by
    have hreaches : reaches config [⟨⟨1⟩, 0⟩] = false := by
      rw [reaches, decide_eq_false_iff_not, ge_iff_le, UInt32.le_iff_toNat_le]
      exact not_le.mpr hthreshold
    have hentry : ((new config).applyAll [firstFailure]).entry 0 =
        Call.onEntry config ⟨none, false⟩ firstFailure := entry_apply (new config) firstFailure 0
    have hpoisoned : (((new config).applyAll [firstFailure]).entry 0).poisoned = false := by
      have hfirst : (Call.onEntry config ⟨none, false⟩ firstFailure).poisoned =
          reaches config (Entry.pruned ⟨none, false⟩ config ⟨1⟩ 0) := rfl
      rw [hentry, hfirst, pruned_of_none rfl, hreaches]
    exact of_decide_eq_false hpoisoned
  -- 61 s later the first failure is in the configured window, and no longer counted
  obtain ⟨counted, hlookup, -, hcounted⟩ := hkeeps [firstFailure] 0 ⟨2⟩ _ hclock hruns hcalm
  rw [(recordFailure_counts hcalm _ _).1] at hlookup
  obtain rfl := Option.some.inj hlookup
  have hlong : (Duration.secs 61 : ℤ) ≤ (config.poisonDetectionWindow : ℤ) :=
    Int.ofNat_le.mpr (le_trans (by decide) hlarge.le)
  have hin := (List.mem_filter.mp (hcounted ⟨⟨1⟩, 0⟩ List.mem_cons_self
    (sub_nonpos.mpr hlong))).2
  rw [decide_eq_true_iff, applyAll_config, show (new config).config = config from rfl,
    hwindow] at hin
  exact absurd hin (by decide)

theorem keepsWindow_iff (config : FaultConfig) :
    KeepsWindow config ↔
      config.poisonDetectionWindow ≤ chronoMax ∨ config.poisonAgentThreshold.toNat ≤ 1 := by
  constructor
  · intro hkeeps
    by_contra hlarge
    obtain ⟨hwindow, hthreshold⟩ := not_or.mp hlarge
    exact not_keepsWindow (not_le.mp hwindow) (by omega) hkeeps
  · intro h cs t a now hclock _ hcalm
    have hcs := (List.pairwise_append.mp hclock).1
    have hp : (((new config).applyAll cs).entry t).poisoned = false := decide_eq_false hcalm
    obtain ⟨hlookup, hjudged⟩ := recordFailure_counts hcalm a now
    rw [applyAll_config] at hlookup hjudged
    refine ⟨_, hlookup, hjudged, ?_⟩
    -- a window that fits prunes what is outside it; a threshold of one keeps no records at all
    rcases h with hfits | hthreshold
    · have hnow : ∀ r ∈ reported (sinceClear t cs), r.timestamp ≤ now := by
        intro r hr
        obtain ⟨c, hc, -, hr⟩ := mem_reported hr
        rw [← hr]
        exact (List.pairwise_append.mp hclock).2.2 c (sinceClear_subset hc) _
          (List.mem_singleton_self _)
      have hpruned := (summarises_applyAll hfits t hcs).pruned (a := a) hfits hp hnow
      rw [show (new config).config = config from rfl, hpruned]
      intro r hr hin
      exact List.mem_filter.mpr ⟨hr, decide_eq_true hin⟩
    · obtain ⟨hnone, hlog⟩ := nothing_kept hthreshold t cs hp
      rw [pruned_of_none hnone, hlog]
      exact fun r hr _ => hr

end PoisonDetector

/-! ### The three together -/

/-- Which configured periods are kept in every run under a clock that never goes back. -/
theorem periods_kept_iff (F : Type) [F64 F] (config : FaultConfig) (cooldown : Duration) :
    (CircuitBreaker.KeepsCooldown config cooldown ↔ cooldown ≤ chronoMax) ∧
    (HeartbeatMonitor.KeepsTimeout F config ↔
      (HeartbeatMonitor.new config : HeartbeatMonitor F).timeout ≤ chronoMax ∨
        F64.maxDuration < (HeartbeatMonitor.new config : HeartbeatMonitor F).timeout) ∧
    (PoisonDetector.KeepsWindow config ↔
      config.poisonDetectionWindow ≤ chronoMax ∨ config.poisonAgentThreshold.toNat ≤ 1) :=
  ⟨CircuitBreaker.keepsCooldown_iff config cooldown, HeartbeatMonitor.keepsTimeout_iff config,
    PoisonDetector.keepsWindow_iff config⟩

/-- `Duration::MAX` for each of them. -/
theorem longest_periods_shortened :
    ¬ CircuitBreaker.KeepsCooldown .default F64.maxDuration ∧
    ¬ HeartbeatMonitor.KeepsTimeout ℚ { FaultConfig.default with
      heartbeatInterval := F64.maxDuration, heartbeatTimeoutMultiplier := 1 } ∧
    ¬ PoisonDetector.KeepsWindow { FaultConfig.default with
      poisonDetectionWindow := F64.maxDuration } :=
  ⟨CircuitBreaker.not_keepsCooldown .default (by decide),
    HeartbeatMonitor.not_keepsTimeout (by decide) (by decide),
    PoisonDetector.not_keepsWindow (by decide) (by decide)⟩

end ATP
