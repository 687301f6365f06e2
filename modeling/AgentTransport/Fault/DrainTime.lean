import AgentTransport.Fault.Backpressure
import AgentTransport.Lib.Exact
import AgentTransport.Lib.MovingAverage

/-! When the backpressure queries return. They divide the queue depth by an average of the reported
    rates and hand the seconds to `Duration::from_secs_f64`. An average that is not positive counts
    as no processing at all; a positive one that is small enough is a panic:

        average ≤ 0                       one hour
        0 < average ≤ about depth / 2^64  panic
        above that                        depth / average

    An agent that reports a rate of 0 is in the second line after some reports. -/

namespace ATP
open F64 Collections MovingAverage

namespace AgentLoadTracker

section Runs
variable {F : Type} [F64 F]

/-- What is reported about the load of an agent. -/
inductive Event (F : Type) where
  | update (agent : AgentId) (queueDepth : UInt32) (processingRate : Option F)
  | heartbeat (msg : HeartbeatMsg F)
  | backpressure (msg : BackpressureMsg F)

namespace Event

def agent : Event F → AgentId
  | .update agent _ _ => agent
  | .heartbeat msg => msg.src
  | .backpressure msg => msg.src

def queueDepth : Event F → UInt32
  | .update _ queueDepth _ => queueDepth
  | .heartbeat msg => msg.queueDepth
  | .backpressure msg => msg.queueDepth

/-- The reported rate, or what stands in for it. -/
def rate : Event F → Option F
  | .update _ _ processingRate => processingRate
  | .heartbeat msg => some (lit 10 * F64.max (1 - msg.loadFactor) (lit (1 / 100)))
  | .backpressure msg => some msg.recommendedRate

end Event

/-- An event is handled at the time the clock shows. -/
def handle (tr : AgentLoadTracker F) (e : Event F × DateTime) : AgentLoadTracker F :=
  match e.1 with
  | .update agent queueDepth processingRate => tr.update agent queueDepth processingRate e.2
  | .heartbeat msg => tr.updateFromHeartbeat msg e.2
  | .backpressure msg => tr.updateFromBackpressure msg e.2

/-- The tracker after a run. -/
def after (config : FaultConfig) (events : List (Event F × DateTime)) : AgentLoadTracker F :=
  events.foldl handle (new config)

/-- The events of one agent. -/
def ofAgent (a : AgentId) (events : List (Event F × DateTime)) : List (Event F × DateTime) :=
  events.filter fun e => e.1.agent = a

/-- The rates that were reported for an agent. -/
def rates (a : AgentId) (events : List (Event F × DateTime)) : List F :=
  (ofAgent a events).filterMap fun e => e.1.rate

/-- Every event is an update of its agent. -/
theorem handle_eq (tr : AgentLoadTracker F) (e : Event F × DateTime) :
    tr.handle e = tr.update e.1.agent e.1.queueDepth e.1.rate e.2 := by
  obtain ⟨event, now⟩ := e
  cases event <;> rfl

theorem after_concat (config : FaultConfig) (events : List (Event F × DateTime))
    (e : Event F × DateTime) : after config (events ++ [e]) = (after config events).handle e := by
  rw [after, List.foldl_append]
  rfl

theorem config_after (config : FaultConfig) (events : List (Event F × DateTime)) :
    (after config events).config = config := by
  induction events using List.reverseRecOn with
  | nil => rfl
  | append_singleton events e ih => rw [after_concat, handle_eq, update, ih]

theorem lookup_after_concat (config : FaultConfig) (events : List (Event F × DateTime))
    (e : Event F × DateTime) (a : AgentId) :
    (after config (events ++ [e])).agents.lookup a =
      if a = e.1.agent then
        some ((((after config events).agents.lookup a).getD (.new e.2)).report e.2 e.1.queueDepth
          e.1.rate)
      else (after config events).agents.lookup a := by
  rw [after_concat, handle_eq, update, lookup_upsert]
  split_ifs with h
  · rw [h]
  · rfl

omit [F64 F] in
theorem ofAgent_concat (a : AgentId) (events : List (Event F × DateTime))
    (e : Event F × DateTime) : ofAgent a (events ++ [e]) =
      if a = e.1.agent then ofAgent a events ++ [e] else ofAgent a events := by
  rw [ofAgent, List.filter_append]
  split_ifs with h
  · simp [ofAgent, h]
  · simp [ofAgent, Ne.symm h]

theorem rates_concat {a : AgentId} {events : List (Event F × DateTime)} {e : Event F × DateTime}
    (h : a = e.1.agent) : rates a (events ++ [e]) = rates a events ++ e.1.rate.toList := by
  rw [rates, ofAgent_concat, if_pos h, List.filterMap_append, rates]
  cases hrate : e.1.rate <;> simp [hrate]

end Runs

section Exact
variable {K : Type} [Field K] [LinearOrder K] [IsStrictOrderedRing K] [FloorRing K]
  {config : FaultConfig} {events : List (Event K × DateTime)} {tr : AgentLoadTracker K}
  {a : AgentId}

/-- The average of the rates reported for an agent; the default rate is 1. -/
def averageRate (a : AgentId) (events : List (Event K × DateTime)) : K :=
  average (lit (3 / 10)) 1 (rates a events)

omit [IsStrictOrderedRing K] in
/-- One more report moves the average. -/
theorem averageRate_concat {e : Event K × DateTime} (h : a = e.1.agent) (load : AgentLoad K)
    (hload : load.processingRate = averageRate a events) :
    (load.report e.2 e.1.queueDepth e.1.rate).processingRate = averageRate a (events ++ [e]) := by
  rw [averageRate, rates_concat h]
  cases e.1.rate with
  | none =>
    rw [Option.toList_none, List.append_nil, ← averageRate, ← hload]
    rfl
  | some rate =>
    have hreport : (load.report e.2 e.1.queueDepth (some rate)).processingRate =
      lit (7 / 10) * load.processingRate + lit (3 / 10) * rate := rfl
    rw [hreport, hload, Option.toList_some, average_concat, ← averageRate, lit_field, lit_field]
    norm_num

omit [IsStrictOrderedRing K] in
/-- The load of an agent is what was reported last, and the average of all its rates. -/
theorem lookup_after (config : FaultConfig) (events : List (Event K × DateTime)) (a : AgentId) :
    (after config events).agents.lookup a = (ofAgent a events).getLast?.map fun e =>
      ⟨e.1.queueDepth, averageRate a events, e.2⟩ := by
  induction events using List.reverseRecOn with
  | nil => rfl
  | append_singleton events e ih =>
    rw [lookup_after_concat, ih, ofAgent_concat]
    split_ifs with h
    · rw [List.getLast?_concat, Option.map_some, ← averageRate_concat h]
      · rfl
      · cases hlast : (ofAgent a events).getLast? with
        | none =>
          have hnone : rates a events = [] := by
            rw [rates, List.getLast?_eq_none_iff.mp hlast, List.filterMap_nil]
          rw [averageRate, hnone, average_nil]
          rfl
        | some last => rfl
    · have hsame : averageRate a (events ++ [e]) = averageRate a events := by
        rw [averageRate, rates, ofAgent_concat, if_neg h, averageRate, rates]
      rw [hsame]

/-! ### When a query returns -/

/-- The drain time of a queue is no time at all, or fits a duration. -/
def Drains (queueDepth : UInt32) (rate : K) : Prop :=
  rate ≤ 0 ∨ lit queueDepth.toNat * lit (10 ^ 9) < lit (2 ^ 64 * 10 ^ 9 - 1 / 2) * rate

omit [IsStrictOrderedRing K] in
theorem drains_iff {queueDepth : UInt32} {rate : K} : Drains queueDepth rate ↔
    rate ≤ 0 ∨ (queueDepth.toNat : K) * 10 ^ 9 < (2 ^ 64 * 10 ^ 9 - 1 / 2) * rate := by
  simp only [Drains, lit_field]
  push_cast
  rfl

theorem isSome_drain_iff {queueDepth : UInt32} {rate : K} (h : 0 < rate) :
    (fromSecs (lit queueDepth.toNat / rate : K)).isSome ↔ Drains queueDepth rate := by
  rw [fromSecs_isSome_iff, lit_field, Rat.cast_natCast, drains_iff, or_iff_right h.not_ge,
    div_mul_eq_mul_div, div_lt_iff₀ h, and_iff_right (div_nonneg (Nat.cast_nonneg _) h.le)]

theorem signal_isSome_iff {now : DateTime} : (tr.signal a now).isSome ↔
    ∀ load, tr.agents.lookup a = some load → tr.config.backpressureThreshold < load.queueDepth →
      Drains load.queueDepth load.processingRate := by
  rw [signal]
  cases hl : tr.agents.lookup a with
  | none => simp
  | some load =>
    simp only [Option.some.injEq, forall_eq']
    by_cases hdepth : load.queueDepth ≤ tr.config.backpressureThreshold
    · rw [if_pos hdepth]
      exact iff_of_true rfl fun h => absurd hdepth (UInt32.not_le.mpr h)
    · have hover : tr.config.backpressureThreshold < load.queueDepth := UInt32.not_le.mp hdepth
      rw [if_neg hdepth, Option.isSome_map]
      by_cases hrate : 0 < load.processingRate
      · have hfinite : isFinite (lit load.queueDepth.toNat / load.processingRate : K) = true := rfl
        rw [if_pos hrate]
        simp only [hfinite, if_true, hover, forall_const]
        exact isSome_drain_iff hrate
      · rw [if_neg hrate]
        exact iff_of_true rfl fun _ => Or.inl (not_lt.mp hrate)

theorem overloadSignal_isSome_iff {load : AgentLoad K} {now : DateTime} :
    (overloadSignal a load now).isSome ↔ Drains load.queueDepth load.processingRate := by
  rw [overloadSignal, Option.isSome_map]
  split_ifs with hrate
  · exact isSome_drain_iff hrate
  · refine iff_of_true (fromSecs_isSome_iff.mpr ?_) (Or.inl (not_lt.mp hrate))
    norm_num

theorem overloadedAgents_isSome_iff {hs : RandomState AgentId} {clock : AgentId → DateTime} :
    (tr.overloadedAgents hs clock).isSome ↔ ∀ a load, tr.agents.lookup a = some load →
      tr.config.backpressureThreshold < load.queueDepth →
        Drains load.queueDepth load.processingRate := by
  rw [overloadedAgents, isSome_mapM_iff]
  constructor
  · intro h a load hl hover
    have hkey : a ∈ hs.order tr.agents.keys := by
      rw [hs.mem_order, ← AList.mem_keys, ← AList.lookup_isSome, hl]
      rfl
    have hmem : (a, load) ∈ (hs.order tr.agents.keys).filterMap fun id =>
        (tr.agents.lookup id).map fun load => (id, load) :=
      List.mem_filterMap.mpr ⟨a, hkey, by rw [hl]; rfl⟩
    exact overloadSignal_isSome_iff.mp
      (h (a, load) (List.mem_filter.mpr ⟨hmem, decide_eq_true hover⟩))
  · rintro h ⟨a, load⟩ hmem
    obtain ⟨hmem, hover⟩ := List.mem_filter.mp hmem
    obtain ⟨id, -, hid⟩ := List.mem_filterMap.mp hmem
    obtain ⟨load', hl, heq⟩ := Option.map_eq_some_iff.mp hid
    obtain ⟨rfl, rfl⟩ := Prod.mk.inj heq
    exact overloadSignal_isSome_iff.mpr (h id load' hl (of_decide_eq_true hover))

/-- Rates that are not tiny keep the average from being tiny. -/
theorem drains_of_rates {queueDepth : UInt32} (h : ∀ r ∈ rates a events, 1 / 2 ^ 31 ≤ r) :
    Drains queueDepth (averageRate a events) := by
  have haverage : 1 / 2 ^ 31 ≤ averageRate a events :=
    le_average (by norm_num) (by norm_num) (by norm_num) h
  have hdepth : (queueDepth.toNat : K) < 2 ^ 32 := by exact_mod_cast queueDepth.toNat_lt
  refine drains_iff.mpr (Or.inr ?_)
  calc (queueDepth.toNat : K) * 10 ^ 9 < 2 ^ 32 * 10 ^ 9 := by gcongr
    _ ≤ (2 ^ 64 * 10 ^ 9 - 1 / 2) * (1 / 2 ^ 31) := by norm_num
    _ ≤ (2 ^ 64 * 10 ^ 9 - 1 / 2) * averageRate a events :=
        mul_le_mul_of_nonneg_left haverage (by norm_num)

/-- When the backpressure queries return after a run: for every agent whose queue is above the
    threshold, the average of its rates is not positive, or fast enough. -/
theorem queries_return_iff (config : FaultConfig) (events : List (Event K × DateTime)) :
    ((∀ a now, ((after config events).signal a now).isSome) ∧
      ∀ hs clock, ((after config events).overloadedAgents hs clock).isSome) ↔
    ∀ a e, (ofAgent a events).getLast? = some e →
      config.backpressureThreshold < e.1.queueDepth →
        Drains e.1.queueDepth (averageRate a events) := by
  have hload : (∀ a load, (after config events).agents.lookup a = some load →
      (after config events).config.backpressureThreshold < load.queueDepth →
        Drains load.queueDepth load.processingRate) ↔
      ∀ a e, (ofAgent a events).getLast? = some e →
        config.backpressureThreshold < e.1.queueDepth →
          Drains e.1.queueDepth (averageRate a events) := by
    rw [config_after]
    refine forall_congr' fun a => ?_
    rw [lookup_after]
    cases (ofAgent a events).getLast? <;> simp
  rw [← hload]
  constructor
  · rintro ⟨hsignal, -⟩ a
    exact signal_isSome_iff.mp (hsignal a 0)
  · intro h
    exact ⟨fun a now => signal_isSome_iff.mpr (h a),
      fun hs clock => overloadedAgents_isSome_iff.mpr h⟩

end Exact

/-- One report of a rate of 2. -/
theorem queries_return_brisk :
    let events : List (Event ℚ × DateTime) := [(.update ⟨1⟩ 101 (some 2), 0)]
    (∀ a now, ((after .default events).signal a now).isSome) ∧
      ∀ hs clock, ((after .default events).overloadedAgents hs clock).isSome :=
  (queries_return_iff .default _).mpr fun a e _ _ => drains_of_rates fun r hr => by
    obtain ⟨e, he, hrate⟩ := List.mem_filterMap.mp hr
    obtain rfl := List.mem_singleton.mp (List.mem_of_mem_filter he)
    obtain rfl := Option.some.inj hrate
    norm_num

/-- An agent with 101 tasks in its queue that reports a rate of 0, 112 times. -/
theorem stalled_agent_panics :
    let stalled : Event ℚ × DateTime := (.update ⟨1⟩ 101 (some 0), 0)
    let tracker := after .default (List.replicate 112 stalled)
    ¬ (tracker.signal ⟨1⟩ 0).isSome ∧
      ¬ (tracker.overloadedAgents (.insertion _) fun _ => 0).isSome := by
  decide +kernel

end AgentLoadTracker

end ATP
