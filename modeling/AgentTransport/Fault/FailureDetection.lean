import AgentTransport.Fault.HeartbeatRuns

/-! Failure detection by the heartbeat monitor.

    Under a clock that never goes back a check finds every agent as silent as it is. The stored
    status never is worse than the silence, so a check can only find an agent worse than before: it
    reports each level of silence at most once until the agent is heard of again, and no
    recovery. -/

namespace ATP
namespace HeartbeatMonitor
open F64 Collections
variable {F : Type}

/-- The call is a heartbeat of the agent that the monitor accepts. -/
def accepts (a : AgentId) (x : Step F) : Bool :=
  match x.ev.op with
  | .recordHeartbeat msg => decide (msg.src = a) &&
    decide (msg.sequence > ((x.pre.agents.lookup a).map (·.lastSequence)).getD 0)
  | _ => false

/-- The call is a heartbeat of the agent with which the monitor begins to track it. -/
def admits (a : AgentId) (x : Step F) : Bool :=
  match x.ev.op with
  | .recordHeartbeat msg => decide (msg.src = a) && (x.pre.agents.lookup a).isNone
  | _ => false

/-- The statuses a list of changes reports for an agent. -/
def reported (a : AgentId) (changed : List (AgentId × HeartbeatStatus)) : List HeartbeatStatus :=
  changed.filterMap fun p => if p.1 = a then some p.2 else none

/-- The statuses some steps report for an agent. -/
def reports (a : AgentId) (tr : List (Step F)) : List HeartbeatStatus :=
  tr.flatMap fun x => reported a x.out

/-- How bad a status is. -/
def rank : HeartbeatStatus → ℕ
  | .alive => 0
  | .suspected => 1
  | .dead => 2

/-- What can still be reported for an agent that is not heard of. -/
def ahead : Option HeartbeatStatus → List HeartbeatStatus
  | some .alive => [.suspected, .dead]
  | some .suspected => [.dead]
  | some .dead => []
  | none => []

theorem ahead_sublist (o : Option HeartbeatStatus) : (ahead o).Sublist [.suspected, .dead] := by
  rcases o with _ | _ | _ | _ <;> decide

theorem ahead_of_rank_lt {st st' : HeartbeatStatus} (h : rank st < rank st') :
    ([st'] ++ ahead (some st')).Sublist (ahead (some st)) := by
  cases st <;> cases st' <;> simp [rank] at h ⊢ <;> decide

theorem rank_injective {st st' : HeartbeatStatus} (h : rank st = rank st') : st = st' := by
  cases st <;> cases st' <;> first | rfl | cases h

/-- Longer silence is no better. -/
theorem rank_verdict_mono {timeout elapsed elapsed' : ℤ} (h : elapsed ≤ elapsed') :
    rank (verdict timeout elapsed) ≤ rank (verdict timeout elapsed') := by
  unfold verdict
  split_ifs <;> simp [rank] <;> omega

section Check
variable {timeout : ℤ} {now : DateTime} {agents : HashMap AgentId (AgentHeartbeatState F)}

theorem change_fst {id : AgentId} {p : AgentId × HeartbeatStatus}
    (h : change timeout now agents id = some p) : p.1 = id := by
  unfold change at h
  cases hl : agents.lookup id with
  | none => simp [hl] at h
  | some s =>
    simp only [hl] at h
    split_ifs at h
    rw [← Option.some.inj h]

theorem filterMap_change_fst (ids : List AgentId) :
    ((ids.filterMap (change timeout now agents)).map (·.1)).Sublist ids := by
  induction ids with
  | nil => exact List.Sublist.refl _
  | cons id ids ih =>
    cases h : change timeout now agents id with
    | none =>
      rw [List.filterMap_cons_none h]
      exact ih.cons id
    | some p =>
      rw [List.filterMap_cons_some h, List.map_cons, change_fst h]
      exact ih.cons_cons id

theorem mem_filterMap_change {ids : List AgentId} {a : AgentId} {st : HeartbeatStatus} :
    (a, st) ∈ ids.filterMap (change timeout now agents) ↔
      a ∈ ids ∧ change timeout now agents a = some (a, st) := by
  rw [List.mem_filterMap]
  constructor
  · rintro ⟨id, hid, h⟩
    obtain rfl : a = id := change_fst h
    exact ⟨hid, h⟩
  · rintro ⟨ha, h⟩
    exact ⟨a, ha, h⟩

theorem reported_filterMap_change {ids : List AgentId} (hids : ids.Nodup) (a : AgentId) :
    reported a (ids.filterMap (change timeout now agents)) =
      if a ∈ ids then ((change timeout now agents a).map (·.2)).toList else [] := by
  induction ids with
  | nil => simp [reported]
  | cons id ids ih =>
    obtain ⟨hid, hids⟩ := List.nodup_cons.mp hids
    have ih := ih hids
    cases h : change timeout now agents id with
    | none =>
      rw [List.filterMap_cons_none h, ih]
      rcases eq_or_ne a id with rfl | ha
      · simp [hid, h]
      · simp [ha]
    | some p =>
      have hcons : reported a (p :: ids.filterMap (change timeout now agents)) =
          (if p.1 = a then [p.2] else []) ++
            reported a (ids.filterMap (change timeout now agents)) := by
        by_cases hp : p.1 = a <;> simp [reported, hp]
      rw [List.filterMap_cons_some h, hcons, ih, change_fst h]
      rcases eq_or_ne id a with rfl | ha
      · simp [hid, h]
      · simp [ha, Ne.symm ha]

end Check

/-! ### One check -/

/-- No stored status is worse than the silence of its agent. -/
def Fair (now : DateTime) (m : HeartbeatMonitor F) : Prop :=
  ∀ a s, m.agents.lookup a = some s →
    rank s.status ≤ rank (verdict m.checkTimeout (now - s.lastSeen))

theorem Fair.mono {now now' : DateTime} {m : HeartbeatMonitor F} (h : Fair now m)
    (hle : now ≤ now') : Fair now' m := fun a s hs =>
  (h a s hs).trans (rank_verdict_mono (sub_le_sub_right hle _))

/-- The status of an agent, if it is tracked. -/
def statusOf (m : HeartbeatMonitor F) (a : AgentId) : Option HeartbeatStatus :=
  (m.agents.lookup a).map (·.status)

theorem status_eq_ok {m : HeartbeatMonitor F} {a : AgentId} {st : HeartbeatStatus} :
    m.status a = .ok st ↔ statusOf m a = some st := by
  unfold status statusOf
  cases m.agents.lookup a <;> simp

/-- A check reports what changed, which is for the worse. -/
theorem change_of_fair {now : DateTime} {m : HeartbeatMonitor F} (h : Fair now m) {a : AgentId}
    {p : AgentId × HeartbeatStatus} (hp : change m.checkTimeout now m.agents a = some p) :
    ∃ s, m.agents.lookup a = some s ∧ p = (a, verdict m.checkTimeout (now - s.lastSeen)) ∧
      rank s.status < rank p.2 := by
  unfold change at hp
  cases hl : m.agents.lookup a with
  | none => simp [hl] at hp
  | some s =>
    simp only [hl] at hp
    split_ifs at hp with hne
    obtain rfl := Option.some.inj hp
    refine ⟨s, rfl, rfl, lt_of_le_of_ne (h a s hl) fun heq => hne (rank_injective heq).symm⟩

theorem mem_changed {m : HeartbeatMonitor F} {hs : RandomState AgentId} {now : DateTime}
    {a : AgentId} {st : HeartbeatStatus} :
    (a, st) ∈ (m.checkAll hs now).1 ↔ change m.checkTimeout now m.agents a = some (a, st) := by
  rw [checkAll_changed, mem_filterMap_change, RandomState.mem_order, and_iff_right_iff_imp]
  intro h
  rw [← AList.mem_keys]
  by_contra hno
  simp [change, AList.lookup_eq_none.mpr hno] at h

theorem reported_changed (m : HeartbeatMonitor F) (hs : RandomState AgentId) (now : DateTime)
    (a : AgentId) : reported a (m.checkAll hs now).1 =
      ((change m.checkTimeout now m.agents a).map (·.2)).toList := by
  have hnodup : (hs.order m.agents.keys).Nodup :=
    (hs.perm m.agents.keys).nodup_iff.mpr m.agents.keys_nodup
  rw [checkAll_changed, reported_filterMap_change hnodup]
  by_cases ha : a ∈ hs.order m.agents.keys
  · rw [if_pos ha]
  · rw [if_neg ha]
    rw [RandomState.mem_order, ← AList.mem_keys, ← AList.lookup_eq_none] at ha
    simp [change, ha]

theorem fair_new (config : FaultConfig) (now : DateTime) :
    Fair now (new config : HeartbeatMonitor F) :=
  fun a s hs => by simp [new] at hs

/-- What a check finds and reports. -/
theorem checkAll_spec {m : HeartbeatMonitor F} {now : DateTime} (h : Fair now m)
    (hs : RandomState AgentId) :
    (∀ a s, (m.checkAll hs now).2.agents.lookup a = some s →
      s.status = verdict m.checkTimeout (now - s.lastSeen)) ∧
    (∀ a st, (a, st) ∈ (m.checkAll hs now).1 ↔
      (m.checkAll hs now).2.status a = .ok st ∧ m.status a ≠ .ok st) ∧
    ((m.checkAll hs now).1.map (·.1)).Nodup ∧
    ∀ p ∈ (m.checkAll hs now).1, p.2 ≠ .alive := by
  refine ⟨fun a s hl => ?_, fun a st => ?_, ?_, fun p hp => ?_⟩
  · rw [lookup_checkAll] at hl
    obtain ⟨s', -, rfl⟩ := Option.map_eq_some_iff.mp hl
    rfl
  · rw [mem_changed, ne_eq, status_eq_ok, status_eq_ok, statusOf, statusOf, lookup_checkAll]
    cases hl : m.agents.lookup a with
    | none => simp [change, hl]
    | some s =>
      -- an agent is in the report exactly when the check changes its status
      by_cases hv : verdict m.checkTimeout (now - s.lastSeen) = s.status
      · simp [change, hl, recheck, hv]
      · simp only [change, hl, recheck, ne_eq, hv, not_false_eq_true, if_true, Option.map_some,
          Option.some.injEq, Prod.mk.injEq, true_and]
        refine ⟨fun h => ⟨h, fun h' => hv (h.trans h'.symm)⟩, fun h => h.1⟩
  · rw [checkAll_changed]
    exact (filterMap_change_fst _).nodup
      ((hs.perm m.agents.keys).nodup_iff.mpr m.agents.keys_nodup)
  · obtain ⟨a, st⟩ := p
    obtain ⟨s, -, -, hlt⟩ := change_of_fair h (mem_changed.mp hp)
    rintro rfl
    exact Nat.not_lt_zero _ hlt

/-! ### Runs -/

/-- The times of the calls of a run from some time on. -/
def Clock (now : DateTime) (calls : List (Call F)) : Prop :=
  (∀ c ∈ calls, now ≤ c.now) ∧ calls.Pairwise fun c c' => c.now ≤ c'.now

theorem Clock.cons {now : DateTime} {c : Call F} {calls : List (Call F)}
    (h : Clock now (c :: calls)) : now ≤ c.now ∧ Clock c.now calls :=
  ⟨h.1 c List.mem_cons_self, List.pairwise_cons.mp h.2⟩

theorem exists_clock {calls : List (Call F)} (h : calls.Pairwise fun c c' => c.now ≤ c'.now) :
    ∃ now, Clock now calls := by
  cases calls with
  | nil => exact ⟨0, by simp, h⟩
  | cons c calls =>
    refine ⟨c.now, fun c' hc' => ?_, h⟩
    rcases List.mem_cons.mp hc' with rfl | hc'
    · exact le_refl _
    · exact (List.pairwise_cons.mp h).1 c' hc'

theorem Clock.left {now : DateTime} {calls calls' : List (Call F)}
    (h : Clock now (calls ++ calls')) : Clock now calls :=
  ⟨fun c hc => h.1 c (List.mem_append_left _ hc), (List.pairwise_append.mp h.2).1⟩

variable [F64 F]

theorem Fair.step {m : HeartbeatMonitor F} {c : Call F} (h : Fair c.now m) :
    Fair c.now (m.step c).2 := by
  intro a s hs
  rw [step_timeout]
  rw [lookup_step] at hs
  obtain ⟨op, now⟩ := c
  cases op with
  | recordHeartbeat msg =>
    by_cases ha : msg.src = a
    · simp only [Call.onEntry, if_pos ha, Option.some.injEq] at hs
      rw [← hs, AgentHeartbeatState.accept]
      split_ifs with hseq
      · exact Nat.zero_le _
      -- an old sequence number leaves the state as it was
      · cases hl : m.agents.lookup a with
        | none => exact Nat.zero_le _
        | some s' => exact h a s' hl
    · simp only [Call.onEntry, if_neg ha] at hs
      exact h a s hs
  | checkAll hs' =>
    obtain ⟨s', hs', rfl⟩ := Option.map_eq_some_iff.mp hs
    exact le_refl _
  | removeAgent agent =>
    by_cases ha : agent = a
    · simp [Call.onEntry, ha] at hs
    · simp only [Call.onEntry, if_neg ha] at hs
      exact h a s hs

/-- What a call reports for an agent that is not heard of, and what is left to report after it. -/
theorem reported_step {m : HeartbeatMonitor F} {c : Call F} (h : Fair c.now m) {a : AgentId}
    (haccepts : accepts a ⟨m, c, (m.step c).1, (m.step c).2⟩ = false)
    (hadmits : admits a ⟨m, c, (m.step c).1, (m.step c).2⟩ = false) :
    (reported a (m.step c).1 ++ ahead (statusOf (m.step c).2 a)).Sublist
      (ahead (statusOf m a)) := by
  have hpost : statusOf (m.step c).2 a =
      (c.onEntry m.checkTimeout a (m.agents.lookup a)).map (·.status) := by
    rw [statusOf, lookup_step]
  rw [hpost]
  obtain ⟨op, now⟩ := c
  cases op with
  | recordHeartbeat msg =>
    have hout : reported a (m.step ⟨.recordHeartbeat msg, now⟩).1 = [] := rfl
    rw [hout, List.nil_append, statusOf]
    by_cases ha : msg.src = a
    · -- the agent is tracked and the heartbeat is old
      cases hl : m.agents.lookup a with
      | none => simp [admits, ha, hl] at hadmits
      | some s =>
        have hold : ¬ msg.sequence > s.lastSequence := by
          simpa [accepts, ha, hl] using haccepts
        simp [Call.onEntry, ha, AgentHeartbeatState.accept, hold]
    · simp [Call.onEntry, ha]
  | checkAll hs =>
    have hout : reported a (m.step ⟨.checkAll hs, now⟩).1 =
        ((change m.checkTimeout now m.agents a).map (·.2)).toList := reported_changed m hs now a
    rw [hout]
    cases hl : m.agents.lookup a with
    | none => simp [change, Call.onEntry, hl, ahead]
    | some s =>
      have hsame : statusOf m a = some s.status := by rw [statusOf, hl]; rfl
      rw [hsame]
      cases hchange : change m.checkTimeout now m.agents a with
      | none =>
        have heq : verdict m.checkTimeout (now - s.lastSeen) = s.status := by
          simpa [change, hl] using hchange
        simp [Call.onEntry, recheck, heq]
      | some p =>
        obtain ⟨s', hs', rfl, hlt⟩ := change_of_fair h hchange
        obtain rfl : s = s' := Option.some.inj (hl.symm.trans hs')
        exact ahead_of_rank_lt hlt
  | removeAgent agent =>
    have hout : reported a (m.step ⟨.removeAgent agent, now⟩).1 = [] := rfl
    rw [hout, List.nil_append, statusOf]
    by_cases ha : agent = a <;> simp [Call.onEntry, ha, ahead]

/-- In every run, each call finds a monitor that is fair at its time. -/
theorem fair_of_mem_trace {calls : List (Call F)} : ∀ {m : HeartbeatMonitor F} {now : DateTime},
    Fair now m → Clock now calls → ∀ x ∈ Trace.trace step m calls,
      Fair x.ev.now x.pre ∧ (x.out, x.post) = x.pre.step x.ev ∧
        x.pre.checkTimeout = m.checkTimeout := by
  induction calls with
  | nil => intro m now _ _ x hx; cases hx
  | cons c calls ih =>
    intro m now hfair hclock x hx
    obtain ⟨hle, hrest⟩ := hclock.cons
    have hnow := hfair.mono hle
    rcases List.mem_cons.mp hx with rfl | hx
    · exact ⟨hnow, rfl, rfl⟩
    · obtain ⟨hx₁, hx₂, hx₃⟩ := ih hnow.step hrest x hx
      exact ⟨hx₁, hx₂, hx₃.trans (step_timeout m c)⟩

/-- The calls that are left find a fair monitor. -/
theorem Clock.reach {calls calls' : List (Call F)} : ∀ {m : HeartbeatMonitor F} {now : DateTime},
    Fair now m → Clock now (calls ++ calls') →
      ∃ now', Fair now' (Trace.run step m calls) ∧ Clock now' calls' := by
  induction calls with
  | nil => exact fun {m now} hfair hclock => ⟨now, hfair, hclock⟩
  | cons c calls ih =>
    intro m now hfair hclock
    obtain ⟨hle, hrest⟩ := hclock.cons
    exact ih (hfair.mono hle).step hrest

/-- An agent that is not heard of is reported only for the worse. -/
theorem reports_sublist {a : AgentId} {calls : List (Call F)} :
    ∀ {m : HeartbeatMonitor F} {now : DateTime}, Fair now m → Clock now calls →
      (∀ x ∈ Trace.trace step m calls, accepts a x = false ∧ admits a x = false) →
      (reports a (Trace.trace step m calls)).Sublist (ahead (statusOf m a)) := by
  induction calls with
  | nil => intro m now _ _ _; exact List.nil_sublist _
  | cons c calls ih =>
    intro m now hfair hclock hsilent
    obtain ⟨hle, hrest⟩ := hclock.cons
    have hnow := hfair.mono hle
    obtain ⟨haccepts, hadmits⟩ := hsilent _ List.mem_cons_self
    have htail := ih hnow.step hrest fun x hx => hsilent x (List.mem_cons_of_mem _ hx)
    exact (htail.append_left _).trans (reported_step hnow haccepts hadmits)

/-- Failure detection is exact, and each level of silence is reported once until the agent is
    heard of: by a heartbeat that is accepted, or that the monitor begins to track it with. -/
theorem detection_exact_once {config : FaultConfig} {calls : List (Call F)} {T : Duration}
    (htimeout : T = (new config : HeartbeatMonitor F).timeout) (hT : T ≤ chronoMax)
    (hclock : calls.Pairwise fun c c' => c.now ≤ c'.now) :
    (∀ x ∈ Trace.trace step (new config) calls, ∀ hs, x.ev.op = .checkAll hs →
      (∀ a s, x.post.agents.lookup a = some s → s.status =
        if x.ev.now - s.lastSeen ≤ T then .alive
        else if x.ev.now - s.lastSeen ≤ 2 * T then .suspected
        else .dead) ∧
      (∀ a st, (a, st) ∈ x.out ↔ x.post.status a = .ok st ∧ x.pre.status a ≠ .ok st) ∧
      (x.out.map (·.1)).Nodup ∧ ∀ p ∈ x.out, p.2 ≠ .alive) ∧
    (∀ a xs ys zs, Trace.trace step (new config) calls = xs ++ (ys ++ zs) →
      (∀ y ∈ ys, accepts a y = false ∧ admits a y = false) →
      (reports a ys).Sublist [.suspected, .dead]) ∧
    ∀ a, ∀ x ∈ Trace.trace step (new config) calls, x.pre.status a = .ok .dead →
      accepts a x = false ∧ admits a x = false →
      x.post.status a = .ok .dead ∨ x.post.agents.lookup a = none := by
  obtain ⟨now, hnow⟩ := exists_clock hclock
  have hfair := fair_of_mem_trace (fair_new config now) hnow
  refine ⟨fun x hx hs hop => ?_, fun a xs ys zs htr hsilent => ?_, fun a x hx hdead hsilent => ?_⟩
  -- a check: what it finds and reports
  · obtain ⟨hpre, hstep, hconfig⟩ := hfair x hx
    have hcheck : x.pre.step x.ev = x.pre.checkAll hs x.ev.now := by rw [step, hop]
    rw [hcheck] at hstep
    have hout : x.out = (x.pre.checkAll hs x.ev.now).1 := congrArg Prod.fst hstep
    have hpost : x.post = (x.pre.checkAll hs x.ev.now).2 := congrArg Prod.snd hstep
    have hsame : x.pre.checkTimeout = (T : ℤ) := by
      rw [hconfig, checkTimeout_of_le (htimeout ▸ hT), htimeout]
    obtain ⟨hexact, hchanged⟩ := checkAll_spec hpre hs
    rw [hout, hpost]
    refine ⟨fun a s hl => ?_, hchanged⟩
    rw [hexact a s hl, hsame, verdict, two_mul]
  -- a silent stretch: what it can still report is ahead of the status it starts with
  · obtain ⟨es₁, es₂, rfl, rfl, hrest⟩ := Trace.trace_split step htr
    obtain ⟨es₃, es₄, rfl, rfl, -⟩ := Trace.trace_split step hrest
    obtain ⟨now', hfair', hclock'⟩ := Clock.reach (fair_new config now) hnow
    exact (reports_sublist hfair' hclock'.left hsilent).trans (ahead_sublist _)
  -- a dead agent: nothing is ahead of it, so it stays dead until it is heard of
  · obtain ⟨hpre, hstep, -⟩ := hfair x hx
    obtain ⟨pre, c, out, post⟩ := x
    obtain rfl : out = (pre.step c).1 := congrArg Prod.fst hstep
    obtain rfl : post = (pre.step c).2 := congrArg Prod.snd hstep
    have hsub := reported_step hpre hsilent.1 hsilent.2
    rw [status_eq_ok.mp hdead] at hsub
    have hnil := (List.append_eq_nil_iff.mp (List.sublist_nil.mp hsub)).2
    rw [status_eq_ok]
    unfold statusOf at hnil ⊢
    cases hl : (pre.step c).2.agents.lookup a with
    | none => exact Or.inr rfl
    | some s =>
      left
      rw [hl] at hnil
      cases hs : s.status <;> simp [ahead, hs] at hnil
      simp [hs]

/-- An agent that is removed and tracked again by a heartbeat with sequence number 0, which is not
    accepted: it is reported as suspected twice between two accepted heartbeats. -/
theorem detection_not_once :
    let hb (sequence : UInt64) : Op ℚ := .recordHeartbeat ⟨⟨1⟩, sequence, 0, 0⟩
    let tr := Trace.trace step (new FaultConfig.default)
      [⟨hb 1, 0⟩, ⟨.checkAll (.insertion _), 4000000000⟩, ⟨.removeAgent ⟨1⟩, 4000000000⟩,
        ⟨hb 0, 4000000000⟩, ⟨.checkAll (.insertion _), 8000000000⟩, ⟨hb 1, 8000000000⟩]
    tr.map (accepts ⟨1⟩) = [true, false, false, false, false, true] ∧
      reports ⟨1⟩ tr = [.suspected, .suspected] := by
  intro hb tr
  refine ⟨by decide, by decide⟩

/-- One heartbeat, and a check while the agent is silent. -/
theorem detection_exact_once_silent :
    (reports ⟨1⟩ (Trace.trace step (new FaultConfig.default)
      [⟨.recordHeartbeat (⟨⟨1⟩, 1, 0, 0⟩ : HeartbeatMsg ℚ), 0⟩,
        ⟨.checkAll (.insertion _), 4000000000⟩]).tail).Sublist [.suspected, .dead] := by
  obtain ⟨-, h, -⟩ := @detection_exact_once ℚ _ FaultConfig.default
    [⟨.recordHeartbeat ⟨⟨1⟩, 1, 0, 0⟩, 0⟩, ⟨.checkAll (.insertion _), 4000000000⟩] _ rfl
    (by decide) (by decide)
  exact h ⟨1⟩ [_] _ [] rfl (by decide)

end HeartbeatMonitor
end ATP
