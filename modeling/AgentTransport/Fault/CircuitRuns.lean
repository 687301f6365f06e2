import AgentTransport.Fault.CircuitBreaker

/-! Runs of the circuit breaker: any sequence of calls for any agents, at any times.

    What a run has to say about an agent is read off its trace: the failures recorded since its
    count last restarted, and the time its breaker last went OPEN. One invariant ties the two to
    the entry of the agent, whatever outcomes arrive late, and the law of trips and rejections
    follows from it one call at a time. -/

namespace ATP
namespace CircuitBreaker
open Collections

/-- A step of a run. -/
abbrev Step := TraceStep CircuitBreaker Call (Except FaultError Unit)

/-- The call is this operation for this agent. -/
def Call.is (c : Call) (op : Op) (a : AgentId) : Bool := decide (c.op = op) && decide (c.agent = a)

@[simp] theorem Call.is_iff {c : Call} {op : Op} {a : AgentId} :
    c.is op a = true ↔ c.op = op ∧ c.agent = a := by
  simp [Call.is]

/-- The breaker enters CLOSED, by a transition or by force, or sees a success there. -/
def restarts (a : AgentId) (x : Step) : Bool :=
  decide (x.post.state a = .closed) &&
    (decide (x.pre.state a ≠ .closed) || x.ev.is .recordSuccess a || x.ev.is .reset a)

/-- Failures recorded for the agent since its count last restarted. -/
def failuresSince (a : AgentId) (tr : List Step) : ℕ :=
  (tr.reverse.takeWhile fun x => !restarts a x).countP fun x => x.ev.is .recordFailure a

/-- The breaker goes OPEN. -/
def opens (a : AgentId) (x : Step) : Bool :=
  decide (x.pre.state a ≠ .open) && decide (x.post.state a = .open)

/-- The time of the latest transition into OPEN. -/
def lastOpened (a : AgentId) (tr : List Step) : Option DateTime :=
  (tr.reverse.find? (opens a)).map (·.ev.now)

theorem failuresSince_concat (a : AgentId) (tr : List Step) (x : Step) :
    failuresSince a (tr ++ [x]) =
      if restarts a x then 0
      else failuresSince a tr + if x.ev.is .recordFailure a then 1 else 0 := by
  simp only [failuresSince, List.reverse_append, List.reverse_cons, List.reverse_nil,
    List.nil_append, List.singleton_append, List.takeWhile_cons]
  by_cases h : restarts a x = true
  · simp [h]
  · simp [h, List.countP_cons]

theorem lastOpened_concat (a : AgentId) (tr : List Step) (x : Step) :
    lastOpened a (tr ++ [x]) = if opens a x then some x.ev.now else lastOpened a tr := by
  simp only [lastOpened, List.reverse_append, List.reverse_cons, List.reverse_nil,
    List.nil_append, List.singleton_append, List.find?_cons]
  cases opens a x <;> rfl

/-! ### The invariant -/

/-- What the steps so far say about the entry of an agent. -/
structure Tracked (a : AgentId) (tr : List Step) (cb : CircuitBreaker) : Prop where
  count : cb.state a = .closed → (cb.failureCount a).toNat = failuresSince a tr ∧
    failuresSince a tr < max cb.config.circuitBreakerThreshold.toNat 1
  opened : ∀ now, (cb.entry a now).state = .open →
    lastOpened a tr = some (cb.entry a now).lastStateChange

section Invariant
variable {a : AgentId} {tr : List Step} {cb : CircuitBreaker} {c : Call}

/-- A call for another agent neither restarts the count nor adds to it, and opens nothing. -/
theorem Tracked.step_ne (h : Tracked a tr cb) (hc : c.agent ≠ a) :
    Tracked a (tr ++ [⟨cb, c, (cb.step c).1, (cb.step c).2⟩]) (cb.step c).2 := by
  have hrestart : restarts a ⟨cb, c, (cb.step c).1, (cb.step c).2⟩ = false := by
    simp only [restarts, state_step_ne hc, Call.is, decide_eq_false hc, Bool.and_false,
      Bool.or_false]
    cases cb.state a <;> rfl
  have hopens : opens a ⟨cb, c, (cb.step c).1, (cb.step c).2⟩ = false := by
    simp only [opens, state_step_ne hc]
    cases cb.state a <;> rfl
  have hfail : c.is .recordFailure a = false := by simp [Call.is, hc]
  constructor
  · intro hs
    rw [state_step_ne hc] at hs
    rw [failuresSince_concat, hrestart, hfail, failureCount_step_ne hc, step_config]
    simpa using h.count hs
  · intro now hs
    rw [entry_step_ne hc] at hs ⊢
    rw [lastOpened_concat, hopens]
    exact h.opened now hs

/-- A failure counted below the threshold does not wrap around. -/
theorem count_succ (h : Tracked a tr cb) (hs : cb.state a = .closed) :
    (cb.failureCount a + 1).toNat = (cb.failureCount a).toNat + 1 := by
  obtain ⟨hcount, hlt⟩ := h.count hs
  have hmax : cb.config.circuitBreakerThreshold.toNat < 2 ^ 32 := UInt32.toNat_lt _
  rw [UInt32.toNat_add]
  exact Nat.mod_eq_of_lt (by simp only [UInt32.toNat_one]; omega)

/-- The failure that reaches the threshold is the one that completes the count. -/
theorem threshold_iff (h : Tracked a tr cb) (hs : cb.state a = .closed) :
    cb.config.circuitBreakerThreshold ≤ cb.failureCount a + 1 ↔
      failuresSince a tr + 1 = max cb.config.circuitBreakerThreshold.toNat 1 := by
  obtain ⟨hcount, hlt⟩ := h.count hs
  rw [UInt32.le_iff_toNat_le, count_succ h hs, hcount]
  omega

/-- A call for the agent itself. -/
theorem Tracked.step_self (h : Tracked c.agent tr cb) :
    Tracked c.agent (tr ++ [⟨cb, c, (cb.step c).1, (cb.step c).2⟩]) (cb.step c).2 := by
  have hpre := state_eq_entry cb c.agent c.now
  constructor
  · intro hs
    rw [state_step_self] at hs
    have hrestart : restarts c.agent ⟨cb, c, (cb.step c).1, (cb.step c).2⟩ = true ↔
        ((cb.entry c.agent c.now).state ≠ .closed ∨ c.op = .recordSuccess ∨ c.op = .reset) := by
      simp [restarts, state_step_self, hs, hpre, or_assoc]
    rw [failuresSince_concat, failureCount_step_self, onState_count hs, step_config]
    by_cases hr : (cb.entry c.agent c.now).state ≠ .closed ∨ c.op = .recordSuccess ∨ c.op = .reset
    · rw [if_pos hr, if_pos (hrestart.mpr hr)]
      exact ⟨rfl, by omega⟩
    · rw [if_neg hr, if_neg (fun h => hr (hrestart.mp h)), ← failureCount_eq_entry]
      have hclosed : cb.state c.agent = .closed := by
        rw [hpre]; exact not_not.mp (fun h => hr (Or.inl h))
      obtain ⟨hcount, hlt⟩ := h.count hclosed
      by_cases hf : c.op = .recordFailure
      · -- one more failure, below the threshold since the breaker stays CLOSED
        have hbelow : ¬ failuresSince c.agent tr + 1 =
            max cb.config.circuitBreakerThreshold.toNat 1 := by
          intro hreach
          have hle := (threshold_iff h hclosed).mpr hreach
          rw [failureCount_eq_entry _ _ c.now] at hle
          exact (onState_leaves_closed (hpre ▸ hclosed)).mpr ⟨hf, hle⟩ hs
        have his : c.is .recordFailure c.agent = true := by simp [hf]
        rw [if_pos hf, if_pos his, count_succ h hclosed, hcount]
        exact ⟨rfl, by omega⟩
      · have his : ¬ c.is .recordFailure c.agent = true := by simp [hf]
        rw [if_neg hf, if_neg his]
        exact ⟨by simpa using hcount, hlt⟩
  · intro now hs
    have hop : c.op ≠ .reset := by
      intro hr
      rw [← state_eq_entry, state_step_self, hr] at hs
      simp [Op.onState, BreakerState.reset] at hs
    rw [entry_step_self hop] at hs ⊢
    rw [lastOpened_concat]
    by_cases ho : (cb.entry c.agent c.now).state = .open
    · have hopens : opens c.agent ⟨cb, c, (cb.step c).1, (cb.step c).2⟩ = false := by
        simp [opens, hpre, ho]
      rw [hopens, onState_stays_open ho hs]
      exact h.opened c.now ho
    · have hopens : opens c.agent ⟨cb, c, (cb.step c).1, (cb.step c).2⟩ = true := by
        simp [opens, hpre, ho, state_step_self, hs]
      rw [hopens, onState_opens ho hs]
      rfl

end Invariant

theorem tracked_run (config : FaultConfig) (cooldown : Duration) (calls : List Call)
    (a : AgentId) : Tracked a (Trace.trace step (new config cooldown) calls)
      (Trace.run step (new config cooldown) calls) := by
  refine Trace.trace_invariant step ?_ ?_ calls
  · refine ⟨fun _ => ⟨rfl, ?_⟩, fun now hs => by simp [entry, new, BreakerState.new] at hs⟩
    simp [failuresSince]
  · intro tr cb c h
    rcases eq_or_ne c.agent a with rfl | hc
    · exact h.step_self
    · exact h.step_ne hc

theorem run_config (config : FaultConfig) (cooldown : Duration) (calls : List Call) :
    (Trace.run step (new config cooldown) calls).config = config :=
  Trace.run_invariant step (P := fun cb => cb.config = config) rfl
    (fun cb c h => by rw [step_config]; exact h) calls

theorem run_cooldown (config : FaultConfig) (cooldown : Duration) (calls : List Call) :
    (Trace.run step (new config cooldown) calls).cooldown = cooldown :=
  Trace.run_invariant step (P := fun cb => cb.cooldown = cooldown) rfl
    (fun cb c h => by rw [step_cooldown]; exact h) calls

/-! ### Trips and rejections -/

/-- In every run OPEN is left through a request of the agent once the cool-down that the code
    computes has elapsed since it opened, or by force. -/
theorem leaves_open {config : FaultConfig} {cooldown : Duration} {calls : List Call} {c : Call}
    {a : AgentId} (hopen : (Trace.run step (new config cooldown) calls).state a = .open)
    (hleft : ((Trace.run step (new config cooldown) calls).step c).2.state a ≠ .open) :
    c.agent = a ∧ (c.op = .allowRequest ∧ (∃ t₀,
        lastOpened a (Trace.trace step (new config cooldown) calls) = some t₀ ∧
          BreakerState.cooldownChrono cooldown ≤ c.now - t₀) ∨ c.op = .reset) := by
  have htracked := tracked_run config cooldown calls a
  have hc : c.agent = a := by
    by_contra hne
    rw [state_step_ne hne] at hleft
    exact hleft hopen
  subst hc
  rw [state_eq_entry _ c.agent c.now] at hopen
  rw [state_step_self] at hleft
  refine ⟨rfl, (onState_leaves_open hopen hleft).imp_left ?_⟩
  rintro ⟨hop, helapsed⟩
  rw [run_cooldown] at helapsed
  exact ⟨hop, _, htracked.opened c.now hopen, helapsed⟩

/-- The law of trips and rejections, for the next call of any run. A breaker leaves CLOSED exactly
    at the failure that completes the threshold; a request is rejected exactly while OPEN and less
    than the cool-down after the latest transition there; OPEN is left only through a request
    after the cool-down or a reset; calls for other agents change nothing. -/
theorem trip_and_rejection_law (config : FaultConfig) (cooldown : Duration)
    (hcooldown : cooldown ≤ chronoMax) (calls : List Call) (c : Call) (a : AgentId) :
    let tr := Trace.trace step (new config cooldown) calls
    let cb := Trace.run step (new config cooldown) calls
    let post := (cb.step c).2
    let threshold := max config.circuitBreakerThreshold.toNat 1
    (cb.state a = .closed → (cb.failureCount a).toNat = failuresSince a tr ∧
      (cb.failureCount a).toNat < threshold ∧
      (post.state a ≠ .closed ↔ c.op = .recordFailure ∧ c.agent = a ∧
        failuresSince a tr + 1 = threshold)) ∧
    (c.op = .allowRequest → c.agent = a → ((cb.step c).1 = .error (.circuitOpen a.display) ↔
      cb.state a = .open ∧ ∃ t₀, lastOpened a tr = some t₀ ∧ c.now - t₀ < cooldown)) ∧
    (cb.state a = .open → post.state a ≠ .open → c.agent = a ∧
      (c.op = .allowRequest ∧ (∃ t₀, lastOpened a tr = some t₀ ∧ t₀ + cooldown ≤ c.now) ∨
        c.op = .reset)) ∧
    (c.agent ≠ a → post.breakers.lookup a = cb.breakers.lookup a) := by
  intro tr cb post threshold
  have h : Tracked a tr cb := tracked_run config cooldown calls a
  have hconfig : cb.config = config := run_config config cooldown calls
  have hchrono : BreakerState.cooldownChrono cooldown = cooldown :=
    BreakerState.cooldownChrono_of_le hcooldown
  refine ⟨?_, ?_, ?_, fun hne => lookup_step_ne hne⟩
  -- CLOSED: the counter holds the failures since it last restarted
  · intro hs
    obtain ⟨hcount, hlt⟩ := h.count hs
    rw [hconfig] at hlt
    refine ⟨hcount, hcount ▸ hlt, ?_⟩
    rcases eq_or_ne c.agent a with rfl | hc
    · have hclosed : (cb.entry c.agent c.now).state = .closed := by rw [← state_eq_entry]; exact hs
      rw [show post.state c.agent = _ from state_step_self, onState_leaves_closed hclosed,
        ← failureCount_eq_entry, threshold_iff h hs, hconfig]
      exact ⟨fun h => ⟨h.1, rfl, h.2⟩, fun h => ⟨h.1, h.2.2⟩⟩
    · simp [post, state_step_ne hc, hs, hc]
  -- a request: refused by the entry that the run has tracked
  · rintro hop rfl
    have hstep : (cb.step c).1 = (cb.allowRequest c.agent c.now).1 := by rw [step, hop]
    rw [hstep, allowRequest_error_iff, state_eq_entry cb c.agent c.now, run_cooldown, hchrono]
    constructor
    · rintro ⟨ho, helapsed⟩
      exact ⟨ho, _, h.opened c.now ho, helapsed⟩
    · rintro ⟨ho, t₀, ht₀, helapsed⟩
      obtain rfl := Option.some.inj (ht₀.symm.trans (h.opened c.now ho))
      exact ⟨ho, helapsed⟩
  -- OPEN: two of the transitions leave it
  · intro ho hleft
    obtain ⟨hagent, hway⟩ := leaves_open ho hleft
    refine ⟨hagent, hway.imp_left ?_⟩
    rintro ⟨hop, t₀, ht₀, helapsed⟩
    rw [hchrono] at helapsed
    exact ⟨hop, t₀, ht₀, by linarith⟩

/-- Three failures in a row, then a request one second after the third. -/
theorem trip_and_rejection_law_third :
    let a : AgentId := ⟨7⟩
    let calls : List Call := [⟨.recordFailure, a, 10⟩, ⟨.recordFailure, a, 20⟩,
      ⟨.recordFailure, a, 30⟩]
    ((Trace.run step (new FaultConfig.default (Duration.secs 30)) calls).step
      ⟨.allowRequest, a, 30 + Duration.secs 1⟩).1 = .error (.circuitOpen a.display) := by
  intro a calls
  have h := trip_and_rejection_law FaultConfig.default (Duration.secs 30) (by decide) calls
    ⟨.allowRequest, a, 30 + Duration.secs 1⟩ a
  exact (h.2.1 rfl rfl).mpr ⟨by decide, 30, by decide, by decide⟩

/-! ### Probes -/

/-- An outcome of the agent: a success, a failure or a reset. -/
def outcome (a : AgentId) (x : Step) : Bool :=
  x.ev.is .recordSuccess a || x.ev.is .recordFailure a || x.ev.is .reset a

/-- Between the request that moves the agent's breaker from OPEN to HALF_OPEN and the next outcome
    of the agent, every other request for the agent is rejected. -/
def OneProbe (a : AgentId) (tr : List Step) : Prop :=
  ∀ before probe between x after, tr = before ++ probe :: (between ++ x :: after) →
    probe.ev.is .allowRequest a = true → probe.pre.state a = .open →
    probe.post.state a = .halfOpen → (∀ y ∈ between, outcome a y = false) →
    x.ev.is .allowRequest a = true → x.out = .error (.circuitOpen a.display)

/-- Without an outcome of the agent, HALF_OPEN lasts. -/
theorem halfOpen_lasts {cb : CircuitBreaker} {a : AgentId} (hs : cb.state a = .halfOpen) :
    ∀ calls : List Call, (∀ y ∈ Trace.trace step cb calls, outcome a y = false) →
      (Trace.run step cb calls).state a = .halfOpen := by
  intro calls
  induction calls generalizing cb with
  | nil => exact fun _ => hs
  | cons c calls ih =>
    intro hout
    refine ih ?_ (fun y hy => hout y (List.mem_cons_of_mem _ hy))
    have hc := hout _ List.mem_cons_self
    rcases eq_or_ne c.agent a with rfl | hne
    · obtain ⟨op, agent, now⟩ := c
      cases op with
      | allowRequest =>
        rw [state_eq_entry cb agent now] at hs
        rw [state_step_self]
        simp [Op.onState, BreakerState.allowRequest, hs]
      | _ => simp [outcome, Call.is] at hc
    · rw [state_step_ne hne]; exact hs

/-- A HALF_OPEN breaker got there through a request that found it OPEN, and has seen no outcome
    since. -/
theorem halfOpen_since (config : FaultConfig) (cooldown : Duration) (a : AgentId)
    (calls : List Call) : (Trace.run step (new config cooldown) calls).state a = .halfOpen →
      ∃ before probe between,
        Trace.trace step (new config cooldown) calls = before ++ probe :: between ∧
        probe.ev.is .allowRequest a = true ∧ probe.pre.state a = .open ∧
        probe.post.state a = .halfOpen ∧ ∀ y ∈ between, outcome a y = false := by
  refine Trace.trace_invariant step (P := fun tr cb => cb.state a = .halfOpen →
    ∃ before probe between, tr = before ++ probe :: between ∧
      probe.ev.is .allowRequest a = true ∧ probe.pre.state a = .open ∧
      probe.post.state a = .halfOpen ∧ ∀ y ∈ between, outcome a y = false) ?_ ?_ calls
  · intro h
    simp [state, new] at h
  · intro tr cb c ih hpost
    by_cases hpre : cb.state a = .halfOpen
    · -- it was HALF_OPEN before: the call is no outcome of the agent
      obtain ⟨before, probe, between, rfl, hev, hopen, hhalf, hout⟩ := ih hpre
      refine ⟨before, probe, between ++ [⟨cb, c, (cb.step c).1, (cb.step c).2⟩],
        by simp, hev, hopen, hhalf, ?_⟩
      intro y hy
      rcases List.mem_append.mp hy with hy | hy
      · exact hout y hy
      · obtain rfl := List.mem_singleton.mp hy
        rcases eq_or_ne c.agent a with rfl | hne
        · rw [state_step_self] at hpost
          rw [state_eq_entry cb c.agent c.now] at hpre
          obtain ⟨op, agent, now⟩ := c
          cases op with
          | allowRequest => simp [outcome, Call.is]
          | recordSuccess => simp [Op.onState, BreakerState.recordSuccess, hpre] at hpost
          | recordFailure => simp [Op.onState, BreakerState.recordFailure, hpre] at hpost
          | reset => simp [Op.onState, BreakerState.reset] at hpost
        · simp [outcome, Call.is, hne]
    · -- it went HALF_OPEN just now: this is the probe
      have hne : c.agent = a := by
        by_contra hne
        rw [state_step_ne hne] at hpost
        exact hpre hpost
      subst hne
      have hpost' := hpost
      rw [state_step_self] at hpost'
      rw [state_eq_entry cb c.agent c.now] at hpre
      obtain ⟨hop, hopen⟩ := onState_enters_halfOpen hpre hpost'
      exact ⟨tr, _, [], rfl, by simp [hop], by rw [state_eq_entry cb c.agent c.now]; exact hopen,
        hpost, by simp⟩

/-- A request that finds its breaker HALF_OPEN passes. -/
theorem allowRequest_of_halfOpen {cb : CircuitBreaker} {a : AgentId} {now : DateTime}
    (h : cb.state a = .halfOpen) : (cb.allowRequest a now).1 = .ok () := by
  rw [state_eq_entry cb a now] at h
  simp [allowRequest, BreakerState.allowRequest, h]

/-- HALF_OPEN admits one probe at a time exactly in the runs where no second request is made for
    an agent whose breaker is HALF_OPEN: the breaker itself rejects none. -/
theorem one_probe_iff (config : FaultConfig) (cooldown : Duration) (calls : List Call) :
    (∀ a, OneProbe a (Trace.trace step (new config cooldown) calls)) ↔
      ∀ x ∈ Trace.trace step (new config cooldown) calls, x.ev.op = .allowRequest →
        x.pre.state x.ev.agent ≠ .halfOpen := by
  constructor
  · intro h x hx hop hhalf
    obtain ⟨xs, ys, hsplit⟩ := List.append_of_mem hx
    obtain ⟨calls₁, _, htrace, hpre, hstep, _⟩ := Trace.trace_mid step hsplit
    obtain ⟨before, probe, between, hprobe, hev, hopen, hpost, hout⟩ :=
      halfOpen_since config cooldown x.ev.agent calls₁ (by rw [← hpre]; exact hhalf)
    have herr := h x.ev.agent before probe between x ys
      (by rw [hsplit, ← htrace, hprobe, List.append_assoc, List.cons_append]) hev hopen hpost hout
      (by simp [hop])
    have hok : x.out = .ok () := by
      rw [show x.out = _ from congrArg Prod.fst hstep, step, hop]
      exact allowRequest_of_halfOpen hhalf
    rw [hok] at herr
    simp at herr
  · intro h a before probe between x after htr hev hopen hpost hout hx
    obtain ⟨hop, rfl⟩ := Call.is_iff.mp hx
    obtain ⟨_, rest, _, _, _, hrest⟩ := Trace.trace_mid step htr
    obtain ⟨calls₁, _, hbetween, hpre, _, _⟩ := Trace.trace_mid step hrest
    refine absurd ?_ (h x (by rw [htr]; simp) hop)
    rw [hpre]
    exact halfOpen_lasts hpost calls₁ (fun y hy => hout y (hbetween ▸ hy))

/-- Two requests in a row pass once the cool-down of a tripped breaker has elapsed. -/
theorem two_probes_admitted :
    let a : AgentId := ⟨7⟩
    let config := { FaultConfig.default with circuitBreakerThreshold := 1 }
    let calls : List Call := [⟨.recordFailure, a, 0⟩, ⟨.allowRequest, a, 30⟩,
      ⟨.allowRequest, a, 31⟩]
    (calls.map (·.now)).Pairwise (· ≤ ·) ∧
      ¬ OneProbe a (Trace.trace step (new config 30) calls) := by
  intro a config calls
  refine ⟨by decide, fun h => ?_⟩
  have herr := h [_] _ [] _ [] rfl (by decide) (by decide) (by decide) (by simp) (by decide)
  exact absurd herr (by decide)

end CircuitBreaker
end ATP
