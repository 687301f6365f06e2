import AgentTransport.Types.Message
import AgentTransport.Lib.Trace

/-! Three-state circuit breaker, one for each remote agent:

        CLOSED ──failures reach the threshold──▶ OPEN ──request after the cool-down──▶ HALF_OPEN
          ▲                                       ▲                                     │    │
          │                                       └────────────── failure ──────────────┘    │
          └──────────────────────────── success, or a forced reset ──────────────────────────┘

    Each call reads the clock once. The lifetime totals of failures and successes, which nothing
    reads, are left out. -/

namespace ATP
open Collections

/-- Per-agent circuit breaker bookkeeping. -/
structure BreakerState where
  state : CircuitState
  consecutiveFailures : UInt32
  lastStateChange : DateTime
  deriving DecidableEq

namespace BreakerState

def new (now : DateTime) : BreakerState := ⟨.closed, 0, now⟩

/-- `chrono::Duration::from_std(cooldown)`, 30 s when out of range. -/
def cooldownChrono (cooldown : Duration) : ℤ :=
  (chronoFromStd cooldown).getD (Duration.secs 30 : ℕ)

theorem cooldownChrono_of_le {cooldown : Duration} (h : cooldown ≤ chronoMax) :
    cooldownChrono cooldown = (cooldown : ℤ) := by
  rw [cooldownChrono, chronoFromStd_of_le h]
  rfl

/-- Whether a request passes; an OPEN breaker whose cool-down has elapsed goes HALF_OPEN. -/
def allowRequest (cooldown : Duration) (now : DateTime) (s : BreakerState) :
    Bool × BreakerState :=
  match s.state with
  | .closed => (true, s)
  | .halfOpen => (true, s)
  | .open =>
    if now - s.lastStateChange ≥ cooldownChrono cooldown then
      (true, { s with state := .halfOpen, lastStateChange := now })
    else (false, s)

def recordSuccess (now : DateTime) (s : BreakerState) : BreakerState :=
  match s.state with
  | .halfOpen => ⟨.closed, 0, now⟩
  | .closed => { s with consecutiveFailures := 0 }
  | .open => s

def recordFailure (threshold : UInt32) (now : DateTime) (s : BreakerState) : BreakerState :=
  let failures := s.consecutiveFailures + 1
  match s.state with
  | .closed =>
    if failures ≥ threshold then ⟨.open, failures, now⟩
    else { s with consecutiveFailures := failures }
  | .halfOpen => ⟨.open, failures, now⟩
  | .open => { s with consecutiveFailures := failures }

def reset (now : DateTime) (_ : BreakerState) : BreakerState := ⟨.closed, 0, now⟩

end BreakerState

/-- Manages circuit breaker state for every known remote agent. -/
structure CircuitBreaker where
  config : FaultConfig
  cooldown : Duration
  breakers : HashMap AgentId BreakerState

namespace CircuitBreaker

/-- Create a circuit breaker manager with explicit cool-down. -/
def new (config : FaultConfig) (cooldown : Duration) : CircuitBreaker := ⟨config, cooldown, ∅⟩

/-- Create a circuit breaker manager with the default 30 s cool-down. -/
def withDefaults : CircuitBreaker := new FaultConfig.default (Duration.secs 30)

/-- The entry of an agent, a new one if it has none. -/
def entry (cb : CircuitBreaker) (agent : AgentId) (now : DateTime) : BreakerState :=
  (cb.breakers.lookup agent).getD (BreakerState.new now)

/-- Check whether a request to `agent` should be allowed. -/
def allowRequest (cb : CircuitBreaker) (agent : AgentId) (now : DateTime) :
    Except FaultError Unit × CircuitBreaker :=
  let (allowed, s) := (cb.entry agent now).allowRequest cb.cooldown now
  (if allowed then .ok () else .error (.circuitOpen agent.display),
    { cb with breakers := cb.breakers.insert agent s })

/-- Query the current circuit state for an agent. -/
def state (cb : CircuitBreaker) (agent : AgentId) : CircuitState :=
  ((cb.breakers.lookup agent).map (·.state)).getD .closed

/-- The number of consecutive failures for an agent. -/
def failureCount (cb : CircuitBreaker) (agent : AgentId) : UInt32 :=
  ((cb.breakers.lookup agent).map (·.consecutiveFailures)).getD 0

/-- Record a successful interaction with `agent`. -/
def recordSuccess (cb : CircuitBreaker) (agent : AgentId) (now : DateTime) : CircuitBreaker :=
  { cb with breakers := cb.breakers.upsert agent (BreakerState.new now) (·.recordSuccess now) }

/-- Record a failed interaction with `agent`. -/
def recordFailure (cb : CircuitBreaker) (agent : AgentId) (now : DateTime) : CircuitBreaker :=
  { cb with
    breakers := cb.breakers.upsert agent (BreakerState.new now)
      (·.recordFailure cb.config.circuitBreakerThreshold now) }

/-- Forcibly reset the breaker for an agent back to CLOSED. -/
def reset (cb : CircuitBreaker) (agent : AgentId) (now : DateTime) : CircuitBreaker :=
  { cb with breakers := cb.breakers.adjust agent (·.reset now) }

/-! ### Calls as events of one machine -/

inductive Op where | allowRequest | recordSuccess | recordFailure | reset
  deriving DecidableEq

/-- A call: the operation, the agent it is for and the time it reads. -/
structure Call where
  op : Op
  agent : AgentId
  now : DateTime
  deriving DecidableEq

/-- Perform a call. Only `allow_request` has an answer that may be an error. -/
def step (cb : CircuitBreaker) (c : Call) : Except FaultError Unit × CircuitBreaker :=
  match c.op with
  | .allowRequest => cb.allowRequest c.agent c.now
  | .recordSuccess => (.ok (), cb.recordSuccess c.agent c.now)
  | .recordFailure => (.ok (), cb.recordFailure c.agent c.now)
  | .reset => (.ok (), cb.reset c.agent c.now)

/-- The effect of an operation on the breaker of its own agent. -/
def Op.onState (op : Op) (cb : CircuitBreaker) (now : DateTime) (s : BreakerState) :
    BreakerState :=
  match op with
  | .allowRequest => (s.allowRequest cb.cooldown now).2
  | .recordSuccess => s.recordSuccess now
  | .recordFailure => s.recordFailure cb.config.circuitBreakerThreshold now
  | .reset => s.reset now

/-- The same on the entry; only `reset` leaves a missing entry missing. -/
def Op.onEntry (op : Op) (cb : CircuitBreaker) (now : DateTime) (o : Option BreakerState) :
    Option BreakerState :=
  match op with
  | .reset => o.map (·.reset now)
  | op => some (op.onState cb now (o.getD (BreakerState.new now)))

@[simp] theorem step_config (cb : CircuitBreaker) (c : Call) :
    (cb.step c).2.config = cb.config := by
  cases c with | mk op agent now => cases op <;> rfl

@[simp] theorem step_cooldown (cb : CircuitBreaker) (c : Call) :
    (cb.step c).2.cooldown = cb.cooldown := by
  cases c with | mk op agent now => cases op <;> rfl

/-- A call acts on the entry of its agent and leaves every other entry alone. -/
theorem lookup_step (cb : CircuitBreaker) (c : Call) (a : AgentId) :
    (cb.step c).2.breakers.lookup a =
      if a = c.agent then c.op.onEntry cb c.now (cb.breakers.lookup a)
      else cb.breakers.lookup a := by
  obtain ⟨op, agent, now⟩ := c
  cases op with
  | allowRequest =>
    simp only [step, allowRequest, entry, Op.onEntry, Op.onState]
    rcases eq_or_ne a agent with rfl | h
    · rw [if_pos rfl, AList.lookup_insert]
    · rw [if_neg h, AList.lookup_insert_ne h]
  | recordSuccess =>
    simp only [step, recordSuccess, lookup_upsert, Op.onEntry, Op.onState]
    rcases eq_or_ne a agent with rfl | h
    · rfl
    · rw [if_neg h, if_neg h]
  | recordFailure =>
    simp only [step, recordFailure, lookup_upsert, Op.onEntry, Op.onState]
    rcases eq_or_ne a agent with rfl | h
    · rfl
    · rw [if_neg h, if_neg h]
  | reset =>
    simp only [step, reset, lookup_adjust, Op.onEntry]
    rcases eq_or_ne a agent with rfl | h
    · rfl
    · rw [if_neg h, if_neg h]

/-! ### What queries see after a call -/

section Views
variable {cb : CircuitBreaker} {c : Call} {a : AgentId}

/-- Calls for one agent never change another agent's breaker. -/
theorem lookup_step_ne (h : c.agent ≠ a) :
    (cb.step c).2.breakers.lookup a = cb.breakers.lookup a := by
  rw [lookup_step, if_neg (fun ha => h ha.symm)]

theorem state_step_ne (h : c.agent ≠ a) : (cb.step c).2.state a = cb.state a := by
  rw [state, lookup_step_ne h, state]

theorem failureCount_step_ne (h : c.agent ≠ a) :
    (cb.step c).2.failureCount a = cb.failureCount a := by
  rw [failureCount, lookup_step_ne h, failureCount]

theorem entry_step_ne (h : c.agent ≠ a) (now : DateTime) :
    (cb.step c).2.entry a now = cb.entry a now := by
  rw [entry, lookup_step_ne h, entry]

/-- What a query sees of an agent without an entry is what it sees of a new one. -/
theorem state_eq_entry (cb : CircuitBreaker) (a : AgentId) (now : DateTime) :
    cb.state a = (cb.entry a now).state := by
  unfold state entry
  cases cb.breakers.lookup a <;> rfl

theorem failureCount_eq_entry (cb : CircuitBreaker) (a : AgentId) (now : DateTime) :
    cb.failureCount a = (cb.entry a now).consecutiveFailures := by
  unfold failureCount entry
  cases cb.breakers.lookup a <;> rfl

theorem entry_step_self (h : c.op ≠ .reset) (now : DateTime) :
    (cb.step c).2.entry c.agent now = c.op.onState cb c.now (cb.entry c.agent c.now) := by
  rw [entry, lookup_step, if_pos rfl]
  obtain ⟨op, agent, t⟩ := c
  cases op with
  | reset => exact absurd rfl h
  | _ => rfl

theorem state_step_self :
    (cb.step c).2.state c.agent = (c.op.onState cb c.now (cb.entry c.agent c.now)).state := by
  by_cases h : c.op = .reset
  · rw [state, lookup_step, if_pos rfl, h]
    cases cb.breakers.lookup c.agent <;> rfl
  · rw [state_eq_entry _ _ c.now, entry_step_self h]

theorem failureCount_step_self : (cb.step c).2.failureCount c.agent =
    (c.op.onState cb c.now (cb.entry c.agent c.now)).consecutiveFailures := by
  by_cases h : c.op = .reset
  · rw [failureCount, lookup_step, if_pos rfl, h]
    cases cb.breakers.lookup c.agent <;> rfl
  · rw [failureCount_eq_entry _ _ c.now, entry_step_self h]

end Views

/-! ### The transitions of one breaker -/

section Transitions
variable {op : Op} {cb : CircuitBreaker} {now : DateTime} {s : BreakerState}

/-- A request is rejected exactly while OPEN and before the cool-down has elapsed. -/
theorem allowRequest_rejects_iff {cooldown : Duration} :
    (s.allowRequest cooldown now).1 = false ↔
      s.state = .open ∧ now - s.lastStateChange < BreakerState.cooldownChrono cooldown := by
  unfold BreakerState.allowRequest
  split
  · simp [*]
  · simp [*]
  · split
    · simp [*]
    · rename_i hopen h
      simp [hopen, Int.not_le.mp h]

theorem allowRequest_error_iff {a : AgentId} :
    (cb.allowRequest a now).1 = .error (.circuitOpen a.display) ↔ (cb.entry a now).state = .open ∧
      now - (cb.entry a now).lastStateChange < BreakerState.cooldownChrono cb.cooldown := by
  rw [← allowRequest_rejects_iff, allowRequest]
  cases h : ((cb.entry a now).allowRequest cb.cooldown now).1 <;> simp [h]

/-- Only the failure that reaches the threshold leaves CLOSED. -/
theorem onState_leaves_closed (h : s.state = .closed) : (op.onState cb now s).state ≠ .closed ↔
    op = .recordFailure ∧ cb.config.circuitBreakerThreshold ≤ s.consecutiveFailures + 1 := by
  cases op with
  | recordFailure =>
    simp only [Op.onState, BreakerState.recordFailure, h, true_and]
    by_cases ht : s.consecutiveFailures + 1 ≥ cb.config.circuitBreakerThreshold
    · simp [ht]
    · simp [ht]
  | allowRequest => simp [Op.onState, BreakerState.allowRequest, h]
  | recordSuccess => simp [Op.onState, BreakerState.recordSuccess, h]
  | reset => simp [Op.onState, BreakerState.reset]

/-- A breaker that stays or becomes CLOSED counts a failure or counts from zero. -/
theorem onState_count (h : (op.onState cb now s).state = .closed) :
    (op.onState cb now s).consecutiveFailures =
      if s.state ≠ .closed ∨ op = .recordSuccess ∨ op = .reset then 0
      else s.consecutiveFailures + if op = .recordFailure then 1 else 0 := by
  cases op with
  | allowRequest =>
    cases hs : s.state <;> simp_all [Op.onState, BreakerState.allowRequest]
    split at h <;> simp_all
  | recordSuccess => cases hs : s.state <;> simp_all [Op.onState, BreakerState.recordSuccess]
  | recordFailure =>
    cases hs : s.state <;> simp only [Op.onState, BreakerState.recordFailure, hs] at h ⊢
    · split at h
      · simp at h
      · rename_i ht
        simp [ht]
    · simp at h
    · simp at h
  | reset => simp [Op.onState, BreakerState.reset]

/-- All that a call can do to the state of a breaker: nothing, trip it, let a probe through after
    the cool-down, or close it. -/
theorem onState_cases :
    ((op.onState cb now s).state = s.state ∧
      (op.onState cb now s).lastStateChange = s.lastStateChange) ∨
    (op = .recordFailure ∧ s.state ≠ .open ∧ (op.onState cb now s).state = .open ∧
      (op.onState cb now s).lastStateChange = now) ∨
    (op = .allowRequest ∧ s.state = .open ∧
      now - s.lastStateChange ≥ BreakerState.cooldownChrono cb.cooldown ∧
      (op.onState cb now s).state = .halfOpen) ∨
    ((op = .recordSuccess ∧ s.state = .halfOpen ∨ op = .reset) ∧
      (op.onState cb now s).state = .closed) := by
  cases op with
  | allowRequest =>
    -- only OPEN looks at the clock
    cases hs : s.state
    · left; simp [Op.onState, BreakerState.allowRequest, hs]
    · by_cases ht : now - s.lastStateChange ≥ BreakerState.cooldownChrono cb.cooldown
      · right; right; left
        simp [Op.onState, BreakerState.allowRequest, hs, ht]
      · left
        simp [Op.onState, BreakerState.allowRequest, hs, ht]
    · left; simp [Op.onState, BreakerState.allowRequest, hs]
  | recordSuccess =>
    cases hs : s.state
    · left; simp [Op.onState, BreakerState.recordSuccess, hs]
    · left; simp [Op.onState, BreakerState.recordSuccess, hs]
    · right; right; right; simp [Op.onState, BreakerState.recordSuccess, hs]
  | recordFailure =>
    -- CLOSED counts, HALF_OPEN trips at once
    cases hs : s.state
    · by_cases ht : s.consecutiveFailures + 1 ≥ cb.config.circuitBreakerThreshold
      · right; left
        simp [Op.onState, BreakerState.recordFailure, hs, ht]
      · left
        simp [Op.onState, BreakerState.recordFailure, hs, ht]
    · left; simp [Op.onState, BreakerState.recordFailure, hs]
    · right; left; simp [Op.onState, BreakerState.recordFailure, hs]
  | reset => right; right; right; simp [Op.onState, BreakerState.reset]

/-- Going OPEN is stamped with the time of the call. -/
theorem onState_opens (h : s.state ≠ .open) (hpost : (op.onState cb now s).state = .open) :
    (op.onState cb now s).lastStateChange = now := by
  rcases @onState_cases op cb now s with ⟨hsame, -⟩ | ⟨-, -, -, hstamp⟩ | ⟨-, ho, -⟩ | ⟨-, hclosed⟩
  · exact absurd (hsame ▸ hpost) h
  · exact hstamp
  · exact absurd ho h
  · simp [hclosed] at hpost

/-- Nothing that happens while OPEN moves that stamp. -/
theorem onState_stays_open (h : s.state = .open) (hpost : (op.onState cb now s).state = .open) :
    (op.onState cb now s).lastStateChange = s.lastStateChange := by
  rcases @onState_cases op cb now s with ⟨-, hsame⟩ | ⟨-, hno, -⟩ | ⟨-, -, -, hprobe⟩ | ⟨-, hclosed⟩
  · exact hsame
  · exact absurd h hno
  · simp [hprobe] at hpost
  · simp [hclosed] at hpost

/-- OPEN is left through a request after the cool-down, or by force. -/
theorem onState_leaves_open (h : s.state = .open) (hpost : (op.onState cb now s).state ≠ .open) :
    op = .allowRequest ∧ now - s.lastStateChange ≥ BreakerState.cooldownChrono cb.cooldown ∨
      op = .reset := by
  rcases @onState_cases op cb now s with ⟨hsame, -⟩ | ⟨-, hno, -⟩ | ⟨hop, -, ht, -⟩ | ⟨hop, -⟩
  · exact absurd (hsame.trans h) hpost
  · exact absurd h hno
  · exact Or.inl ⟨hop, ht⟩
  · exact Or.inr (hop.resolve_left fun hs => by simp [h] at hs)

/-- HALF_OPEN is entered from OPEN only, through a request. -/
theorem onState_enters_halfOpen (h : s.state ≠ .halfOpen)
    (hpost : (op.onState cb now s).state = .halfOpen) : op = .allowRequest ∧ s.state = .open := by
  rcases @onState_cases op cb now s with ⟨hsame, -⟩ | ⟨-, -, hopen, -⟩ | ⟨hop, ho, -⟩ | ⟨-, hclosed⟩
  · exact absurd (hsame ▸ hpost) h
  · simp [hopen] at hpost
  · exact ⟨hop, ho⟩
  · simp [hclosed] at hpost

end Transitions

end CircuitBreaker

end ATP
