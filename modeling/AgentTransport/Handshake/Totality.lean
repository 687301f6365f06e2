import AgentTransport.Handshake.NegotiationContract
import Mathlib.Data.UInt

/-! Whether a negotiation returns. Two operations of the loop have a range: the budget
    `max_retries + 1` is a 32-bit number, and every relaxation sends the latency bound through
    `Duration::from_secs_f64`, which panics beyond `Duration::MAX`. -/

namespace ATP
open F64
variable {F : Type} [F64 F]

/-! ### The latency bound of each attempt -/

/-- The latency bound after a number of relaxations; `none` when one of them panics. -/
def latencyAfter (factor : F) (latency : Duration) : ℕ → Option Duration
  | 0 => some latency
  | n + 1 => (latencyAfter factor latency n).bind fun d => fromSecs (asSecs d * (1 + factor))

namespace QoSConstraints
variable {qos : QoSConstraints F} {factor : F}

theorem map_relaxedTimes (n : ℕ) :
    (qos.relaxedTimes factor n).map (·.maxLatency) = latencyAfter factor qos.maxLatency n := by
  induction n with
  | zero => rfl
  | succ n ih =>
    rw [relaxedTimes, latencyAfter, ← ih, Option.map_bind, Option.bind_map]
    congr 1
    funext q
    simp only [Function.comp_apply, relax, Option.map_map]
    exact Option.map_id'

/-- Only the latency bound decides whether a relaxation panics. -/
theorem relaxedTimes_eq_none_iff {n : ℕ} :
    qos.relaxedTimes factor n = none ↔ latencyAfter factor qos.maxLatency n = none := by
  rw [← map_relaxedTimes, Option.map_eq_none_iff]

/-- The first relaxation may be taken first. -/
theorem relaxedTimes_succ (n : ℕ) :
    qos.relaxedTimes factor (n + 1) = (qos.relax factor).bind (·.relaxedTimes factor n) := by
  induction n with
  | zero =>
    rw [relaxedTimes, relaxedTimes, Option.bind_some]
    exact (Option.bind_fun_some _).symm
  | succ n ih =>
    rw [relaxedTimes, ih, Option.bind_assoc]
    rfl

end QoSConstraints

/-! ### One attempt -/

/-- Some offer to the attempt is good when it is checked. -/
def AttemptEnv.Answers (env : AttemptEnv) (entries : List (RegistryEntry F)) : Prop :=
  ∃ i < entries.length, env.checkedAt i ≤ env.offeredAt i + (defaultOfferTtl : ℤ)

omit [F64 F] in
theorem validOffers_ne_nil_iff {env : AttemptEnv} {probe : CapabilityProbeMsg F}
    {entries : List (RegistryEntry F)} :
    validOffers env (simulateOffers env probe entries) ≠ [] ↔ env.Answers entries := by
  rw [validOffers, Ne, List.map_eq_nil_iff, List.filter_eq_nil_iff]
  push Not
  constructor
  · rintro ⟨o, ho, hvalid⟩
    obtain ⟨x, hx, rfl⟩ := List.mem_map.mp ho
    refine ⟨x.2, ?_, ?_⟩
    · simpa using (List.mem_zipIdx (x := x.1) (i := x.2) hx).2.1
    · exact isOfferExpired_default.mp (by simpa using hvalid)
  · rintro ⟨i, hi, hgood⟩
    refine ⟨_, List.mem_map_of_mem (List.mk_mem_zipIdx_iff_getElem?.mpr
      (List.getElem?_eq_getElem hi)), ?_⟩
    simpa using isOfferExpired_default.mpr hgood

namespace HandshakeCoordinator

section Attempt
variable {c : HandshakeCoordinator F} {env : ℕ → AttemptEnv} {t : TaskType}
  {registry : CapabilityRegistry F} {n attempt : ℕ} {qos : QoSConstraints F}

theorem attemptOffers_ne_nil_iff :
    c.attemptOffers env t registry attempt qos ≠ [] ↔
      (env attempt).Answers (registry.findCapable t qos) :=
  validOffers_ne_nil_iff

/-- An answered attempt ends in a contract. -/
theorem attemptsFrom_answered (h : (env attempt).Answers (registry.findCapable t qos)) :
    ∃ o sm, (c.attemptsFrom env t registry (n + 1) attempt qos).run.run .new =
      some (.ok o, sm) := by
  have hranked : rankOffers (c.attemptOffers env t registry attempt qos) qos.maxLatency
      qos.maxCost ≠ [] := by
    intro hnil
    have hlen := congrArg List.length hnil
    simp only [rankOffers, OfferRanker.rank, sortDesc, List.length_insertionSort, List.length_map,
      List.length_nil] at hlen
    exact attemptOffers_ne_nil_iff.mpr h (List.length_eq_zero_iff.mp hlen)
  obtain ⟨best, rest, hr⟩ := List.exists_cons_of_ne_nil hranked
  exact ⟨_, _, attemptsFrom_best hr⟩

/-- An unanswered attempt is followed by the next one, with relaxed bounds. -/
theorem attemptsFrom_unanswered (h : ¬ (env attempt).Answers (registry.findCapable t qos))
    (hmore : attempt < c.maxAttempts) :
    (c.attemptsFrom env t registry (n + 1) attempt qos).run.run .new =
      (qos.relax c.config.relaxationFactor).bind fun relaxed =>
        (c.attemptsFrom env t registry n (attempt + 1) relaxed).run.run .new :=
  attemptsFrom_silent (not_not.mp (mt attemptOffers_ne_nil_iff.mp h)) hmore

/-- An unanswered attempt that is the last ends in an error. -/
theorem attemptsFrom_last (h : ¬ (env attempt).Answers (registry.findCapable t qos))
    (hlast : ¬ attempt < c.maxAttempts) :
    ∃ e sm, (c.attemptsFrom env t registry (n + 1) attempt qos).run.run .new =
      some (.error e, sm) := by
  have hprobe : (processProbe (createProbe c.requester t qos none (env attempt).nonce
      (env attempt).probedAt) registry).matchingEntries = registry.findCapable t qos := rfl
  have hvalid : c.attemptOffers env t registry attempt qos = [] :=
    not_not.mp (mt attemptOffers_ne_nil_iff.mp h)
  rw [attemptOffers] at hvalid
  rw [attemptsFrom]
  simp only [hprobe, hvalid, List.isEmpty_nil, if_true, relaxOrFail, if_neg hlast]
  split
  · exact ⟨_, _, rfl⟩
  · exact ⟨_, _, rfl⟩

end Attempt

/-! ### The attempts of a loop -/

/-- The loop with `remaining` attempts left, from number `attempt` on, makes `made` attempts and
    comes to `result`; `none` is a panic. -/
inductive Attempts (c : HandshakeCoordinator F) (env : ℕ → AttemptEnv) (t : TaskType)
    (registry : CapabilityRegistry F) : ℕ → ℕ → QoSConstraints F → ℕ →
      Option (Except HandshakeError (HandshakeOutcome F)) → Prop
  | exhausted {attempt : ℕ} {qos : QoSConstraints F} : Attempts c env t registry 0 attempt qos 0
      (some (.error (.negotiationFailed "exhausted all attempts")))
  | contracted {remaining attempt : ℕ} {qos : QoSConstraints F} {o : HandshakeOutcome F}
      (h : (env attempt).Answers (registry.findCapable t qos)) :
      Attempts c env t registry (remaining + 1) attempt qos 1 (some (.ok o))
  | failed {remaining attempt : ℕ} {qos : QoSConstraints F} {e : HandshakeError}
      (h : ¬ (env attempt).Answers (registry.findCapable t qos))
      (hlast : ¬ attempt < c.maxAttempts) :
      Attempts c env t registry (remaining + 1) attempt qos 1 (some (.error e))
  | panicked {remaining attempt : ℕ} {qos : QoSConstraints F}
      (h : ¬ (env attempt).Answers (registry.findCapable t qos)) (hmore : attempt < c.maxAttempts)
      (hrelax : qos.relax c.config.relaxationFactor = none) :
      Attempts c env t registry (remaining + 1) attempt qos 1 none
  | retried {remaining attempt made : ℕ} {qos relaxed : QoSConstraints F}
      {result : Option (Except HandshakeError (HandshakeOutcome F))}
      (h : ¬ (env attempt).Answers (registry.findCapable t qos)) (hmore : attempt < c.maxAttempts)
      (hrelax : qos.relax c.config.relaxationFactor = some relaxed)
      (hrest : Attempts c env t registry remaining (attempt + 1) relaxed made result) :
      Attempts c env t registry (remaining + 1) attempt qos (made + 1) result

section Attempts
variable {c : HandshakeCoordinator F} {env : ℕ → AttemptEnv} {t : TaskType}
  {registry : CapabilityRegistry F} {remaining attempt made : ℕ} {qos : QoSConstraints F}
  {result : Option (Except HandshakeError (HandshakeOutcome F))}

/-- The loop of the code makes some number of attempts. -/
theorem attempts_of_loop (remaining attempt : ℕ) (qos : QoSConstraints F) :
    ∃ made, Attempts c env t registry remaining attempt qos made
      (((c.attemptsFrom env t registry remaining attempt qos).run.run .new).map Prod.fst) := by
  induction remaining generalizing attempt qos with
  | zero => exact ⟨0, .exhausted⟩
  | succ n ih =>
    by_cases hanswers : (env attempt).Answers (registry.findCapable t qos)
    · obtain ⟨o, sm, hrun⟩ := attemptsFrom_answered (c := c) (n := n) hanswers
      rw [hrun]
      exact ⟨1, .contracted hanswers⟩
    · rcases Nat.lt_or_ge attempt c.maxAttempts with hmore | hlast
      · rw [attemptsFrom_unanswered hanswers hmore]
        cases hrelax : qos.relax c.config.relaxationFactor with
        | none => exact ⟨1, .panicked hanswers hmore hrelax⟩
        | some relaxed =>
          obtain ⟨made, hrest⟩ := ih (attempt + 1) relaxed
          exact ⟨made + 1, .retried hanswers hmore hrelax hrest⟩
      · obtain ⟨e, sm, hrun⟩ := attemptsFrom_last (c := c) (n := n) hanswers hlast.not_gt
        rw [hrun]
        exact ⟨1, .failed hanswers hlast.not_gt⟩

/-- The first `n` requests from number `attempt` on go unanswered. -/
def Silent (c : HandshakeCoordinator F) (env : ℕ → AttemptEnv) (t : TaskType)
    (registry : CapabilityRegistry F) (attempt : ℕ) (qos : QoSConstraints F) (n : ℕ) : Prop :=
  ∀ m < n, ∀ q, qos.relaxedTimes c.config.relaxationFactor m = some q →
    ¬ (env (attempt + m)).Answers (registry.findCapable t q)

/-- One more request in front. -/
theorem silent_succ {relaxed : QoSConstraints F} {n : ℕ}
    (hrelax : qos.relax c.config.relaxationFactor = some relaxed) :
    Silent c env t registry attempt qos (n + 1) ↔
      ¬ (env attempt).Answers (registry.findCapable t qos) ∧
        Silent c env t registry (attempt + 1) relaxed n := by
  constructor
  · intro h
    refine ⟨h 0 (by omega) qos rfl, fun m hm q hq => ?_⟩
    have := h (m + 1) (by omega) q (by rw [QoSConstraints.relaxedTimes_succ, hrelax]; exact hq)
    rwa [show attempt + (m + 1) = attempt + 1 + m by omega] at this
  · rintro ⟨hfirst, hrest⟩ m hm q hq
    cases m with
    | zero =>
      obtain rfl := Option.some.inj hq
      exact hfirst
    | succ m =>
      rw [QoSConstraints.relaxedTimes_succ, hrelax] at hq
      rw [show attempt + (m + 1) = attempt + 1 + m by omega]
      exact hrest m (by omega) q hq

/-- The loop panics exactly when a relaxation does after unanswered attempts only. -/
theorem Attempts.panics_iff (h : Attempts c env t registry remaining attempt qos made result)
    (hsum : attempt + remaining = c.maxAttempts + 1) :
    result = none ↔ ∃ n, n + 1 < remaining ∧ Silent c env t registry attempt qos (n + 1) ∧
      qos.relaxedTimes c.config.relaxationFactor (n + 1) = none := by
  induction h with
  | exhausted => simp
  | @contracted remaining attempt qos o hanswers =>
    simp only [reduceCtorEq, false_iff, not_exists]
    rintro n ⟨-, hsilent, -⟩
    exact hsilent 0 (by omega) qos rfl hanswers
  -- the last attempt relaxes nothing any more
  | failed hnot hlast =>
    simp only [reduceCtorEq, false_iff, not_exists]
    rintro n ⟨hn, -⟩
    omega
  -- the first relaxation of what is left panics
  | @panicked remaining attempt qos hnot hmore hrelax =>
    refine iff_of_true rfl ⟨0, by omega, ?_, ?_⟩
    · intro m hm q hq
      obtain rfl : m = 0 := by omega
      obtain rfl := Option.some.inj hq
      exact hnot
    · rw [QoSConstraints.relaxedTimes_succ, hrelax, Option.bind_none]
  -- a relaxation that returns moves the count by one
  | @retried remaining attempt made qos relaxed result hnot hmore hrelax hrest ih =>
    rw [ih (by omega)]
    constructor
    · rintro ⟨n, hn, hsilent, hnone⟩
      refine ⟨n + 1, by omega, (silent_succ hrelax).mpr ⟨hnot, hsilent⟩, ?_⟩
      rw [QoSConstraints.relaxedTimes_succ, hrelax]
      exact hnone
    · rintro ⟨n, hn, hsilent, hnone⟩
      rw [QoSConstraints.relaxedTimes_succ, hrelax, Option.bind_some] at hnone
      cases n with
      | zero => cases hnone
      | succ n => exact ⟨n, by omega, ((silent_succ hrelax).mp hsilent).2, hnone⟩

/-- When nothing is ever answered and nothing panics, every attempt is made and the last one
    fails. -/
theorem Attempts.all_made (h : Attempts c env t registry remaining attempt qos made result)
    (hsum : attempt + remaining = c.maxAttempts + 1)
    (hsilent : Silent c env t registry attempt qos remaining) (hsome : result ≠ none) :
    made = remaining ∧ ∃ e, result = some (.error e) := by
  induction h with
  | exhausted => exact ⟨rfl, _, rfl⟩
  | @contracted remaining attempt qos o hanswers =>
    exact absurd hanswers (hsilent 0 (by omega) qos rfl)
  | failed hnot hlast => exact ⟨by omega, _, rfl⟩
  | panicked => exact absurd rfl hsome
  | retried hnot hmore hrelax hrest ih =>
    obtain ⟨hmade, herror⟩ := ih (by omega) ((silent_succ hrelax).mp hsilent).2 hsome
    exact ⟨by omega, herror⟩

/-- The number of attempts is determined. -/
theorem Attempts.unique {made' : ℕ}
    {result' : Option (Except HandshakeError (HandshakeOutcome F))}
    (h : Attempts c env t registry remaining attempt qos made result)
    (h' : Attempts c env t registry remaining attempt qos made' result') : made = made' := by
  -- two runs of the loop part nowhere: what an attempt does is decided by the request
  induction h generalizing made' with
  | exhausted => cases h'; rfl
  | contracted hanswers =>
    cases h' with
    | contracted => rfl
    | failed hnot => exact absurd hanswers hnot
    | panicked hnot => exact absurd hanswers hnot
    | retried hnot => exact absurd hanswers hnot
  | failed hnot hlast =>
    cases h' with
    | contracted hanswers => exact absurd hanswers hnot
    | failed => rfl
    | panicked _ hmore => exact absurd hmore hlast
    | retried _ hmore => exact absurd hmore hlast
  | panicked hnot hmore hrelax =>
    cases h' with
    | contracted hanswers => exact absurd hanswers hnot
    | failed _ hlast => exact absurd hmore hlast
    | panicked => rfl
    | retried _ _ hrelax' => rw [hrelax] at hrelax'; cases hrelax'
  | retried hnot hmore hrelax hrest ih =>
    cases h' with
    | contracted hanswers => exact absurd hanswers hnot
    | failed _ hlast => exact absurd hmore hlast
    | panicked _ _ hrelax' => rw [hrelax] at hrelax'; cases hrelax'
    | retried _ _ hrelax' hrest' =>
      rw [hrelax] at hrelax'
      obtain rfl := Option.some.inj hrelax'
      rw [ih hrest']

end Attempts

/-! ### The whole negotiation -/

section Total
variable {registry : CapabilityRegistry F} {t : TaskType} {qos : QoSConstraints F}
  {config : HandshakeConfig F} {requester : AgentId} {env : ℕ → AttemptEnv}

/-- The negotiation makes `made` attempts. -/
def Makes (c : HandshakeCoordinator F) (env : ℕ → AttemptEnv) (t : TaskType)
    (registry : CapabilityRegistry F) (qos : QoSConstraints F) (made : ℕ) : Prop :=
  Attempts c env t registry c.maxAttempts 1 qos made
    ((c.negotiate env t qos registry).map Prod.fst)

theorem exists_makes : ∃ made, Makes (new requester config) env t registry qos made := by
  obtain ⟨made, h⟩ : ∃ made, Attempts (new requester config) env t registry
      (new requester config).maxAttempts 1 qos made _ := attempts_of_loop _ _ _
  refine ⟨made, ?_⟩
  rw [Makes, negotiate, Option.map_map]
  exact h

/-- The budget does not wrap around, the negotiation returns, and when no entry matches a request
    that it makes all attempts of the budget are made and the last one fails. -/
structure Total (registry : CapabilityRegistry F) (t : TaskType) (qos : QoSConstraints F)
    (config : HandshakeConfig F) (requester : AgentId) (env : ℕ → AttemptEnv) : Prop where
  fits : (config.maxRetries + 1).toNat = config.maxRetries.toNat + 1
  returns : ∃ result c, (new requester config).negotiate env t qos registry = some (result, c)
  exhaustive : (∀ m ≤ config.maxRetries.toNat, ∀ q,
      qos.relaxedTimes config.relaxationFactor m = some q → ¬ registry.Capable t q) →
    Makes (new requester config) env t registry qos (config.maxRetries.toNat + 1) ∧
      ∃ e c, (new requester config).negotiate env t qos registry = some (.error e, c)

/-- There is room for one more attempt than `max_retries`, and as long as requests go unanswered
    the relaxed latency bound is a duration. -/
structure InRange (registry : CapabilityRegistry F) (t : TaskType) (qos : QoSConstraints F)
    (config : HandshakeConfig F) (requester : AgentId) (env : ℕ → AttemptEnv) : Prop where
  retries : config.maxRetries.toNat < 2 ^ 32 - 1
  latency : ∀ n < config.maxRetries.toNat,
    Silent (new requester config) env t registry 1 qos (n + 1) →
      (latencyAfter config.relaxationFactor qos.maxLatency (n + 1)).isSome

/-- The negotiation panics exactly when a relaxation does after unanswered attempts only. -/
theorem negotiate_eq_none_iff :
    (new requester config).negotiate env t qos registry = none ↔
      ∃ n, n + 1 < (new requester config).maxAttempts ∧
        Silent (new requester config) env t registry 1 qos (n + 1) ∧
        latencyAfter config.relaxationFactor qos.maxLatency (n + 1) = none := by
  obtain ⟨made, hmade⟩ : ∃ made, Makes (new requester config) env t registry qos made :=
    exists_makes
  have hpanics := hmade.panics_iff (Nat.add_comm _ _)
  rw [Option.map_eq_none_iff] at hpanics
  simp only [QoSConstraints.relaxedTimes_eq_none_iff] at hpanics
  exact hpanics

/-- A request that no entry matches goes unanswered. -/
theorem silent_of_not_capable {c : HandshakeCoordinator F} {n : ℕ}
    (h : ∀ m < n, ∀ q, qos.relaxedTimes c.config.relaxationFactor m = some q →
      ¬ registry.Capable t q) : Silent c env t registry 1 qos n := by
  intro m hm q hq hanswers
  obtain ⟨i, hi, -⟩ := hanswers
  rw [CapabilityRegistry.findCapable_eq_nil.mpr (h m hm q hq)] at hi
  exact absurd hi (Nat.not_lt_zero i)

end Total

end HandshakeCoordinator

end ATP
