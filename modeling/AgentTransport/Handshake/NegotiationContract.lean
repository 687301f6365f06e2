import AgentTransport.Handshake.Negotiation
import AgentTransport.Lib.Double

/-! What a negotiation promises: it stops at the first relaxation of the request that some
    registered entry meets, and contracts the entry with the greatest score there. -/

namespace ATP
open F64
variable {F : Type} [F64 F]

/-- The request after a number of relaxations; `none` when one of them panics. -/
def QoSConstraints.relaxedTimes (qos : QoSConstraints F) (factor : F) :
    ℕ → Option (QoSConstraints F)
  | 0 => some qos
  | n + 1 => (qos.relaxedTimes factor n).bind (·.relax factor)

/-- The request that attempt number `i` makes. -/
def QoSConstraints.atAttempt (qos : QoSConstraints F) (factor : F) (i : ℕ) : QoSConstraints F :=
  (qos.relaxedTimes factor (i - 1)).getD qos

/-- Without a panic each attempt makes the relaxation of the request before it. -/
theorem QoSConstraints.relax_atAttempt {qos : QoSConstraints F} {factor : F} {retries : ℕ}
    (h : ∀ n ≤ retries, (qos.relaxedTimes factor n).isSome) {i : ℕ} (h1 : 1 ≤ i)
    (hi : i ≤ retries) :
    (qos.atAttempt factor i).relax factor = some (qos.atAttempt factor (i + 1)) := by
  obtain ⟨n, rfl⟩ := Nat.exists_eq_add_of_le h1
  obtain ⟨a, ha⟩ := Option.isSome_iff_exists.mp (h n (by omega))
  obtain ⟨b, hb⟩ := Option.isSome_iff_exists.mp (h (n + 1) (by omega))
  have hstep : a.relax factor = some b := by
    rw [relaxedTimes, ha, Option.bind_some] at hb
    exact hb
  have hsub : 1 + n + 1 - 1 = n + 1 := by omega
  rw [atAttempt, atAttempt, Nat.add_sub_cancel_left, hsub, ha, hb]
  exact hstep

/-- Some entry of the task type meets the constraints. -/
def CapabilityRegistry.Capable (registry : CapabilityRegistry F) (t : TaskType)
    (qos : QoSConstraints F) : Prop := ∃ e ∈ registry.byTaskType t, e.Meets qos

/-- Among the entries that meet the constraints `w` has the greatest score, then the greatest
    trust, then the earliest registration. -/
structure CapabilityRegistry.Best (registry : CapabilityRegistry F) (t : TaskType)
    (qos : QoSConstraints F) (w : RegistryEntry F) : Prop where
  score : ∀ e ∈ registry.byTaskType t, e.Meets qos → e.offerScore qos ≤ w.offerScore qos
  ties : ∃ earlier later, registry.byTaskType t = earlier ++ w :: later ∧
    (∀ e ∈ earlier, e.Meets qos → Beats (·.trustScore) (·.offerScore qos) w e) ∧
    ∀ e ∈ later, e.Meets qos → ¬ Beats (·.trustScore) (·.offerScore qos) e w

theorem CapabilityRegistry.findCapable_eq_nil {registry : CapabilityRegistry F} {t : TaskType}
    {qos : QoSConstraints F} : registry.findCapable t qos = [] ↔ ¬ registry.Capable t qos := by
  rw [List.eq_nil_iff_forall_not_mem]
  constructor
  · rintro h ⟨e, he, hm⟩
    exact h e (mem_findCapable.mpr ⟨he, hm⟩)
  · intro h e he
    exact h ⟨e, mem_findCapable.mp he⟩

/-- The winner of the ranking is the best entry of the registry. -/
theorem CapabilityRegistry.best_of_ranked [LawfulF64 F] {registry : CapabilityRegistry F}
    {t : TaskType} {qos : QoSConstraints F} {w : RegistryEntry F} {rest : List (RegistryEntry F)}
    (h : w :: rest = sortDesc (·.offerScore qos) (registry.findCapable t qos))
    (hcost : ∀ e ∈ registry.byTaskType t, e.Meets qos → 0 < qos.maxCost →
      IsNum (e.capability.costPerTask / qos.maxCost)) : registry.Best t qos w := by
  let capable := (registry.byTaskType t).filter (meetsConstraints · qos)
  have hmem : ∀ e, e ∈ capable ↔ e ∈ registry.byTaskType t ∧ e.Meets qos := fun e => by
    rw [List.mem_filter, meetsConstraints_iff]
  have hnd : (registry.byTaskType t).Nodup := registry.nodup_entries t
  have htrust : ∀ e ∈ capable, IsNum e.trustScore :=
    fun e he => IsNum.of_le_right ((hmem e).mp he).2.trust
  have hscore : ∀ e ∈ capable, IsNum (e.offerScore qos) := fun e he =>
    ((hmem e).mp he).2.isNum_offerScore (hcost e ((hmem e).mp he).1 ((hmem e).mp he).2)
  obtain ⟨hmax, pre, post, hsplit, hpre, hpost⟩ :=
    sortDesc_sortDesc_head (hnd.filter _) htrust hscore h.symm
  refine ⟨fun e he hm => hmax e ((hmem e).mpr ⟨he, hm⟩), ?_⟩
  -- the place of the winner among the capable entries is its place among all of them
  obtain ⟨earlier, later, hall, hearlier, hlater⟩ := List.filter_eq_append_iff.mp hsplit
  obtain ⟨skipped, later', hlater', hskip, hw, hpost'⟩ := List.filter_eq_cons_iff.mp hlater
  refine ⟨earlier ++ skipped, later', by rw [hall, hlater', List.append_assoc], ?_, ?_⟩
  · intro e he hm
    rcases List.mem_append.mp he with he | he
    · apply hpre
      rw [← hearlier]
      exact List.mem_filter.mpr ⟨he, meetsConstraints_iff.mpr hm⟩
    · exact absurd (meetsConstraints_iff.mpr hm) (hskip e he)
  · intro e he hm
    apply hpost
    rw [← hpost']
    exact List.mem_filter.mpr ⟨he, meetsConstraints_iff.mpr hm⟩

namespace HandshakeCoordinator

/-- How the attempts after number `attempt` end: at the first one that finds somebody, with its
    best offer contracted, or with nobody found at all. -/
theorem attemptsFrom_spec (c : HandshakeCoordinator F) (env : ℕ → AttemptEnv) (t : TaskType)
    (registry : CapabilityRegistry F) (qs : ℕ → QoSConstraints F)
    (hprompt : ∀ i, (env i).Prompt)
    (hqs : ∀ i, 1 ≤ i → i < c.maxAttempts →
      (qs i).relax c.config.relaxationFactor = some (qs (i + 1))) :
    ∀ remaining attempt, attempt + (remaining + 1) = c.maxAttempts →
      (∃ i, attempt < i ∧ i ≤ c.maxAttempts ∧ registry.Capable t (qs i) ∧
        (∀ j, attempt < j → j < i → ¬ registry.Capable t (qs j)) ∧
        ∃ best rest,
          best.entry :: rest = sortDesc (·.offerScore (qs i)) (registry.findCapable t (qs i)) ∧
          (c.attemptsFrom env t registry (remaining + 1) (attempt + 1)
              (qs (attempt + 1))).run.run .new =
            some (.ok ⟨createContract c.requester best (qs i) c.contractDuration
                (env i).contractId (env i).acceptedAt, best, i, qs i⟩,
              ⟨.contracted, some (env i).contractId, some best.offer.src⟩)) ∨
      ((∀ j, attempt < j → j ≤ c.maxAttempts → ¬ registry.Capable t (qs j)) ∧
        (c.attemptsFrom env t registry (remaining + 1) (attempt + 1)
            (qs (attempt + 1))).run.run .new =
          some (.error (.noCapableAgents t.display), ⟨.failed, none, none⟩)) := by
  -- on the attempts that remain; `attempt` is the number of those made
  intro remaining
  induction remaining with
  | zero =>
    intro attempt hsum
    have hlast : ¬ attempt + 1 < c.maxAttempts := by omega
    by_cases hcap : registry.Capable t (qs (attempt + 1))
    · obtain ⟨best, rest, hbest, hrun⟩ := attemptsFrom_accept (c := c) (n := 0)
        (mt CapabilityRegistry.findCapable_eq_nil.mp (not_not.mpr hcap)) (hprompt (attempt + 1))
      exact Or.inl ⟨attempt + 1, by omega, by omega, hcap, by omega, best, rest, hbest, hrun⟩
    · have hnone := CapabilityRegistry.findCapable_eq_nil.mpr hcap
      refine Or.inr ⟨?_, attemptsFrom_fail hnone hlast⟩
      intro j hj hjm
      obtain rfl : j = attempt + 1 := by omega
      exact hcap
  | succ remaining ih =>
    intro attempt hsum
    have hmore : attempt + 1 < c.maxAttempts := by omega
    by_cases hcap : registry.Capable t (qs (attempt + 1))
    · obtain ⟨best, rest, hbest, hrun⟩ := attemptsFrom_accept (c := c) (n := remaining + 1)
        (mt CapabilityRegistry.findCapable_eq_nil.mp (not_not.mpr hcap)) (hprompt (attempt + 1))
      exact Or.inl ⟨attempt + 1, by omega, by omega, hcap, by omega, best, rest, hbest, hrun⟩
    · have hnone := CapabilityRegistry.findCapable_eq_nil.mpr hcap
      have hbefore : ∀ j, attempt < j → ¬ attempt + 1 < j → ¬ registry.Capable t (qs j) := by
        intro j hj hj'
        obtain rfl : j = attempt + 1 := by omega
        exact hcap
      -- nobody meets the request of this attempt, so the rest decides
      rw [attemptsFrom_retry hnone hmore (hqs (attempt + 1) (by omega) hmore)]
      rcases ih (attempt + 1) (by omega) with ⟨i, hi, him, hcapi, hfirst, hrun⟩ | ⟨hall, hrun⟩
      · refine Or.inl ⟨i, by omega, him, hcapi, ?_, hrun⟩
        intro j hj hji
        by_cases hj' : attempt + 1 < j
        · exact hfirst j hj' hji
        · exact hbefore j hj hj'
      · refine Or.inr ⟨?_, hrun⟩
        intro j hj hjm
        by_cases hj' : attempt + 1 < j
        · exact hall j hj' hjm
        · exact hbefore j hj hj'

/-- The negotiation is the run of its attempts. -/
theorem negotiate_eq {c : HandshakeCoordinator F} {env : ℕ → AttemptEnv} {t : TaskType}
    {qos : QoSConstraints F} {registry : CapabilityRegistry F}
    {result : Except HandshakeError (HandshakeOutcome F)} {sm : HandshakeStateMachine}
    (h : (c.attemptsFrom env t registry c.maxAttempts 1 qos).run.run c.stateMachine =
      some (result, sm)) :
    c.negotiate env t qos registry = some (result, { c with stateMachine := sm }) := by
  rw [negotiate, h, Option.map_some]

/-- Attempt `i` is in the budget and somebody meets its request. -/
def Finds (config : HandshakeConfig F) (registry : CapabilityRegistry F) (t : TaskType)
    (qos : QoSConstraints F) (i : ℕ) : Prop :=
  1 ≤ i ∧ i ≤ config.maxRetries.toNat + 1 ∧
    registry.Capable t (qos.atAttempt config.relaxationFactor i)

/-- The first attempt that finds somebody has contracted its best entry. -/
structure Concludes (config : HandshakeConfig F) (registry : CapabilityRegistry F) (t : TaskType)
    (qos : QoSConstraints F) (o : HandshakeOutcome F) (c : HandshakeCoordinator F) : Prop where
  finds : Finds config registry t qos o.attempts
  least : ∀ i, Finds config registry t qos i → o.attempts ≤ i
  qos_eq : o.effectiveQos = qos.atAttempt config.relaxationFactor o.attempts
  /-- `Best` compares scores, so it asks that no cost is infinite under an infinite bound. -/
  winner : ∃ w ∈ registry.byTaskType t, w.Meets o.effectiveQos ∧ o.contract.dst = w.agentId ∧
    ((∀ e ∈ registry.byTaskType t, e.Meets o.effectiveQos → 0 < o.effectiveQos.maxCost →
      IsNum (e.capability.costPerTask / o.effectiveQos.maxCost)) →
        registry.Best t o.effectiveQos w)
  state : c.state = .contracted
  contractId : c.stateMachine.contractId = some o.contract.contractId
  selectedAgent : c.stateMachine.selectedAgent = some o.contract.dst

/-- Two agents for data processing, both below quality 0.7. -/
def processors : CapabilityRegistry ℚ :=
  (CapabilityRegistry.new.register ⟨1⟩
    ⟨.dataProcessing, 65 / 100, Duration.millis 100, 1 / 2⟩ (6 / 10)).register ⟨2⟩
    ⟨.dataProcessing, 68 / 100, Duration.millis 200, 1 / 2⟩ (8 / 10)

def strictRequest : QoSConstraints ℚ := ⟨7 / 10, Duration.secs 1, 1, 1 / 2⟩

/-- Every offer is checked one nanosecond after it was made. -/
def promptEnv (_ : ℕ) : AttemptEnv := ⟨0, 0, fun _ => 0, fun _ => 1, 7, 2⟩

theorem prompt_promptEnv (i : ℕ) : (promptEnv i).Prompt := by
  intro _
  show (1 : ℤ) ≤ 0 + (defaultOfferTtl : ℤ)
  decide

/-- The most trusted analyst, and one who is better, quicker and free. -/
def trusted : RegistryEntry Double :=
  ⟨⟨1⟩, ⟨.analysis, lit (1 / 2), Duration.secs 1, lit 1⟩, lit (9 / 10)⟩

def better : RegistryEntry Double :=
  ⟨⟨3⟩, ⟨.analysis, lit 1, Duration.millis 1, lit 0⟩, lit (8 / 10)⟩

/-- Between the two in trust, at an infinite cost. -/
def priceless : RegistryEntry Double :=
  ⟨⟨2⟩, ⟨.analysis, lit (8 / 10), Duration.millis 100, Double.infinity⟩, lit (85 / 100)⟩

def analysts : CapabilityRegistry Double :=
  [trusted, priceless, better].foldl
    (fun r e => r.register e.agentId e.capability e.trustScore) .new

def boundlessRequest : QoSConstraints Double :=
  ⟨lit (1 / 2), Duration.secs 10, Double.infinity, lit (1 / 2)⟩

example : ((new ⟨0⟩ HandshakeConfig.default).negotiate promptEnv .dataProcessing strictRequest
    processors).map (fun (result, c) =>
      (result.toOption.map fun o => (o.attempts, o.contract.dst), c.state)) =
    some (some (2, ⟨2⟩), .contracted) := by decide +kernel

end HandshakeCoordinator

end ATP
