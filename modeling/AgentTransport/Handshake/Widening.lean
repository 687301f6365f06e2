import AgentTransport.Handshake.NegotiationContract
import AgentTransport.Lib.Exact

/-! When a relaxation widens the request. The bounds are relaxed each in its own way:

        min quality, min trust    times 1 - f, at least 0
        max latency               times 1 + f, rounded to a nanosecond
        max cost                  times 1 + f

    A bound that is negative moves the other way: the minima are raised to 0, and a negative maximum
    is lowered. Bounds arrive over the wire, unchecked. -/

namespace ATP
open F64

section Order
variable {F : Type} [F64 F]

theorem QoSConstraints.AtMostAsStrict.meets [OrderedF64 F] {q q' : QoSConstraints F}
    (h : q'.AtMostAsStrict q) {e : RegistryEntry F} (hm : e.Meets q) : e.Meets q' where
  quality := F64.le_trans h.quality hm.quality
  latency := hm.latency.trans h.latency
  cost := F64.le_trans hm.cost h.cost
  trust := F64.le_trans h.trust hm.trust

/-- Every entry found for one request is found for the other, in every registry. -/
def QoSConstraints.Widens (q' q : QoSConstraints F) : Prop :=
  ∀ (registry : CapabilityRegistry F) (t : TaskType), ∀ e ∈ registry.findCapable t q,
    e ∈ registry.findCapable t q'

end Order

section Exact
variable {K : Type} [Field K] [LinearOrder K] [IsStrictOrderedRing K] [FloorRing K]

namespace QoSConstraints
variable {q q' : QoSConstraints K} {factor : K}

/-- An entry that meets a request just so. -/
def exactly (q : QoSConstraints K) : Capability K :=
  ⟨.analysis, q.minQuality, q.maxLatency, q.maxCost⟩

omit [IsStrictOrderedRing K] in
/-- More entries are found for the laxer requests, and only for them. -/
theorem widens_iff : q'.Widens q ↔ q'.AtMostAsStrict q := by
  constructor
  · intro h
    have hentry : (⟨⟨1⟩, q.exactly, q.minTrust⟩ : RegistryEntry K) ∈
        (CapabilityRegistry.new.register ⟨1⟩ q.exactly q.minTrust).findCapable .analysis q :=
      CapabilityRegistry.mem_findCapable.mpr
        ⟨by simp [CapabilityRegistry.byTaskType_register, exactly],
          ⟨le_refl _, le_refl _, le_refl _, le_refl _⟩⟩
    have hmeets := (CapabilityRegistry.mem_findCapable.mp (h _ .analysis _ hentry)).2
    exact ⟨hmeets.quality, hmeets.latency, hmeets.cost, hmeets.trust⟩
  · intro h registry t e he
    obtain ⟨hmem, hmeets⟩ := CapabilityRegistry.mem_findCapable.mp he
    exact CapabilityRegistry.mem_findCapable.mpr ⟨hmem, h.meets hmeets⟩

/-- No bound moves the wrong way. -/
structure Relaxable (q : QoSConstraints K) (factor : K) : Prop where
  quality : 0 ≤ q.minQuality
  trust : 0 ≤ q.minTrust
  cost : 0 ≤ q.maxCost ∨ factor = 0

/-- A minimum times `1 - f`, at least 0, is no higher when it was not negative. -/
theorem max_mul_le_iff (h0 : 0 ≤ factor) {x : K} : F64.max (x * (1 - factor)) 0 ≤ x ↔ 0 ≤ x := by
  rw [max_field, max_le_iff]
  refine and_iff_right_of_imp fun hx => ?_
  have hmul : 0 ≤ x * factor := mul_nonneg hx h0
  linarith

/-- A maximum times `1 + f` is no lower when it was not negative, or is the same. -/
theorem le_mul_iff (h0 : 0 ≤ factor) {x : K} : x ≤ x * (1 + factor) ↔ 0 ≤ x ∨ factor = 0 := by
  have hsplit : x ≤ x * (1 + factor) ↔ 0 ≤ x * factor := by
    rw [mul_add, mul_one, le_add_iff_nonneg_right]
  rw [hsplit]
  rcases h0.eq_or_lt with rfl | hpos
  · simp
  · rw [mul_nonneg_iff_of_pos_right hpos, or_iff_left hpos.ne']

theorem relax_iff (h0 : 0 ≤ factor) (h : q.relax factor = some q') :
    q'.AtMostAsStrict q ↔ q.Relaxable factor := by
  obtain ⟨latency, hlatency, rfl⟩ := Option.map_eq_some_iff.mp h
  have hle : q.maxLatency ≤ latency := le_of_fromSecs_mul (by linarith) hlatency
  constructor
  · intro hle'
    exact ⟨(max_mul_le_iff h0).mp hle'.quality, (max_mul_le_iff h0).mp hle'.trust,
      (le_mul_iff h0).mp hle'.cost⟩
  · intro hq
    exact ⟨(max_mul_le_iff h0).mpr hq.quality, hle, (le_mul_iff h0).mpr hq.cost,
      (max_mul_le_iff h0).mpr hq.trust⟩

/-- What a relaxation widens, the next one widens. -/
theorem Relaxable.relax (hq : q.Relaxable factor) (h0 : 0 ≤ factor)
    (h : q.relax factor = some q') : q'.Relaxable factor := by
  obtain ⟨latency, -, rfl⟩ := Option.map_eq_some_iff.mp h
  have hfloor : ∀ x : K, 0 ≤ F64.max x 0 := fun x => by
    rw [max_field]
    exact le_max_right x 0
  have hgrow : 0 ≤ 1 + factor := by linarith
  exact ⟨hfloor _, hfloor _, hq.cost.imp_left fun hc => mul_nonneg hc hgrow⟩

theorem Relaxable.relaxedTimes (hq : q.Relaxable factor) (h0 : 0 ≤ factor) {n : ℕ}
    (h : q.relaxedTimes factor n = some q') : q'.Relaxable factor := by
  induction n generalizing q' with
  | zero =>
    obtain rfl := Option.some.inj h
    exact hq
  | succ n ih =>
    obtain ⟨a, ha, hrelax⟩ := Option.bind_eq_some_iff.mp h
    exact (ih ha).relax h0 hrelax

/-- A latency bound that came over the wire can be relaxed. -/
theorem relax_isSome_of_wire (h0 : 0 ≤ factor) (h1 : factor ≤ 1) {ms : UInt64}
    (hwire : q.maxLatency = Duration.millis ms.toNat) : (q.relax factor).isSome := by
  have hms : (ms.toNat : K) < 2 ^ 64 := by exact_mod_cast ms.toNat_lt
  have hms0 : (0 : K) ≤ ms.toNat := Nat.cast_nonneg _
  rw [relax, Option.isSome_map, fromSecs_isSome_iff, hwire, asSecs_field, Duration.millis]
  push_cast
  constructor
  · positivity
  · calc (ms.toNat * 1000000 / 10 ^ 9 * (1 + factor) * 10 ^ 9 : K)
        = ms.toNat * (1 + factor) * 10 ^ 6 := by ring
      _ ≤ ms.toNat * 2 * 10 ^ 6 := by gcongr; linarith
      _ ≤ 2 ^ 64 * 2 * 10 ^ 6 := by gcongr
      _ < 2 ^ 64 * 10 ^ 9 - 1 / 2 := by norm_num

/-- When relaxing a request widens it: once, and from each attempt of a negotiation to the next, for
    as long as no relaxation panics. -/
theorem relaxation_widens_iff (h0 : 0 ≤ factor) (h1 : factor ≤ 1) {ms : UInt64}
    (hwire : q.maxLatency = Duration.millis ms.toNat) :
    ((∃ q', q.relax factor = some q' ∧ q'.Widens q) ∧
      ∀ i, 1 ≤ i → (q.relaxedTimes factor i).isSome →
        (q.atAttempt factor (i + 1)).Widens (q.atAttempt factor i)) ↔
      q.Relaxable factor := by
  obtain ⟨q', hrelax⟩ := Option.isSome_iff_exists.mp (relax_isSome_of_wire h0 h1 hwire)
  constructor
  · rintro ⟨⟨q'', hq'', hwidens⟩, -⟩
    exact (relax_iff h0 hq'').mp (widens_iff.mp hwidens)
  · intro hq
    refine ⟨⟨q', hrelax, widens_iff.mpr ((relax_iff h0 hrelax).mpr hq)⟩, fun i hi hsome => ?_⟩
    obtain ⟨n, rfl⟩ := Nat.exists_eq_add_of_le' hi
    obtain ⟨b, hb⟩ := Option.isSome_iff_exists.mp hsome
    obtain ⟨a, ha, hab⟩ := Option.bind_eq_some_iff.mp hb
    have hnow : q.atAttempt factor (n + 1) = a := by
      rw [atAttempt, Nat.add_sub_cancel, ha]
      rfl
    have hnext : q.atAttempt factor (n + 1 + 1) = b := by
      rw [atAttempt, Nat.add_sub_cancel, hb]
      rfl
    rw [hnow, hnext, widens_iff, relax_iff h0 hab]
    exact hq.relaxedTimes h0 ha

end QoSConstraints

end Exact

/-- A request at quality 1/2, and its relaxation. -/
theorem relaxation_widens_half :
    let q : QoSConstraints ℚ := ⟨1 / 2, Duration.millis 1000, 1, 0⟩
    (∃ q', q.relax (1 / 10) = some q' ∧ q'.Widens q) ∧
      ∀ i, 1 ≤ i → (q.relaxedTimes (1 / 10) i).isSome →
        (q.atAttempt (1 / 10) (i + 1)).Widens (q.atAttempt (1 / 10) i) :=
  (QoSConstraints.relaxation_widens_iff (by norm_num) (by norm_num)
    (show Duration.millis 1000 = Duration.millis (1000 : UInt64).toNat from rfl)).mpr
    ⟨by norm_num, le_refl 0, Or.inl zero_le_one⟩

/-- A minimum quality of -1 admits an agent of quality -1/2; relaxed, it is 0. -/
theorem negative_minimum_tightens :
    let registry : CapabilityRegistry ℚ :=
      CapabilityRegistry.new.register ⟨1⟩ ⟨.analysis, -1 / 2, Duration.millis 100, 1⟩ (1 / 2)
    let q : QoSConstraints ℚ := ⟨-1, Duration.millis 1000, 1, 1 / 2⟩
    ¬ ∀ q', q.relax (1 / 10) = some q' → ∀ e ∈ registry.findCapable .analysis q,
      e ∈ registry.findCapable .analysis q' := by
  intro registry q h
  have hfound : 0 < (registry.findCapable .analysis q).length ∧
      (q.relax (1 / 10)).map (fun q' => (registry.findCapable .analysis q').length) = some 0 := by
    decide +kernel
  obtain ⟨q', hrelax, hnone⟩ := Option.map_eq_some_iff.mp hfound.2
  obtain ⟨e, he⟩ := List.exists_mem_of_length_pos hfound.1
  have hlost := h q' hrelax e he
  rw [List.length_eq_zero_iff.mp hnone] at hlost
  cases hlost

end ATP
