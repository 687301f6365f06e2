import AgentTransport.Transport.Rewrites
import AgentTransport.Handshake.Offer

/-! Who matches a request after the capability and the constraints have crossed the wire: the wire
    counts latencies in whole milliseconds, in 64 bits, and both sides of the comparison lose what
    it does not carry. -/

namespace ATP
open F64
variable {F : Type}

/-- A capability that has crossed the wire. -/
def Capability.overWire (cap : Capability F) : Except CodecError (Capability F) :=
  protoToCapability (capabilityToProto cap)

def QoSConstraints.overWire (qos : QoSConstraints F) : QoSConstraints F :=
  protoToQos (qosToProto qos)

/-- Encoded capabilities are always accepted; only the latency can differ. -/
theorem Capability.overWire_eq (cap : Capability F) : cap.overWire =
    .ok { cap with estimatedLatency := Duration.fromMillis cap.estimatedLatency.asMillisU64 } := by
  simp only [overWire, protoToCapability, capabilityToProto, protoToTaskType_taskTypeToI32,
    Codec.ok_bind, Codec.pure_eq_ok]

/-! ### Latencies -/

theorem fromMillis_le_fromMillis {a b : UInt64} :
    Duration.fromMillis a ≤ Duration.fromMillis b ↔ a ≤ b := by
  rw [UInt64.le_iff_toNat_le]
  exact Nat.mul_le_mul_right_iff (by decide)

theorem asMillisU64_toNat {d : Duration} (h : d < Duration.millis (2 ^ 64)) :
    (Duration.asMillisU64 d).toNat = d / 10 ^ 6 := by
  have hms : d / 10 ^ 6 < 2 ^ 64 := Nat.div_lt_of_lt_mul (Nat.mul_comm _ _ ▸ h)
  exact UInt64.toNat_ofNat_of_lt' hms

/-- Below `2 ^ 64` milliseconds the wire loses no bound that held; it gains those that were missed
    within the last millisecond. -/
theorem asMillisU64_le_iff {a b : ℕ} (ha : a < Duration.millis (2 ^ 64))
    (hb : b < Duration.millis (2 ^ 64)) :
    Duration.asMillisU64 a ≤ Duration.asMillisU64 b ↔
      a ≤ b ∨ b < a ∧ a / 10 ^ 6 = b / 10 ^ 6 := by
  rw [UInt64.le_iff_toNat_le, asMillisU64_toNat ha, asMillisU64_toNat hb]
  omega

/-! ### Matching -/

variable [F64 F]

section Decoded
variable {cap cap' : Capability F} {trust : F} {qos : QoSConstraints F}

/-- Matching over the wire compares counts of milliseconds. -/
theorem matches_overWire_iff (h : cap.overWire = .ok cap') :
    capabilityMatchesProbe cap' trust qos.overWire = true ↔ MeetsButLatency cap trust qos ∧
      cap.estimatedLatency.asMillisU64 ≤ qos.maxLatency.asMillisU64 := by
  rw [cap.overWire_eq] at h
  cases h
  rw [capabilityMatchesProbe_iff, ← fromMillis_le_fromMillis]
  exact and_congr_left fun _ => ⟨fun ⟨hq, hc, ht⟩ => ⟨hq, hc, ht⟩, fun ⟨hq, hc, ht⟩ => ⟨hq, hc, ht⟩⟩

theorem overWire_ne_iff (h : cap.overWire = .ok cap') :
    capabilityMatchesProbe cap' trust qos.overWire ≠ capabilityMatchesProbe cap trust qos ↔
      MeetsButLatency cap trust qos ∧
        ¬ (cap.estimatedLatency.asMillisU64 ≤ qos.maxLatency.asMillisU64 ↔
          cap.estimatedLatency ≤ qos.maxLatency) := by
  rw [Ne, Bool.eq_iff_iff, matches_overWire_iff h, capabilityMatchesProbe_iff, and_congr_right_iff,
    Classical.not_imp]

/-- Every match before the wire is one after it. -/
theorem overWire_of_match (h : cap.overWire = .ok cap')
    (hlat : cap.estimatedLatency < Duration.millis (2 ^ 64))
    (hmax : qos.maxLatency < Duration.millis (2 ^ 64))
    (hmatch : capabilityMatchesProbe cap trust qos = true) :
    capabilityMatchesProbe cap' trust qos.overWire = true := by
  obtain ⟨hothers, hle⟩ := capabilityMatchesProbe_iff.mp hmatch
  exact (matches_overWire_iff h).mpr ⟨hothers, (asMillisU64_le_iff hlat hmax).mpr (.inl hle)⟩

end Decoded

/-- The answers over the wire and before it differ exactly when the other bounds hold and the counts
    of milliseconds compare otherwise than the durations. Below `2 ^ 64` milliseconds every match
    stays one, and the answers differ when the latency misses its bound within one millisecond. -/
theorem matches_over_wire (cap : Capability F) (trust : F) (qos : QoSConstraints F) :
    ∃ cap', cap.overWire = .ok cap' ∧
      (capabilityMatchesProbe cap' trust qos.overWire ≠ capabilityMatchesProbe cap trust qos ↔
        MeetsButLatency cap trust qos ∧
          ¬ (cap.estimatedLatency.asMillisU64 ≤ qos.maxLatency.asMillisU64 ↔
            cap.estimatedLatency ≤ qos.maxLatency)) ∧
      (cap.estimatedLatency < Duration.millis (2 ^ 64) →
        qos.maxLatency < Duration.millis (2 ^ 64) →
        (capabilityMatchesProbe cap trust qos = true →
          capabilityMatchesProbe cap' trust qos.overWire = true) ∧
        (capabilityMatchesProbe cap' trust qos.overWire ≠ capabilityMatchesProbe cap trust qos ↔
          MeetsButLatency cap trust qos ∧ qos.maxLatency < cap.estimatedLatency ∧
            cap.estimatedLatency / 10 ^ 6 = qos.maxLatency / 10 ^ 6)) := by
  obtain ⟨cap', hcap'⟩ : ∃ cap', cap.overWire = .ok cap' := ⟨_, cap.overWire_eq⟩
  refine ⟨cap', hcap', overWire_ne_iff hcap', fun hlat hmax =>
    ⟨overWire_of_match hcap' hlat hmax, ?_⟩⟩
  rw [overWire_ne_iff hcap', asMillisU64_le_iff hlat hmax]
  refine and_congr_right fun _ => ?_
  have hor : ∀ p q : Prop, (q → ¬ p) → (¬ (p ∨ q ↔ p) ↔ q) := by tauto
  exact hor _ _ fun h => Nat.not_le.mpr h.1

/-- An agent that takes 1.5 ms does not match a bound of 1.2 ms until both have crossed the wire. -/
def slowCapability : Capability ℚ := ⟨.analysis, 9 / 10, 1500000, 1 / 2⟩

def tightQos : QoSConstraints ℚ := ⟨7 / 10, 1200000, 1, 1 / 2⟩

theorem matches_over_wire_slow : ∃ cap', slowCapability.overWire = .ok cap' ∧
    capabilityMatchesProbe cap' (3 / 4) tightQos.overWire ≠
      capabilityMatchesProbe slowCapability (3 / 4) tightQos := by
  obtain ⟨cap', hcap', -, hbounded⟩ := matches_over_wire slowCapability (3 / 4) tightQos
  refine ⟨cap', hcap', (hbounded (by decide) (by decide)).2.mpr ⟨?_, by decide, by decide⟩⟩
  exact ⟨by decide +kernel, by decide +kernel, by decide +kernel⟩

theorem match_gained_over_wire :
    capabilityMatchesProbe slowCapability (3 / 4) tightQos = false ∧
    ∃ cap', protoToCapability (capabilityToProto slowCapability) = .ok cap' ∧
      capabilityMatchesProbe cap' (3 / 4) (protoToQos (qosToProto tightQos)) = true := by
  exact ⟨by decide +kernel, _, slowCapability.overWire_eq, by decide +kernel⟩

end ATP
