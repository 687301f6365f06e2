import AgentTransport.Transport.Codec
import Mathlib.Data.Rat.Defs

/-! What is sent is what arrives: decoding an encoded message gives the message back. The wire
    carries durations in milliseconds, in 64 bits, and dimensions in 32.

        message ──toProto──▶ protobuf ──protoTo──▶ message -/

namespace ATP
open Codec (okOr mapM_map_enc ok_bind okOr_some pure_eq_ok)
variable {F : Type}

/-- A whole number of milliseconds below `2 ^ 64`. -/
structure Duration.OnWire (d : Duration) : Prop where
  whole : 10 ^ 6 ∣ d
  bounded : d < Duration.millis (2 ^ 64)

theorem Duration.OnWire.fromMillis_asMillis {d : Duration} (h : d.OnWire) :
    Duration.fromMillis (Duration.asMillisU64 d) = d := by
  obtain ⟨k, rfl⟩ := h.whole
  have hbound : 10 ^ 6 * k < 2 ^ 64 * 10 ^ 6 := h.bounded
  have hk : k < 2 ^ 64 := by omega
  rw [asMillisU64, Nat.mul_div_cancel_left k (by decide), fromMillis,
    UInt64.toNat_ofNat_of_lt' hk, millis, Nat.mul_comm]

/-! ### Identifiers, enumerations and timestamps -/

theorem protoToTaskType_taskTypeToI32 (t : TaskType) :
    protoToTaskType (taskTypeToI32 t) = .ok t := by
  cases t <;> rfl

theorem protoToRoutingPattern_routingPatternToI32 (p : RoutingPattern) :
    protoToRoutingPattern (routingPatternToI32 p) = .ok p := by
  cases p <;> rfl

theorem protoToCircuitState_circuitStateToProto (s : CircuitState) :
    protoToCircuitState (circuitStateToProto s).toI32 = .ok s := by
  cases s <;> rfl

theorem max_zero_eq_self {n : Int32} : max n 0 = n ↔ 0 ≤ n := by
  change (if n ≤ 0 then 0 else n) = n ↔ 0 ≤ n
  split_ifs with hle
  · exact ⟨fun h => h ▸ Int32.le_refl _, fun h => Int32.le_antisymm h hle⟩
  · exact ⟨fun _ => Int32.le_of_lt (Int32.not_le.mp hle), fun _ => rfl⟩

/-- A `u32` below `2 ^ 31` is not negative as an `i32`. -/
theorem max_toInt32 {n : UInt32} (h : n.toNat < 2 ^ 31) : max n.toInt32 0 = n.toInt32 := by
  have hint : n.toInt32.toInt = n.toNat := by
    refine BitVec.toInt_eq_toNat_of_lt ?_
    change 2 * n.toNat < 2 ^ 32
    omega
  rw [max_zero_eq_self, Int32.le_iff_toInt_le, hint, Int32.toInt_zero]
  omega

section Crates
variable {c : Crates} (hc : c.Lawful)
include hc

theorem parseUuid_display (u : Uuid) : parseUuid c (c.display u) = .ok u := by
  rw [parseUuid, hc.parseStr_display, okOr_some]

theorem protoToAgentId_agentIdToProto (id : AgentId) :
    protoToAgentId c (agentIdToProto c id) = .ok id := by
  rw [protoToAgentId, agentIdToProto, parseUuid_display hc, ok_bind, pure_eq_ok]

theorem requireAgentId_agentIdToProto (id : AgentId) (field : String) :
    requireAgentId c (some (agentIdToProto c id)) field = .ok id := by
  rw [requireAgentId, okOr_some, ok_bind, protoToAgentId_agentIdToProto hc]

/-- Nanoseconds are far from the sign bit of an `i32`. -/
theorem protoToDatetime_datetimeToProto {d : DateTime} (hd : c.IsDateTime d) (now : DateTime) :
    protoToDatetime c now (datetimeToProto c d) = d := by
  have hnanos : max (c.timestampSubsecNanos d).toInt32 0 = (c.timestampSubsecNanos d).toInt32 := by
    have hlt := hd.subsecNanos_lt hc
    exact max_toInt32 (by omega)
  rw [protoToDatetime, datetimeToProto, hnanos, UInt32.toUInt32_toInt32, hd.fromTimestamp_eq hc,
    Option.getD_some]

theorem timestampOrNow_datetimeToProto {d : DateTime} (hd : c.IsDateTime d) (now : DateTime) :
    timestampOrNow c now (some (datetimeToProto c d)) = d :=
  protoToDatetime_datetimeToProto hc hd now

end Crates

/-! ### Parts of messages -/

theorem protoToQos_qosToProto {qos : QoSConstraints F} (h : qos.maxLatency.OnWire) :
    protoToQos (qosToProto qos) = qos := by
  simp only [protoToQos, qosToProto, h.fromMillis_asMillis]

theorem protoToCapability_capabilityToProto {cap : Capability F}
    (h : cap.estimatedLatency.OnWire) : protoToCapability (capabilityToProto cap) = .ok cap := by
  simp only [protoToCapability, capabilityToProto, protoToTaskType_taskTypeToI32, ok_bind,
    h.fromMillis_asMillis, pure_eq_ok]

theorem protoToRouteMetrics_routeMetricsToProto {rm : RouteMetrics F} (h : rm.latency.OnWire) :
    protoToRouteMetrics (routeMetricsToProto rm) = rm := by
  simp only [protoToRouteMetrics, routeMetricsToProto, h.fromMillis_asMillis]

theorem protoToEmbedding_embeddingToProto {emb : ContextEmbedding F}
    (h : emb.dimensions < 2 ^ 32) : protoToEmbedding (embeddingToProto emb) = emb := by
  simp only [protoToEmbedding, embeddingToProto, UInt32.toNat_ofNat_of_lt' h]

theorem map_embedding {emb : Option (ContextEmbedding F)}
    (h : ∀ e ∈ emb, e.dimensions < 2 ^ 32) :
    (emb.map embeddingToProto).map protoToEmbedding = emb := by
  cases emb with
  | none => rfl
  | some e => simp only [Option.map_some, protoToEmbedding_embeddingToProto (h e rfl)]

theorem hash32_toList (v : Vector UInt8 32) : hash32 v.toList = v := by
  have htake : v.toList.take 32 = v.toList := List.take_of_length_le (by simp)
  apply Vector.toArray_inj.mp
  simp [hash32, htake, Vector.toArray_toList]

theorem protoToContextDiff_contextDiffToProto (diff : ContextDiff F) :
    protoToContextDiff (contextDiffToProto diff) = diff := by
  have hchunks : (diff.chunks.map contextChunkToProto).map protoToContextChunk = diff.chunks := by
    rw [List.map_map]
    exact List.map_id diff.chunks
  simp only [protoToContextDiff, contextDiffToProto, hash32_toList, hchunks]

/-! ### Messages -/

/-- What a probe must satisfy to survive the wire. -/
structure CapabilityProbeMsg.OnWire (c : Crates) (m : CapabilityProbeMsg F) : Prop where
  maxLatency : m.qos.maxLatency.OnWire
  dimensions : ∀ e ∈ m.contextEmbedding, e.dimensions < 2 ^ 32
  timestamp : c.IsDateTime m.timestamp

structure CapabilityOfferMsg.OnWire (c : Crates) (m : CapabilityOfferMsg F) : Prop where
  estimatedLatency : m.capability.estimatedLatency.OnWire
  ttl : m.ttl.OnWire
  timestamp : c.IsDateTime m.timestamp

structure ContractAcceptMsg.OnWire (c : Crates) (m : ContractAcceptMsg F) : Prop where
  maxLatency : m.agreedQos.maxLatency.OnWire
  expiresAt : c.WholeMillis m.expiresAt
  timestamp : c.IsDateTime m.timestamp

structure Route.OnWire (c : Crates) (r : Route F) : Prop where
  latency : r.metrics.latency.OnWire
  ttl : r.ttl.OnWire
  computedAt : c.IsDateTime r.computedAt

section Messages
variable {c : Crates} (hc : c.Lawful) (now : DateTime)
include hc

theorem protoToRoute_routeToProto {r : Route F} (h : r.OnWire c) :
    protoToRoute c now (routeToProto c r) = .ok r := by
  have hagents := mapM_map_enc (protoToAgentId_agentIdToProto hc) r.agents
  simp only [protoToRoute, routeToProto, parseUuid_display hc,
    protoToRoutingPattern_routingPatternToI32, okOr_some, hagents, ok_bind,
    protoToRouteMetrics_routeMetricsToProto h.latency,
    timestampOrNow_datetimeToProto hc h.computedAt, h.ttl.fromMillis_asMillis, pure_eq_ok]

theorem protoToProbe_probeToProto {m : CapabilityProbeMsg F} (h : m.OnWire c) :
    protoToProbe c now (probeToProto c m) = .ok m := by
  simp only [protoToProbe, probeToProto, requireAgentId_agentIdToProto hc,
    protoToTaskType_taskTypeToI32, okOr_some, ok_bind, protoToQos_qosToProto h.maxLatency,
    map_embedding h.dimensions, timestampOrNow_datetimeToProto hc h.timestamp, pure_eq_ok]

theorem protoToOffer_offerToProto {m : CapabilityOfferMsg F} (h : m.OnWire c) :
    protoToOffer c now (offerToProto c m) = .ok m := by
  simp only [protoToOffer, offerToProto, requireAgentId_agentIdToProto hc, okOr_some, ok_bind,
    protoToCapability_capabilityToProto h.estimatedLatency, h.ttl.fromMillis_asMillis,
    timestampOrNow_datetimeToProto hc h.timestamp, pure_eq_ok]

theorem protoToContractAccept_contractAcceptToProto (early : DateTime)
    {m : ContractAcceptMsg F} (h : m.OnWire c) :
    protoToContractAccept c now early (contractAcceptToProto c m) = .ok m := by
  simp only [protoToContractAccept, contractAcceptToProto, parseUuid_display hc,
    requireAgentId_agentIdToProto hc, okOr_some, ok_bind, protoToQos_qosToProto h.maxLatency,
    Int64.toInt64_toUInt64, h.expiresAt.fromTimestampMillis_eq hc, Option.getD_some,
    timestampOrNow_datetimeToProto hc h.timestamp, pure_eq_ok]

theorem protoToContextRequest_contextRequestToProto (m : ContextRequestMsg F) :
    protoToContextRequest c (contextRequestToProto c now m) = .ok m := by
  simp only [protoToContextRequest, contextRequestToProto, parseUuid_display hc,
    requireAgentId_agentIdToProto hc, ok_bind, pure_eq_ok]

theorem protoToTaskSubmit_taskSubmitToProto (m : TaskSubmitMsg F) :
    protoToTaskSubmit c (taskSubmitToProto c now m) = .ok m := by
  simp only [protoToTaskSubmit, taskSubmitToProto, parseUuid_display hc,
    requireAgentId_agentIdToProto hc, protoToTaskType_taskTypeToI32, okOr_some, ok_bind,
    protoToContextDiff_contextDiffToProto, pure_eq_ok]

theorem protoToTaskResult_taskResultToProto {m : TaskResult F} (h : m.elapsed.OnWire) :
    protoToTaskResult c (taskResultToProto c now m) = .ok m := by
  simp only [protoToTaskResult, taskResultToProto, parseUuid_display hc,
    requireAgentId_agentIdToProto hc, ok_bind, h.fromMillis_asMillis, pure_eq_ok]

theorem protoToInteractionProof_interactionProofToProto {m : InteractionProofMsg F}
    (h : c.IsDateTime m.timestamp) :
    protoToInteractionProof c now (interactionProofToProto c m) = .ok m := by
  simp only [protoToInteractionProof, interactionProofToProto, parseUuid_display hc,
    requireAgentId_agentIdToProto hc, protoToTaskType_taskTypeToI32, ok_bind,
    timestampOrNow_datetimeToProto hc h, pure_eq_ok]

theorem protoToHeartbeat_heartbeatToProto (m : HeartbeatMsg F) :
    protoToHeartbeat c (heartbeatToProto c now m) = .ok m := by
  simp only [protoToHeartbeat, heartbeatToProto, requireAgentId_agentIdToProto hc, ok_bind,
    pure_eq_ok]

theorem protoToBackpressure_backpressureToProto (m : BackpressureMsg F) :
    protoToBackpressure c (backpressureToProto c now m) = .ok m := by
  simp only [protoToBackpressure, backpressureToProto, requireAgentId_agentIdToProto hc, ok_bind,
    pure_eq_ok]

theorem protoToCircuitBreak_circuitBreakToProto (m : CircuitBreakMsg) :
    protoToCircuitBreak c (circuitBreakToProto c now m) = .ok m := by
  simp only [protoToCircuitBreak, circuitBreakToProto, requireAgentId_agentIdToProto hc,
    protoToCircuitState_circuitStateToProto, ok_bind, pure_eq_ok]

/-- Every message decodes to itself, whatever the clocks read on either side. -/
theorem wire_round_trip (sent early : DateTime) :
    (∀ m : CapabilityProbeMsg F, m.OnWire c → protoToProbe c now (probeToProto c m) = .ok m) ∧
    (∀ m : CapabilityOfferMsg F, m.OnWire c → protoToOffer c now (offerToProto c m) = .ok m) ∧
    (∀ m : ContractAcceptMsg F, m.OnWire c →
      protoToContractAccept c now early (contractAcceptToProto c m) = .ok m) ∧
    (∀ m : ContextRequestMsg F,
      protoToContextRequest c (contextRequestToProto c sent m) = .ok m) ∧
    (∀ m : TaskSubmitMsg F, protoToTaskSubmit c (taskSubmitToProto c sent m) = .ok m) ∧
    (∀ m : TaskResult F, m.elapsed.OnWire →
      protoToTaskResult c (taskResultToProto c sent m) = .ok m) ∧
    (∀ m : InteractionProofMsg F, c.IsDateTime m.timestamp →
      protoToInteractionProof c now (interactionProofToProto c m) = .ok m) ∧
    (∀ m : HeartbeatMsg F, protoToHeartbeat c (heartbeatToProto c sent m) = .ok m) ∧
    (∀ m : BackpressureMsg F, protoToBackpressure c (backpressureToProto c sent m) = .ok m) ∧
    (∀ m : CircuitBreakMsg, protoToCircuitBreak c (circuitBreakToProto c sent m) = .ok m) ∧
    ∀ r : Route F, r.OnWire c → protoToRoute c now (routeToProto c r) = .ok r :=
  ⟨fun _ => protoToProbe_probeToProto hc now,
    fun _ => protoToOffer_offerToProto hc now,
    fun _ => protoToContractAccept_contractAcceptToProto hc now early,
    protoToContextRequest_contextRequestToProto hc sent,
    protoToTaskSubmit_taskSubmitToProto hc sent,
    fun _ => protoToTaskResult_taskResultToProto hc sent,
    fun _ => protoToInteractionProof_interactionProofToProto hc now,
    protoToHeartbeat_heartbeatToProto hc sent,
    protoToBackpressure_backpressureToProto hc sent,
    protoToCircuitBreak_circuitBreakToProto hc sent,
    fun _ => protoToRoute_routeToProto hc now⟩

end Messages

/-- A contract that expires five seconds after it was accepted. -/
def sampleAccept : ContractAcceptMsg ℚ where
  src := ⟨1⟩
  dst := ⟨2⟩
  agreedQos := ⟨7 / 10, Duration.secs 10, 1, 1 / 2⟩
  contextPlan := "minimal"
  contractId := 3
  expiresAt := 1700000005123000000
  timestamp := 1700000000123456789
  signature := [1, 2, 3]

def sampleRoute : Route ℚ :=
  ⟨4, .cascade, [⟨1⟩, ⟨2⟩, ⟨1⟩], ⟨3 / 4, Duration.millis 250, 1 / 2⟩, -1, Duration.secs 120⟩

theorem wire_round_trip_sample :
    protoToContractAccept .sample 0 0 (contractAcceptToProto .sample sampleAccept)
      = .ok sampleAccept ∧
    protoToRoute .sample 0 (routeToProto .sample sampleRoute) = .ok sampleRoute := by
  obtain ⟨-, -, haccept, -, -, -, -, -, -, -, hroute⟩ :=
    wire_round_trip (F := ℚ) Crates.sample_lawful 0 0 0
  refine ⟨haccept sampleAccept ⟨⟨by decide, by decide⟩, ?_, ?_⟩,
    hroute sampleRoute ⟨⟨by decide, by decide⟩, ⟨by decide, by decide⟩, ?_⟩⟩
  · exact Crates.sample_wholeMillis_iff.mpr ⟨by decide, by decide⟩
  · exact Crates.sample_isDateTime_iff.mpr (by decide)
  · exact Crates.sample_isDateTime_iff.mpr (by decide)

end ATP
