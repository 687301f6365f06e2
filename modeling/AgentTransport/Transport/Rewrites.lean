import AgentTransport.Transport.RoundTrip

/-! What the decoders make of what they accept: a received message, decoded and encoded again, has
    the fields that were received, except where a decoder falls back on a value of its own.

        protobuf ──protoTo──▶ message ──toProto──▶ protobuf -/

namespace ATP
open Codec (okOr okOr_some okOr_eq_ok bind_eq_ok map_enc_of_mapM ok_bind pure_eq_ok)
variable {F : Type}

/-! ### Fields that a decoder can rewrite -/

/-- The hash that is kept of the bytes received: cut, or filled up with zeros, to 32. -/
def keptHash (bytes : List UInt8) : List UInt8 := (bytes ++ List.replicate 32 0).take 32

/-- The timestamp that is kept: without negative nanoseconds, or the clock's if chrono refuses it or
    it is missing. -/
def keptTimestamp (c : Crates) (now : DateTime) : Option Proto.Timestamp → Proto.Timestamp
  | some ts =>
    if (c.fromTimestamp ts.seconds (max ts.nanos 0).toUInt32).isSome then
      { ts with nanos := max ts.nanos 0 }
    else datetimeToProto c now
  | none => datetimeToProto c now

/-- The expiry that is kept: the clock's if chrono refuses it. -/
def keptExpiry (c : Crates) (early : DateTime) (ms : UInt64) : UInt64 :=
  if (c.fromTimestampMillis ms.toInt64).isSome then ms else (c.timestampMillis early).toUInt64

/-- A timestamp that a decoder takes as it is. -/
def ExactTimestamp (c : Crates) (ts : Option Proto.Timestamp) : Prop :=
  ∃ t, ts = some t ∧ 0 ≤ t.nanos ∧ (c.fromTimestamp t.seconds t.nanos.toUInt32).isSome

/-- The array of the decoder holds the kept hash. -/
theorem hash32_toList_eq (bytes : List UInt8) : (hash32 bytes).toList = keptHash bytes := by
  have hlist : (hash32 bytes).toList = bytes.take (min bytes.length 32) ++
      List.replicate (32 - min bytes.length 32) 0 := rfl
  have hlen : 32 - min bytes.length 32 = min (32 - bytes.length) 32 := by omega
  rw [hlist, keptHash, List.take_append, List.take_replicate, hlen, Nat.min_comm bytes.length,
    ← List.take_eq_take_min]

theorem keptHash_eq_self {bytes : List UInt8} : keptHash bytes = bytes ↔ bytes.length = 32 := by
  refine ⟨fun h => ?_, fun h => ?_⟩
  · have hlen := congrArg List.length h
    simp [keptHash] at hlen
    omega
  · rw [keptHash, List.take_left' h]

section Crates
variable {c : Crates} (hc : c.Lawful)
include hc

theorem datetimeToProto_timestampOrNow (now : DateTime) (ts : Option Proto.Timestamp) :
    datetimeToProto c (timestampOrNow c now ts) = keptTimestamp c now ts := by
  cases ts with
  | none => rfl
  | some t =>
    simp only [timestampOrNow, Option.map_some, Option.getD_some, protoToDatetime, keptTimestamp]
    cases h : c.fromTimestamp t.seconds (max t.nanos 0).toUInt32 with
    | none => rfl
    | some d =>
      rw [Option.getD_some, datetimeToProto, hc.timestamp_eq h, hc.subsecNanos_eq h,
        Int32.toInt32_toUInt32]
      rfl

theorem keptTimestamp_eq_self {now : DateTime} (hnow : c.IsDateTime now)
    {ts : Option Proto.Timestamp} : some (keptTimestamp c now ts) = ts ↔ ExactTimestamp c ts := by
  cases ts with
  | none => simp [ExactTimestamp]
  | some t =>
    simp only [keptTimestamp, ExactTimestamp, Option.some.injEq, exists_eq_left']
    refine ⟨fun h => ?_, fun ⟨hnanos, hsome⟩ => ?_⟩
    · split_ifs at h with hsome
      · have hmax : max t.nanos 0 = t.nanos := congrArg Proto.Timestamp.nanos h
        exact ⟨max_zero_eq_self.mp hmax, hmax ▸ hsome⟩
      · -- a timestamp of the clock itself would not have been refused
        subst h
        have hlt := hnow.subsecNanos_lt hc
        refine absurd ?_ hsome
        rw [datetimeToProto, max_toInt32 (by omega), UInt32.toUInt32_toInt32,
          hnow.fromTimestamp_eq hc]
        rfl
    · have hmax : max t.nanos 0 = t.nanos := max_zero_eq_self.mpr hnanos
      rw [hmax, if_pos hsome]

theorem timestampMillis_keptExpiry (early : DateTime) (ms : UInt64) :
    (c.timestampMillis ((c.fromTimestampMillis ms.toInt64).getD early)).toUInt64 =
      keptExpiry c early ms := by
  rw [keptExpiry]
  cases h : c.fromTimestampMillis ms.toInt64 with
  | none => rfl
  | some d =>
    rw [Option.getD_some, hc.millis_eq h, UInt64.toUInt64_toInt64]
    rfl

omit hc in
theorem keptExpiry_eq_self {early : DateTime} (hearly : c.Reading early) {ms : UInt64} :
    keptExpiry c early ms = ms ↔ (c.fromTimestampMillis ms.toInt64).isSome := by
  refine ⟨fun h => ?_, fun h => if_pos h⟩
  by_contra hnone
  rw [keptExpiry, if_neg hnone] at h
  rw [← h, Int64.toInt64_toUInt64] at hnone
  exact hnone hearly.millis

end Crates

/-! ### Messages up to the spelling of UUIDs and the stamp of the sender -/

namespace Proto
section Canonical
variable (c : Crates)

/-- The text in which the encoders write the UUID that a text stands for. -/
def canonicalUuid (text : String) : String := ((c.parseStr text).map c.display).getD text

def AgentId.canonical (id : AgentId) : AgentId := ⟨canonicalUuid c id.uuid⟩

def Route.canonical (pb : Route F) : Route F :=
  { pb with routeId := canonicalUuid c pb.routeId, agents := pb.agents.map (AgentId.canonical c) }

def CapabilityProbe.canonical (pb : CapabilityProbe F) : CapabilityProbe F :=
  { pb with src := pb.src.map (AgentId.canonical c) }

def CapabilityOffer.canonical (pb : CapabilityOffer F) : CapabilityOffer F :=
  { pb with src := pb.src.map (AgentId.canonical c) }

def ContractAccept.canonical (pb : ContractAccept F) : ContractAccept F :=
  { pb with src := pb.src.map (AgentId.canonical c)
            dst := pb.dst.map (AgentId.canonical c)
            contractId := canonicalUuid c pb.contractId }

def InteractionProof.canonical (pb : InteractionProof F) : InteractionProof F :=
  { pb with evaluator := pb.evaluator.map (AgentId.canonical c)
            subject := pb.subject.map (AgentId.canonical c)
            taskId := canonicalUuid c pb.taskId }

-- the encoders of the messages below stamp them, so their timestamps are left out
def ContextRequest.canonical (pb : ContextRequest F) : ContextRequest F :=
  { pb with src := pb.src.map (AgentId.canonical c)
            dst := pb.dst.map (AgentId.canonical c)
            taskId := canonicalUuid c pb.taskId
            timestamp := none }

def TaskSubmit.canonical (pb : TaskSubmit F) : TaskSubmit F :=
  { pb with src := pb.src.map (AgentId.canonical c)
            dst := pb.dst.map (AgentId.canonical c)
            taskId := canonicalUuid c pb.taskId
            contractId := canonicalUuid c pb.contractId
            timestamp := none }

def TaskResult.canonical (pb : TaskResult F) : TaskResult F :=
  { pb with src := pb.src.map (AgentId.canonical c)
            taskId := canonicalUuid c pb.taskId
            timestamp := none }

def Heartbeat.canonical (pb : Heartbeat F) : Heartbeat F :=
  { pb with src := pb.src.map (AgentId.canonical c), timestamp := none }

def Backpressure.canonical (pb : Backpressure F) : Backpressure F :=
  { pb with src := pb.src.map (AgentId.canonical c), timestamp := none }

def CircuitBreak.canonical (pb : CircuitBreak) : CircuitBreak :=
  { pb with src := pb.src.map (AgentId.canonical c)
            target := pb.target.map (AgentId.canonical c)
            timestamp := none }

end Canonical

/-! ### Messages as they are kept -/

section Kept
variable (c : Crates) (now : DateTime)

def Route.kept (pb : Route F) : Route F :=
  { pb with computedAt := some (keptTimestamp c now pb.computedAt) }

def CapabilityProbe.kept (pb : CapabilityProbe F) : CapabilityProbe F :=
  { pb with timestamp := some (keptTimestamp c now pb.timestamp) }

def CapabilityOffer.kept (pb : CapabilityOffer F) : CapabilityOffer F :=
  { pb with timestamp := some (keptTimestamp c now pb.timestamp) }

def ContractAccept.kept (early : DateTime) (pb : ContractAccept F) : ContractAccept F :=
  { pb with expiresMs := keptExpiry c early pb.expiresMs
            timestamp := some (keptTimestamp c now pb.timestamp) }

def InteractionProof.kept (pb : InteractionProof F) : InteractionProof F :=
  { pb with timestamp := some (keptTimestamp c now pb.timestamp) }

def ContextDiff.kept (pb : ContextDiff F) : ContextDiff F :=
  { pb with baseHash := keptHash pb.baseHash }

def TaskSubmit.kept (pb : TaskSubmit F) : TaskSubmit F :=
  { pb with context := pb.context.map ContextDiff.kept }

end Kept
end Proto

/-! ### Encoding what was decoded: the parts -/

theorem asMillis_fromMillis (ms : UInt64) :
    Duration.asMillisU64 (Duration.fromMillis ms) = ms := by
  rw [Duration.asMillisU64, Duration.fromMillis, Duration.millis,
    Nat.mul_div_cancel _ (by decide), UInt64.ofNat_toNat]

theorem qosToProto_protoToQos (pb : Proto.QoSConstraints F) : qosToProto (protoToQos pb) = pb := by
  simp only [qosToProto, protoToQos, asMillis_fromMillis]

theorem routeMetricsToProto_protoToRouteMetrics (pb : Proto.RouteMetrics F) :
    routeMetricsToProto (protoToRouteMetrics pb) = pb := by
  simp only [routeMetricsToProto, protoToRouteMetrics, asMillis_fromMillis]

theorem map_protoToEmbedding (emb : Option (Proto.Embedding F)) :
    (emb.map protoToEmbedding).map embeddingToProto = emb := by
  cases emb with
  | none => rfl
  | some e =>
    simp only [Option.map_some, protoToEmbedding, embeddingToProto, UInt32.ofNat_toNat]

theorem contextDiffToProto_protoToContextDiff (pb : Proto.ContextDiff F) :
    contextDiffToProto (protoToContextDiff pb) = pb.kept := by
  have hchunks : (pb.chunks.map protoToContextChunk).map contextChunkToProto = pb.chunks := by
    rw [List.map_map]
    exact List.map_id pb.chunks
  simp only [contextDiffToProto, protoToContextDiff, hash32_toList_eq, hchunks,
    Proto.ContextDiff.kept]

theorem taskTypeToI32_of_ok {value : Int32} {t : TaskType} (h : protoToTaskType value = .ok t) :
    taskTypeToI32 t = value := by
  unfold protoToTaskType at h
  split at h <;> cases h <;> exact (Proto.TaskType.tryFrom_eq_some.mp ‹_›).symm

theorem routingPatternToI32_of_ok {value : Int32} {p : RoutingPattern}
    (h : protoToRoutingPattern value = .ok p) : routingPatternToI32 p = value := by
  unfold protoToRoutingPattern at h
  split at h <;> cases h <;> exact (Proto.RoutingPattern.tryFrom_eq_some.mp ‹_›).symm

theorem circuitStateToProto_of_ok {value : Int32} {s : CircuitState}
    (h : protoToCircuitState value = .ok s) : (circuitStateToProto s).toI32 = value := by
  unfold protoToCircuitState at h
  split at h <;> cases h <;> exact (Proto.CircuitState.tryFrom_eq_some.mp ‹_›).symm

theorem capabilityToProto_of_ok {pb : Proto.Capability F} {cap : Capability F}
    (h : protoToCapability pb = .ok cap) : capabilityToProto cap = pb := by
  simp only [protoToCapability, bind_eq_ok, pure_eq_ok, Except.ok.injEq] at h
  obtain ⟨t, ht, rfl⟩ := h
  simp only [capabilityToProto, taskTypeToI32_of_ok ht, asMillis_fromMillis]

section Crates
variable {c : Crates} (hc : c.Lawful)
include hc

theorem canonicalUuid_of_ok {text : String} {u : Uuid} (h : parseUuid c text = .ok u) :
    Proto.canonicalUuid c (c.display u) = Proto.canonicalUuid c text := by
  rw [Proto.canonicalUuid, Proto.canonicalUuid, hc.parseStr_display, okOr_eq_ok.mp h,
    Option.map_some, Option.getD_some, Option.getD_some]

theorem canonical_of_protoToAgentId (pb : Proto.AgentId) (id : AgentId)
    (h : protoToAgentId c pb = .ok id) :
    (agentIdToProto c id).canonical c = pb.canonical c := by
  simp only [protoToAgentId, bind_eq_ok, pure_eq_ok, Except.ok.injEq] at h
  obtain ⟨u, hu, rfl⟩ := h
  rw [agentIdToProto, Proto.AgentId.canonical, canonicalUuid_of_ok hc hu, Proto.AgentId.canonical]

theorem canonical_of_requireAgentId {opt : Option Proto.AgentId} {field : String} {id : AgentId}
    (h : requireAgentId c opt field = .ok id) :
    (some (agentIdToProto c id)).map (Proto.AgentId.canonical c) =
      opt.map (Proto.AgentId.canonical c) := by
  simp only [requireAgentId, bind_eq_ok, okOr_eq_ok] at h
  obtain ⟨pb, rfl, hid⟩ := h
  rw [Option.map_some, Option.map_some, canonical_of_protoToAgentId hc pb id hid]

/-! ### Encoding what was decoded: the messages -/

theorem reencode_probe {now : DateTime} {pb : Proto.CapabilityProbe F} {m : CapabilityProbeMsg F}
    (h : protoToProbe c now pb = .ok m) :
    (probeToProto c m).canonical c = (pb.kept c now).canonical c := by
  simp only [protoToProbe, bind_eq_ok, okOr_eq_ok, pure_eq_ok, Except.ok.injEq] at h
  obtain ⟨src, hsrc, t, ht, qos, hqos, rfl⟩ := h
  simp only [Proto.CapabilityProbe.canonical, probeToProto, Proto.CapabilityProbe.kept,
    canonical_of_requireAgentId hc hsrc, taskTypeToI32_of_ok ht, qosToProto_protoToQos, hqos,
    map_protoToEmbedding, datetimeToProto_timestampOrNow hc]

theorem reencode_offer {now : DateTime} {pb : Proto.CapabilityOffer F} {m : CapabilityOfferMsg F}
    (h : protoToOffer c now pb = .ok m) :
    (offerToProto c m).canonical c = (pb.kept c now).canonical c := by
  simp only [protoToOffer, bind_eq_ok, okOr_eq_ok, pure_eq_ok, Except.ok.injEq] at h
  obtain ⟨src, hsrc, pbCap, hpb, cap, hcap, rfl⟩ := h
  simp only [Proto.CapabilityOffer.canonical, offerToProto, Proto.CapabilityOffer.kept,
    canonical_of_requireAgentId hc hsrc, capabilityToProto_of_ok hcap, hpb, asMillis_fromMillis,
    datetimeToProto_timestampOrNow hc]

theorem reencode_contractAccept {now early : DateTime} {pb : Proto.ContractAccept F}
    {m : ContractAcceptMsg F} (h : protoToContractAccept c now early pb = .ok m) :
    (contractAcceptToProto c m).canonical c = (pb.kept c now early).canonical c := by
  simp only [protoToContractAccept, bind_eq_ok, okOr_eq_ok, pure_eq_ok, Except.ok.injEq] at h
  obtain ⟨contract, hcontract, src, hsrc, dst, hdst, qos, hqos, rfl⟩ := h
  simp only [Proto.ContractAccept.canonical, contractAcceptToProto, Proto.ContractAccept.kept,
    canonicalUuid_of_ok hc hcontract, canonical_of_requireAgentId hc hsrc,
    canonical_of_requireAgentId hc hdst, qosToProto_protoToQos, hqos,
    timestampMillis_keptExpiry hc, datetimeToProto_timestampOrNow hc]

theorem reencode_contextRequest (now : DateTime) {pb : Proto.ContextRequest F}
    {m : ContextRequestMsg F} (h : protoToContextRequest c pb = .ok m) :
    (contextRequestToProto c now m).canonical c = pb.canonical c := by
  simp only [protoToContextRequest, bind_eq_ok, pure_eq_ok, Except.ok.injEq] at h
  obtain ⟨task, htask, src, hsrc, dst, hdst, rfl⟩ := h
  simp only [Proto.ContextRequest.canonical, contextRequestToProto, canonicalUuid_of_ok hc htask,
    canonical_of_requireAgentId hc hsrc, canonical_of_requireAgentId hc hdst]

theorem reencode_taskSubmit (now : DateTime) {pb : Proto.TaskSubmit F} {m : TaskSubmitMsg F}
    (h : protoToTaskSubmit c pb = .ok m) :
    (taskSubmitToProto c now m).canonical c = pb.kept.canonical c := by
  simp only [protoToTaskSubmit, bind_eq_ok, okOr_eq_ok, pure_eq_ok, Except.ok.injEq] at h
  obtain ⟨task, htask, contract, hcontract, context, hcontext, src, hsrc, dst, hdst, t, ht,
    rfl⟩ := h
  simp only [Proto.TaskSubmit.canonical, taskSubmitToProto, Proto.TaskSubmit.kept,
    canonicalUuid_of_ok hc htask, canonicalUuid_of_ok hc hcontract,
    canonical_of_requireAgentId hc hsrc, canonical_of_requireAgentId hc hdst,
    taskTypeToI32_of_ok ht, contextDiffToProto_protoToContextDiff, hcontext, Option.map_some]

theorem reencode_taskResult (now : DateTime) {pb : Proto.TaskResult F} {m : TaskResult F}
    (h : protoToTaskResult c pb = .ok m) :
    (taskResultToProto c now m).canonical c = pb.canonical c := by
  simp only [protoToTaskResult, bind_eq_ok, pure_eq_ok, Except.ok.injEq] at h
  obtain ⟨task, htask, src, hsrc, rfl⟩ := h
  simp only [Proto.TaskResult.canonical, taskResultToProto, canonicalUuid_of_ok hc htask,
    canonical_of_requireAgentId hc hsrc, asMillis_fromMillis]

theorem reencode_interactionProof {now : DateTime} {pb : Proto.InteractionProof F}
    {m : InteractionProofMsg F} (h : protoToInteractionProof c now pb = .ok m) :
    (interactionProofToProto c m).canonical c = (pb.kept c now).canonical c := by
  simp only [protoToInteractionProof, bind_eq_ok, pure_eq_ok, Except.ok.injEq] at h
  obtain ⟨task, htask, evaluator, hevaluator, subject, hsubject, t, ht, rfl⟩ := h
  simp only [Proto.InteractionProof.canonical, interactionProofToProto,
    Proto.InteractionProof.kept, canonicalUuid_of_ok hc htask,
    canonical_of_requireAgentId hc hevaluator, canonical_of_requireAgentId hc hsubject,
    taskTypeToI32_of_ok ht, datetimeToProto_timestampOrNow hc]

theorem reencode_heartbeat (now : DateTime) {pb : Proto.Heartbeat F} {m : HeartbeatMsg F}
    (h : protoToHeartbeat c pb = .ok m) :
    (heartbeatToProto c now m).canonical c = pb.canonical c := by
  simp only [protoToHeartbeat, bind_eq_ok, pure_eq_ok, Except.ok.injEq] at h
  obtain ⟨src, hsrc, rfl⟩ := h
  simp only [Proto.Heartbeat.canonical, heartbeatToProto, canonical_of_requireAgentId hc hsrc]

theorem reencode_backpressure (now : DateTime) {pb : Proto.Backpressure F} {m : BackpressureMsg F}
    (h : protoToBackpressure c pb = .ok m) :
    (backpressureToProto c now m).canonical c = pb.canonical c := by
  simp only [protoToBackpressure, bind_eq_ok, pure_eq_ok, Except.ok.injEq] at h
  obtain ⟨src, hsrc, rfl⟩ := h
  simp only [Proto.Backpressure.canonical, backpressureToProto,
    canonical_of_requireAgentId hc hsrc]

theorem reencode_circuitBreak (now : DateTime) {pb : Proto.CircuitBreak} {m : CircuitBreakMsg}
    (h : protoToCircuitBreak c pb = .ok m) :
    (circuitBreakToProto c now m).canonical c = pb.canonical c := by
  simp only [protoToCircuitBreak, bind_eq_ok, pure_eq_ok, Except.ok.injEq] at h
  obtain ⟨src, hsrc, target, htarget, state, hstate, rfl⟩ := h
  simp only [Proto.CircuitBreak.canonical, circuitBreakToProto,
    canonical_of_requireAgentId hc hsrc, canonical_of_requireAgentId hc htarget,
    circuitStateToProto_of_ok hstate]

theorem reencode_route {now : DateTime} {pb : Proto.Route F} {r : Route F}
    (h : protoToRoute c now pb = .ok r) :
    (routeToProto c r).canonical c = (pb.kept c now).canonical c := by
  simp only [protoToRoute, bind_eq_ok, okOr_eq_ok, pure_eq_ok, Except.ok.injEq] at h
  obtain ⟨id, hid, pattern, hpattern, metrics, hmetrics, agents, hagents, rfl⟩ := h
  have hlist := map_enc_of_mapM (canonical_of_protoToAgentId hc) pb.agents agents hagents
  simp only [Proto.Route.canonical, routeToProto, Proto.Route.kept, canonicalUuid_of_ok hc hid,
    routingPatternToI32_of_ok hpattern, hlist, routeMetricsToProto_protoToRouteMetrics, hmetrics,
    asMillis_fromMillis, datetimeToProto_timestampOrNow hc]

/-! ### When nothing is rewritten -/

omit hc in
/-- What is kept settles whether all of it is. -/
theorem exact_of_kept {A : Type} {a kept received : A} {p : Prop} (h : a = kept)
    (hexact : kept = received ↔ p) : a = kept ∧ (a = received ↔ p) := by
  subst h
  exact ⟨rfl, hexact⟩

omit hc in
theorem Proto.TaskSubmit.kept_eq_self {pb : Proto.TaskSubmit F} :
    pb.kept.canonical c = pb.canonical c ↔ ∀ diff ∈ pb.context, diff.baseHash.length = 32 := by
  cases hctx : pb.context with
  | none => simp [Proto.TaskSubmit.canonical, Proto.TaskSubmit.kept, hctx]
  | some diff =>
    simp only [Proto.TaskSubmit.canonical, Proto.TaskSubmit.kept, hctx, Option.map_some,
      Proto.TaskSubmit.mk.injEq, Option.some.injEq, true_and, and_true, Option.mem_some_iff,
      forall_eq']
    rw [← keptHash_eq_self]
    exact ⟨fun h => congrArg Proto.ContextDiff.baseHash h,
      fun h => by rw [Proto.ContextDiff.kept, h]⟩

variable {now early : DateTime} (hnow : c.IsDateTime now)
include hnow

theorem Proto.CapabilityProbe.kept_eq_self {pb : Proto.CapabilityProbe F} :
    (pb.kept c now).canonical c = pb.canonical c ↔ ExactTimestamp c pb.timestamp := by
  simp only [Proto.CapabilityProbe.canonical, Proto.CapabilityProbe.kept,
    Proto.CapabilityProbe.mk.injEq, true_and, and_true, keptTimestamp_eq_self hc hnow]

theorem Proto.CapabilityOffer.kept_eq_self {pb : Proto.CapabilityOffer F} :
    (pb.kept c now).canonical c = pb.canonical c ↔ ExactTimestamp c pb.timestamp := by
  simp only [Proto.CapabilityOffer.canonical, Proto.CapabilityOffer.kept,
    Proto.CapabilityOffer.mk.injEq, true_and, and_true, keptTimestamp_eq_self hc hnow]

theorem Proto.ContractAccept.kept_eq_self (hearly : c.Reading early) {pb : Proto.ContractAccept F} :
    (pb.kept c now early).canonical c = pb.canonical c ↔
      (c.fromTimestampMillis pb.expiresMs.toInt64).isSome ∧ ExactTimestamp c pb.timestamp := by
  simp only [Proto.ContractAccept.canonical, Proto.ContractAccept.kept,
    Proto.ContractAccept.mk.injEq, true_and, and_true, keptTimestamp_eq_self hc hnow,
    keptExpiry_eq_self hearly]

theorem Proto.InteractionProof.kept_eq_self {pb : Proto.InteractionProof F} :
    (pb.kept c now).canonical c = pb.canonical c ↔ ExactTimestamp c pb.timestamp := by
  simp only [Proto.InteractionProof.canonical, Proto.InteractionProof.kept,
    Proto.InteractionProof.mk.injEq, true_and, and_true, keptTimestamp_eq_self hc hnow]

theorem Proto.Route.kept_eq_self {pb : Proto.Route F} :
    (pb.kept c now).canonical c = pb.canonical c ↔ ExactTimestamp c pb.computedAt := by
  simp only [Proto.Route.canonical, Proto.Route.kept, Proto.Route.mk.injEq, true_and, and_true,
    keptTimestamp_eq_self hc hnow]

/-- Encoding what was decoded gives back what was received, with the fallbacks of the decoders in
    place of the fields they refuse, and so all of it exactly when they refuse none. -/
theorem reencode_received (hearly : c.Reading early) (sent : DateTime) :
    (∀ (pb : Proto.CapabilityProbe F) m, protoToProbe c now pb = .ok m →
      (probeToProto c m).canonical c = (pb.kept c now).canonical c ∧
      ((probeToProto c m).canonical c = pb.canonical c ↔ ExactTimestamp c pb.timestamp)) ∧
    (∀ (pb : Proto.CapabilityOffer F) m, protoToOffer c now pb = .ok m →
      (offerToProto c m).canonical c = (pb.kept c now).canonical c ∧
      ((offerToProto c m).canonical c = pb.canonical c ↔ ExactTimestamp c pb.timestamp)) ∧
    (∀ (pb : Proto.ContractAccept F) m, protoToContractAccept c now early pb = .ok m →
      (contractAcceptToProto c m).canonical c = (pb.kept c now early).canonical c ∧
      ((contractAcceptToProto c m).canonical c = pb.canonical c ↔
        (c.fromTimestampMillis pb.expiresMs.toInt64).isSome ∧ ExactTimestamp c pb.timestamp)) ∧
    (∀ (pb : Proto.ContextRequest F) m, protoToContextRequest c pb = .ok m →
      (contextRequestToProto c sent m).canonical c = pb.canonical c) ∧
    (∀ (pb : Proto.TaskSubmit F) m, protoToTaskSubmit c pb = .ok m →
      (taskSubmitToProto c sent m).canonical c = pb.kept.canonical c ∧
      ((taskSubmitToProto c sent m).canonical c = pb.canonical c ↔
        ∀ diff ∈ pb.context, diff.baseHash.length = 32)) ∧
    (∀ (pb : Proto.TaskResult F) m, protoToTaskResult c pb = .ok m →
      (taskResultToProto c sent m).canonical c = pb.canonical c) ∧
    (∀ (pb : Proto.InteractionProof F) m, protoToInteractionProof c now pb = .ok m →
      (interactionProofToProto c m).canonical c = (pb.kept c now).canonical c ∧
      ((interactionProofToProto c m).canonical c = pb.canonical c ↔
        ExactTimestamp c pb.timestamp)) ∧
    (∀ (pb : Proto.Heartbeat F) m, protoToHeartbeat c pb = .ok m →
      (heartbeatToProto c sent m).canonical c = pb.canonical c) ∧
    (∀ (pb : Proto.Backpressure F) m, protoToBackpressure c pb = .ok m →
      (backpressureToProto c sent m).canonical c = pb.canonical c) ∧
    (∀ (pb : Proto.CircuitBreak) m, protoToCircuitBreak c pb = .ok m →
      (circuitBreakToProto c sent m).canonical c = pb.canonical c) ∧
    ∀ (pb : Proto.Route F) r, protoToRoute c now pb = .ok r →
      (routeToProto c r).canonical c = (pb.kept c now).canonical c ∧
      ((routeToProto c r).canonical c = pb.canonical c ↔ ExactTimestamp c pb.computedAt) := by
  -- the eleven types in the order of the codec; those without a `kept` refuse no field silently
  refine ⟨?_, ?_, ?_, ?_, ?_, ?_, ?_, ?_, ?_, ?_, ?_⟩
  · exact fun pb m h => exact_of_kept (reencode_probe hc h)
      (Proto.CapabilityProbe.kept_eq_self hc hnow)
  · exact fun pb m h => exact_of_kept (reencode_offer hc h)
      (Proto.CapabilityOffer.kept_eq_self hc hnow)
  · exact fun pb m h => exact_of_kept (reencode_contractAccept hc h)
      (Proto.ContractAccept.kept_eq_self hc hnow hearly)
  · exact fun pb m => reencode_contextRequest hc sent
  · exact fun pb m h => exact_of_kept (reencode_taskSubmit hc sent h) Proto.TaskSubmit.kept_eq_self
  · exact fun pb m => reencode_taskResult hc sent
  · exact fun pb m h => exact_of_kept (reencode_interactionProof hc h)
      (Proto.InteractionProof.kept_eq_self hc hnow)
  · exact fun pb m => reencode_heartbeat hc sent
  · exact fun pb m => reencode_backpressure hc sent
  · exact fun pb m => reencode_circuitBreak hc sent
  · exact fun pb r h => exact_of_kept (reencode_route hc h) (Proto.Route.kept_eq_self hc hnow)

end Crates

/-- A submission whose hash has three bytes. -/
def shortHash : Proto.TaskSubmit ℚ where
  src := some (agentIdToProto .sample ⟨1⟩)
  dst := some (agentIdToProto .sample ⟨2⟩)
  taskId := Crates.sample.display 3
  taskType := 2
  payload := []
  context := some ⟨[1, 2, 3], [], 1, 0, 0⟩
  contractId := Crates.sample.display 4
  timestamp := none

/-- An evaluation without a timestamp. -/
def undated : Proto.InteractionProof ℚ where
  evaluator := some (agentIdToProto .sample ⟨1⟩)
  subject := some (agentIdToProto .sample ⟨2⟩)
  taskId := Crates.sample.display 3
  taskType := 2
  qualityScore := 1
  latencyMs := 0
  cost := 0
  timestamp := none
  signature := []

theorem shortHash_accepted : protoToTaskSubmit .sample shortHash =
    .ok ⟨⟨1⟩, ⟨2⟩, 3, .analysis, [], ⟨hash32 [1, 2, 3], [], 1, 0, 0⟩, 4⟩ := by
  have hlawful := Crates.sample_lawful
  have htype : protoToTaskType 2 = .ok .analysis := rfl
  simp only [protoToTaskSubmit, shortHash, parseUuid_display hlawful,
    requireAgentId_agentIdToProto hlawful, htype, ok_bind, okOr_some, pure_eq_ok,
    protoToContextDiff, List.map_nil]

theorem undated_accepted : protoToInteractionProof .sample 0 undated =
    .ok ⟨⟨1⟩, ⟨2⟩, 3, .analysis, 1, 0, 0, 0, []⟩ := by
  have hlawful := Crates.sample_lawful
  have htype : protoToTaskType 2 = .ok .analysis := rfl
  simp only [protoToInteractionProof, undated, parseUuid_display hlawful,
    requireAgentId_agentIdToProto hlawful, htype, ok_bind, pure_eq_ok, timestampOrNow,
    Option.map_none, Option.getD_none]

/-- The epoch is a reading of the sample clock. -/
theorem sample_reading : Crates.sample.Reading 0 :=
  ⟨Crates.sample_isDateTime_iff.mpr (by decide), by decide⟩

theorem reencode_received_sample :
    (taskSubmitToProto .sample 0 ⟨⟨1⟩, ⟨2⟩, 3, .analysis, [],
      ⟨hash32 [1, 2, 3], [], 1, 0, 0⟩, 4⟩).canonical .sample = shortHash.kept.canonical .sample ∧
    (interactionProofToProto .sample ⟨⟨1⟩, ⟨2⟩, 3, .analysis, 1, 0, 0, 0, []⟩).canonical .sample
      = (undated.kept .sample 0).canonical .sample := by
  obtain ⟨-, -, -, -, hsubmit, -, hproof, -, -, -, -⟩ :=
    reencode_received (F := ℚ) Crates.sample_lawful sample_reading.isDateTime sample_reading 0
  exact ⟨(hsubmit shortHash _ shortHash_accepted).1, (hproof undated _ undated_accepted).1⟩

/-- Neither message comes back: the hash has been filled up, and the evaluation dated. -/
theorem received_rewritten :
    (∃ m, protoToTaskSubmit .sample shortHash = .ok m ∧
      (taskSubmitToProto .sample 0 m).canonical .sample ≠ shortHash.canonical .sample) ∧
    ∃ m, protoToInteractionProof .sample 0 undated = .ok m ∧
      (interactionProofToProto .sample m).canonical .sample ≠ undated.canonical .sample := by
  have hlawful := Crates.sample_lawful
  refine ⟨⟨_, shortHash_accepted, ?_⟩, ⟨_, undated_accepted, ?_⟩⟩
  · rw [reencode_taskSubmit hlawful 0 shortHash_accepted, Ne, Proto.TaskSubmit.kept_eq_self]
    exact fun h => absurd (h _ rfl) (by decide)
  · rw [reencode_interactionProof hlawful undated_accepted, Ne,
      Proto.InteractionProof.kept_eq_self hlawful sample_reading.isDateTime]
    rintro ⟨t, ht, -⟩
    cases ht

end ATP
