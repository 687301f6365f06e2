import AgentTransport.Context.Differential
import Mathlib.Data.Nat.Size

/-! Adaptive context: a receiver that is not confident enough requests more chunks.

        provider                        receiver
           │ ──── initial diff ────────▶ evaluate ── confident ──▶ done
           │ ◀─── half of the missing ──    │    └── no rounds or chunks left ──▶ low confidence
           │ ──── those chunks ────────▶ merge, evaluate again

    The loop ends because every request spends a round. -/

namespace ATP
open F64 Collections
variable {F : Type} [F64 F]

/-- Adaptive context manager for a receiving agent. -/
structure AdaptiveContextManager (F : Type) where
  agentId : AgentId
  confidenceThreshold : F
  refinementRounds : UInt32
  maxRounds : UInt32
  receivedIndices : Finset UInt32

namespace AdaptiveContextManager

/-- Create a new manager with the default threshold and number of rounds. -/
def new (agentId : AgentId) : AdaptiveContextManager F := ⟨agentId, lit (7 / 10), 0, 5, ∅⟩

/-- Set a custom confidence threshold. -/
def withThreshold (m : AdaptiveContextManager F) (threshold : F) : AdaptiveContextManager F :=
  { m with confidenceThreshold := threshold }

/-- Set the maximum number of refinement rounds. -/
def withMaxRounds (m : AdaptiveContextManager F) (maxRounds : UInt32) :
    AdaptiveContextManager F := { m with maxRounds := maxRounds }

/-- Record the indices of the chunks received. -/
def receive (m : AdaptiveContextManager F) (diff : ContextDiff F) : AdaptiveContextManager F :=
  { m with receivedIndices := m.receivedIndices ∪ (diff.chunks.map (·.index)).toFinset }

/-- The indices not received yet, in order. -/
def needed (m : AdaptiveContextManager F) (totalChunks : UInt32) : List UInt32 :=
  ((List.range totalChunks.toNat).map UInt32.ofNat).filter fun idx => idx ∉ m.receivedIndices

/-- Evaluate a received diff: nothing more is needed, or a request for half of the rest, or low
    confidence when the rounds or the chunks are exhausted. -/
def evaluate (m : AdaptiveContextManager F) (diff : ContextDiff F) (sender : AgentId)
    (taskId : Uuid) (totalChunks : UInt32) :
    Except (ContextError F) (Option (ContextRequestMsg F)) × AdaptiveContextManager F :=
  let m := m.receive diff
  if diff.confidence ≥ m.confidenceThreshold then (.ok none, m)
  else if m.refinementRounds ≥ m.maxRounds then (.error (.lowConfidence diff.confidence), m)
  else
    let m := { m with refinementRounds := m.refinementRounds + 1 }
    let needed := m.needed totalChunks
    if needed.isEmpty then (.error (.lowConfidence diff.confidence), m)
    else
      let batchSize := max ((needed.length + 1) / 2) 1
      (.ok (some
        { src := m.agentId
          dst := sender
          taskId := taskId
          currentConfidence := diff.confidence
          requestedChunkIndices := needed.take batchSize }), m)

/-- Reset the manager for a new task. -/
def reset (m : AdaptiveContextManager F) : AdaptiveContextManager F :=
  { m with refinementRounds := 0, receivedIndices := ∅ }

end AdaptiveContextManager

/-- Context provider: answers requests for additional chunks. -/
structure ContextProvider (F : Type) where
  compressor : ContextCompressor F
  fullContext : List UInt8
  taskEmbedding : ContextEmbedding F

namespace ContextProvider

/-- Handle a request by extracting the requested chunks. -/
def handleRequest (lib : External F) (p : ContextProvider F) (request : ContextRequestMsg F) :
    Option (List (ContextChunk F)) :=
  p.compressor.extractAdditional lib p.fullContext p.taskEmbedding request.requestedChunkIndices

/-- The total number of chunks in the full context. -/
def totalChunks (p : ContextProvider F) : UInt32 :=
  if p.compressor.config.chunkSize = 0 then 0
  else UInt32.ofNat (splitIntoChunks p.fullContext p.compressor.config.chunkSize).length

/-- Generate the initial compressed diff. -/
def initialDiff (lib : External F) (p : ContextProvider F) :
    Option (Except (ContextError F) (ContextDiff F)) :=
  p.compressor.compress lib p.fullContext p.taskEmbedding

end ContextProvider

/-! ### One evaluation -/

namespace AdaptiveContextManager

/-- All that a request says about the evaluation that made it. -/
structure Asks (m : AdaptiveContextManager F) (diff : ContextDiff F) (totalChunks : UInt32)
    (request : ContextRequestMsg F) (m' : AdaptiveContextManager F) : Prop where
  low : ¬ diff.confidence ≥ m.confidenceThreshold
  rounds : m.refinementRounds < m.maxRounds
  needed : (m.receive diff).needed totalChunks ≠ []
  indices : request.requestedChunkIndices = ((m.receive diff).needed totalChunks).take
    (max ((((m.receive diff).needed totalChunks).length + 1) / 2) 1)
  post : m' = { m.receive diff with refinementRounds := m.refinementRounds + 1 }

variable {m m' : AdaptiveContextManager F} {diff : ContextDiff F} {sender : AgentId}
  {taskId : Uuid} {n : UInt32} {request : ContextRequestMsg F}

/-- The ways an evaluation ends. -/
theorem evaluate_cases (m : AdaptiveContextManager F) (diff : ContextDiff F) (sender : AgentId)
    (taskId : Uuid) (n : UInt32) :
    (diff.confidence ≥ m.confidenceThreshold ∧
      m.evaluate diff sender taskId n = (.ok none, m.receive diff)) ∨
    (∃ m', ¬ diff.confidence ≥ m.confidenceThreshold ∧
      m.evaluate diff sender taskId n = (.error (.lowConfidence diff.confidence), m')) ∨
    ∃ request m', m.evaluate diff sender taskId n = (.ok (some request), m') ∧
      m.Asks diff n request m' := by
  by_cases hc : diff.confidence ≥ m.confidenceThreshold
  · left
    exact ⟨hc, if_pos hc⟩
  · right
    by_cases hr : m.refinementRounds ≥ m.maxRounds
    · left
      exact ⟨_, hc, (if_neg hc).trans (if_pos hr)⟩
    · by_cases hn : ((m.receive diff).needed n).isEmpty
      · left
        exact ⟨_, hc, (if_neg hc).trans ((if_neg hr).trans (if_pos hn))⟩
      · right
        refine ⟨_, _, (if_neg hc).trans ((if_neg hr).trans (if_neg hn)), hc,
          UInt32.not_le.mp hr, ?_, rfl, rfl⟩
        simpa using hn

theorem high_of_evaluate (h : m.evaluate diff sender taskId n = (.ok none, m')) :
    diff.confidence ≥ m.confidenceThreshold := by
  rcases evaluate_cases m diff sender taskId n with ⟨hhigh, -⟩ | ⟨_, -, heq⟩ | ⟨_, _, heq, -⟩
  · exact hhigh
  · rw [heq] at h
    cases h
  · rw [heq] at h
    cases h

theorem low_of_evaluate {e : ContextError F}
    (h : m.evaluate diff sender taskId n = (.error e, m')) :
    ¬ diff.confidence ≥ m.confidenceThreshold ∧ e = .lowConfidence diff.confidence := by
  rcases evaluate_cases m diff sender taskId n with ⟨-, heq⟩ | ⟨_, hlow, heq⟩ | ⟨_, _, heq, -⟩
  · rw [heq] at h
    cases h
  · rw [heq] at h
    cases h
    exact ⟨hlow, rfl⟩
  · rw [heq] at h
    cases h

theorem asks_of_evaluate (h : m.evaluate diff sender taskId n = (.ok (some request), m')) :
    m.Asks diff n request m' := by
  rcases evaluate_cases m diff sender taskId n with ⟨-, heq⟩ | ⟨_, -, heq⟩ | ⟨_, _, heq, hasks⟩
  · rw [heq] at h
    cases h
  · rw [heq] at h
    cases h
  · rw [heq] at h
    cases h
    exact hasks

/-- A request spends a round. -/
theorem Asks.decreases (h : m.Asks diff n request m') :
    m'.maxRounds.toNat - m'.refinementRounds.toNat <
      m.maxRounds.toNat - m.refinementRounds.toNat := by
  have hlt := UInt32.lt_iff_toNat_lt.mp h.rounds
  have hmax : m.maxRounds.toNat < 2 ^ 32 := UInt32.toNat_lt _
  have hsucc : (m.refinementRounds + 1).toNat = m.refinementRounds.toNat + 1 := by
    rw [UInt32.toNat_add]
    exact Nat.mod_eq_of_lt (by simp only [UInt32.toNat_one]; omega)
  rw [h.post]
  simp only [receive, hsucc]
  omega

end AdaptiveContextManager

/-! ### The loop -/

/-- One round of refinement: the diff evaluated, the request it led to, and the diff after the
    answer was merged. -/
structure Exchange (F : Type) where
  before : ContextDiff F
  request : ContextRequestMsg F
  merged : ContextDiff F

/-- Evaluate, request, merge and evaluate again, until no request is made; `none` is a panic. -/
def refine (lib : External F) (p : ContextProvider F) (sender : AgentId) (taskId : Uuid)
    (m : AdaptiveContextManager F) (diff : ContextDiff F) :
    Option (List (Exchange F) × Except (ContextError F) Unit) :=
  match _h : m.evaluate diff sender taskId p.totalChunks with
  | (.error e, _) => some ([], .error e)
  | (.ok none, _) => some ([], .ok ())
  | (.ok (some request), m') => do
    let additional ← p.handleRequest lib request
    let merged := mergeChunks diff additional
    let (exchanges, verdict) ← refine lib p sender taskId m' merged
    pure (⟨diff, request, merged⟩ :: exchanges, verdict)
termination_by m.maxRounds.toNat - m.refinementRounds.toNat
decreasing_by exact (AdaptiveContextManager.asks_of_evaluate _h).decreases

end ATP
