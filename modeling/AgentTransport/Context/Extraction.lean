import AgentTransport.Context.Embedding

/-! Minimal sufficient context: the chunks most similar to the task, and the diff made of them. -/

namespace ATP
open F64
variable {F : Type} [F64 F]

/-- Configuration for extraction. A budget of 0 chunks is no limit. -/
structure MscConfig (F : Type) where
  relevanceThreshold : F
  maxChunks : ℕ
  chunkSize : ℕ
  dimensions : ℕ

/-- Result of extraction: the selected chunks and metadata. -/
structure MscResult (F : Type) where
  chunks : List (ContextChunk F)
  totalChunks : ℕ
  baseHash : Vector UInt8 32
  originalSize : ℕ
  compressedSize : ℕ
  confidence : F

/-- Split raw context data into fixed-size chunks. -/
def splitIntoChunks (data : List UInt8) (chunkSize : ℕ) : List (List UInt8) :=
  if data.isEmpty || chunkSize == 0 then []
  else (List.range ((data.length + chunkSize - 1) / chunkSize)).map fun i =>
    (data.drop (i * chunkSize)).take chunkSize

/-- Embed a chunk and score it against the task. -/
def scoreChunk (lib : External F) (task : ContextEmbedding F) (dimensions : ℕ)
    (chunk : List UInt8 × ℕ) : Option (ContextChunk F) := do
  let sim ← cosineSimilarityArrays lib task.values (embed lib chunk.1 dimensions).values
  pure ⟨UInt32.ofNat chunk.2, chunk.1, sim⟩

/-- Extract the minimal sufficient context given a task embedding; `none` is a panic. -/
def extractMsc (lib : External F) (data : List UInt8) (task : ContextEmbedding F)
    (config : MscConfig F) : Option (Except (ContextError F) (MscResult F)) := do
  if task.dimensions ≠ config.dimensions then
    return .error (.dimensionMismatch config.dimensions task.dimensions)
  let rawChunks := splitIntoChunks data config.chunkSize
  if rawChunks.length = 0 then
    return .error (.extractionFailed "empty context data")
  let scored ← rawChunks.zipIdx.mapM (scoreChunk lib task config.dimensions)
  let relevant := scored.filter fun c => c.relevanceScore > config.relevanceThreshold
  let sorted := sortDesc (·.relevanceScore) relevant
  let chunks := if config.maxChunks > 0 ∧ sorted.length > config.maxChunks then
    sorted.take config.maxChunks else sorted
  return .ok
    { chunks
      totalChunks := rawChunks.length
      baseHash := lib.sha256 data
      originalSize := data.length
      compressedSize := (chunks.map (·.data.length)).sum
      confidence := if chunks.isEmpty then 0
        else F64.sum (chunks.map (·.relevanceScore)) / lit chunks.length }

/-- Retrieve specific chunks by index; indices out of range are skipped. -/
def extractChunksByIndex (lib : External F) (data : List UInt8) (chunkSize : ℕ)
    (indices : List UInt32) (dimensions : ℕ) (task : ContextEmbedding F) :
    Option (List (ContextChunk F)) :=
  let rawChunks := splitIntoChunks data chunkSize
  let found := indices.filterMap fun idx => (rawChunks[idx.toNat]?).map fun c => (c, idx.toNat)
  found.mapM (scoreChunk lib task dimensions)

/-- Convert an extraction result into a wire-format diff. -/
def mscToDiff (msc : MscResult F) : ContextDiff F where
  baseHash := msc.baseHash
  chunks := msc.chunks
  confidence := msc.confidence
  originalSize := UInt64.ofNat msc.originalSize
  compressedSize := UInt64.ofNat msc.compressedSize

/-- The primary high-level interface of the layer. -/
structure ContextCompressor (F : Type) where
  config : MscConfig F

namespace ContextCompressor

/-- Compress full context data using a task embedding. -/
def compress (lib : External F) (c : ContextCompressor F) (data : List UInt8)
    (task : ContextEmbedding F) : Option (Except (ContextError F) (ContextDiff F)) :=
  (extractMsc lib data task c.config).map fun r => r.map mscToDiff

/-- Embed the task description and then compress. -/
def compressForTask (lib : External F) (c : ContextCompressor F) (data : List UInt8)
    (t : TaskType) (description : List UInt8) :
    Option (Except (ContextError F) (ContextDiff F)) :=
  c.compress lib data (embedTask lib t description c.config.dimensions)

/-- Extract additional chunks by index. -/
def extractAdditional (lib : External F) (c : ContextCompressor F) (data : List UInt8)
    (task : ContextEmbedding F) (indices : List UInt32) : Option (List (ContextChunk F)) :=
  extractChunksByIndex lib data c.config.chunkSize indices c.config.dimensions task

end ContextCompressor

end ATP
