import AgentTransport.Types.External
import AgentTransport.Types.Message

/-! Hash-based embeddings and their cosine similarity. The dot product panics on vectors of
    different length. -/

namespace ATP
open F64
variable {F : Type} [F64 F]

/-- `f64::EPSILON`. -/
def epsilon : F := lit (1 / 2 ^ 52)

/-- The L2 norm of a vector. -/
def l2Norm (lib : External F) (v : List F) : F := lib.sqrt (lib.dot v v)

/-- Normalize a vector to unit length; a vector of zero magnitude becomes the zero vector. -/
def normalize (lib : External F) (v : List F) : List F :=
  let norm := l2Norm lib v
  if norm < epsilon then v.map fun _ => 0 else v.map (· / norm)

/-- Four values in `[-1, 1]` from a hash, one for each block of eight bytes (little-endian). -/
def hashValues (hash : Vector UInt8 32) : List F :=
  (List.range 4).map fun k =>
    let bytes := (hash.toList.drop (8 * k)).take 8
    let raw : ℕ := bytes.foldr (fun b n => b.toNat + 256 * n) 0
    lit raw / lit (2 ^ 64 - 1) * lit 2 - 1

/-- The values of `rounds` hashes, each the hash of the one before. -/
def hashStream (lib : External F) : ℕ → Vector UInt8 32 → List F
  | 0, _ => []
  | rounds + 1, hash => hashValues hash ++ hashStream lib rounds (lib.sha256 hash.toList)

def ContextEmbedding.new (values : List F) : ContextEmbedding F := ⟨values.length, values⟩

/-- Generate a deterministic embedding from arbitrary byte data. -/
def embed (lib : External F) (data : List UInt8) (dimensions : ℕ) : ContextEmbedding F :=
  let values := (hashStream lib ((dimensions + 3) / 4) (lib.sha256 data)).take dimensions
  .new (normalize lib values)

/-- Generate a task embedding: the task type tags the description. -/
def embedTask (lib : External F) (t : TaskType) (description : List UInt8) (dimensions : ℕ) :
    ContextEmbedding F :=
  let tag := ("atp:task:" ++ t.display ++ ":").toUTF8.data.toList
  embed lib (tag ++ description) dimensions

/-- `Array1::dot`; `none` is the panic on different lengths. -/
def arrayDot (lib : External F) (a b : List F) : Option F :=
  if a.length = b.length then some (lib.dot a b) else none

/-- Cosine similarity of two vectors, 0 when either has zero magnitude. -/
def cosineSimilarityArrays (lib : External F) (a b : List F) : Option F := do
  let dot ← arrayDot lib a b
  let denom := l2Norm lib a * l2Norm lib b
  pure (if denom < epsilon then 0 else clamp (dot / denom) (-1) 1)

end ATP
