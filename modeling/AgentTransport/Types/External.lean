import AgentTransport.Types.Basic

/-! What the layers take from outside the repository: elementary functions, the dot product of the
    array library, and SHA-256. -/

namespace ATP

structure External (F : Type) where
  exp : F → F
  sqrt : F → F
  dot : List F → List F → F
  sha256 : List UInt8 → Vector UInt8 32

/-- Right about `exp 0` and `sqrt 1`, and enough to evaluate a node that compresses no context. -/
def External.sample : External ℚ :=
  ⟨fun _ => 1, id, fun _ _ => 1, fun _ => Vector.replicate 32 0⟩

end ATP
