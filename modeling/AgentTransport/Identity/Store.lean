import AgentTransport.Identity.Trust

/-! In-memory identity and interaction store. -/

namespace ATP
open F64 Collections
variable {F : Type} [F64 F]

/-- An agent's public identity in the network. -/
structure AgentIdentity (F : Type) where
  id : AgentId
  capabilities : List (Capability F)

/-- Identities, and all interaction records under their subject. -/
structure IdentityStore (F : Type) where
  identities : HashMap AgentId (AgentIdentity F)
  interactions : HashMap AgentId (List (InteractionRecord F))
  trustEngine : TrustEngine F

namespace IdentityStore

/-- Create an empty store with the default trust engine. -/
def new : IdentityStore F := ⟨∅, ∅, TrustEngine.default⟩

/-- Register a new agent identity. -/
def register (s : IdentityStore F) (identity : AgentIdentity F) : IdentityStore F :=
  { s with
    identities := s.identities.insert identity.id identity
    interactions := s.interactions.upsert identity.id [] id }

/-- List all registered agents, in the order of the hash map. -/
def listAgents (hs : RandomState AgentId) (s : IdentityStore F) : List AgentId :=
  hs.order s.identities.keys

/-- Record a new interaction. -/
def addInteraction (s : IdentityStore F) (record : InteractionRecord F) : IdentityStore F :=
  { s with interactions := s.interactions.upsert record.subject [] (· ++ [record]) }

/-- All interaction records for a given subject. -/
def getInteractions (s : IdentityStore F) (subject : AgentId) : List (InteractionRecord F) :=
  (s.interactions.lookup subject).getD []

/-- Compute aggregate trust for an agent across all task types. -/
def aggregateTrust (lib : External F) (s : IdentityStore F) (subject : AgentId) (now : DateTime) :
    F :=
  s.trustEngine.computeAggregateTrust lib subject (s.getInteractions subject) now

/-- The agent has been registered. -/
def Registered (s : IdentityStore F) (a : AgentId) : Prop := (s.identities.lookup a).isSome

omit [F64 F] in
theorem registered_register {s : IdentityStore F} {identity : AgentIdentity F} {a : AgentId} :
    (s.register identity).Registered a ↔ a = identity.id ∨ s.Registered a := by
  unfold Registered register
  rcases eq_or_ne a identity.id with rfl | h
  · simp
  · simp [AList.lookup_insert_ne h, h]

omit [F64 F] in
/-- Registering an agent keeps all interactions. -/
@[simp] theorem getInteractions_register (s : IdentityStore F) (identity : AgentIdentity F)
    (a : AgentId) : (s.register identity).getInteractions a = s.getInteractions a := by
  unfold getInteractions register
  rw [lookup_upsert]
  rcases eq_or_ne a identity.id with rfl | h
  · simp
  · rw [if_neg h]

omit [F64 F] in
theorem getInteractions_addInteraction (s : IdentityStore F) (r : InteractionRecord F)
    (a : AgentId) : (s.addInteraction r).getInteractions a =
      if a = r.subject then s.getInteractions a ++ [r] else s.getInteractions a := by
  unfold getInteractions addInteraction
  rw [lookup_upsert]
  rcases eq_or_ne a r.subject with rfl | h
  · simp
  · rw [if_neg h, if_neg h]

omit [F64 F] in
/-- A record about an agent was there before, or is the one just added about it. -/
theorem mem_addInteraction {s : IdentityStore F} {r x : InteractionRecord F} {a : AgentId}
    (h : x ∈ (s.addInteraction r).getInteractions a) :
    x ∈ s.getInteractions a ∨ (a = r.subject ∧ x = r) := by
  rw [getInteractions_addInteraction] at h
  split at h
  · rename_i ha
    exact (List.mem_append.mp h).imp_right fun h => ⟨ha, List.mem_singleton.mp h⟩
  · exact Or.inl h

end IdentityStore

end ATP
