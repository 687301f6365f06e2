import AgentTransport.Types.Basic

/-! The agent graph: adjacency lists over dense integer indices, with a map from agent identifiers
    to indices. The invariant that ties the three together is a field of the graph, so every graph
    the operations can build satisfies it:

        id ──idToIndex──▶ i ──nodes──▶ node with that id
                          └──adjacency──▶ edges from i, one for each target -/

namespace ATP
open F64 Collections
variable {F : Type} [F64 F]

/-- A node (agent) in the routing graph. -/
structure AgentNode (F : Type) where
  id : AgentId
  capabilities : List (Capability F)
  available : Bool
  trustScore : F

/-- Find the capability matching a given task type. -/
def AgentNode.capabilityFor (n : AgentNode F) (t : TaskType) : Option (Capability F) :=
  n.capabilities.find? (fun c => c.taskType = t)

/-- A directed edge in the routing graph. -/
structure Edge where
  fromIdx : ℕ
  toIdx : ℕ
  transferLatency : Duration

/-- Representation invariant of the graph. -/
structure GraphWF (nodes : List (AgentNode F)) (adjacency : List (List Edge))
    (idToIndex : HashMap AgentId ℕ) : Prop where
  adj_len : adjacency.length = nodes.length
  index_iff : ∀ id i, idToIndex.lookup id = some i ↔ ∃ n, nodes[i]? = some n ∧ n.id = id
  edge_ends : ∀ (i : ℕ) (es : List Edge), adjacency[i]? = some es →
    ∀ e ∈ es, e.fromIdx = i ∧ e.toIdx < nodes.length
  edge_nodup : ∀ (i : ℕ) (es : List Edge), adjacency[i]? = some es → (es.map (·.toIdx)).Nodup

/-- Agent routing graph with adjacency list representation. -/
structure AgentGraph (F : Type) where
  nodes : List (AgentNode F)
  adjacency : List (List Edge)
  idToIndex : HashMap AgentId ℕ
  wf : GraphWF nodes adjacency idToIndex

namespace GraphWF
omit [F64 F]
variable {nodes : List (AgentNode F)} {adjacency : List (List Edge)} {idx : HashMap AgentId ℕ}

theorem empty : GraphWF ([] : List (AgentNode F)) [] ∅ where
  adj_len := rfl
  index_iff := by simp
  edge_ends := by simp
  edge_nodup := by simp

/-- Changing a node but not its identifier. -/
theorem modify (h : GraphWF nodes adjacency idx) (i : ℕ) {f : AgentNode F → AgentNode F}
    (hf : ∀ n, (f n).id = n.id) : GraphWF (nodes.modify i f) adjacency idx where
  adj_len := by rw [List.length_modify]; exact h.adj_len
  index_iff id j := by
    rw [h.index_iff, List.getElem?_modify]
    cases nodes[j]? with
    | none => simp
    | some n => by_cases hij : i = j <;> simp [hij, hf]
  edge_ends j es hes e he := by rw [List.length_modify]; exact h.edge_ends j es hes e he
  edge_nodup := h.edge_nodup

/-- Appending a node under a new identifier. -/
theorem push (h : GraphWF nodes adjacency idx) {n : AgentNode F} (hn : idx.lookup n.id = none) :
    GraphWF (nodes ++ [n]) (adjacency ++ [[]]) (idx.insert n.id nodes.length) where
  adj_len := by simp [h.adj_len]
  index_iff id i := by
    -- no node has the new identifier yet
    have hfresh : ∀ (j : ℕ) (m : AgentNode F), nodes[j]? = some m → m.id ≠ n.id := by
      intro j m hm hid
      rw [(h.index_iff n.id j).mpr ⟨m, hm, hid⟩] at hn
      exact absurd hn (by simp)
    simp only [getElem?_concat_eq_some]
    rcases eq_or_ne id n.id with rfl | hid
    · rw [AList.lookup_insert, Option.some.injEq]
      constructor
      · rintro rfl
        exact ⟨n, Or.inr ⟨rfl, rfl⟩, rfl⟩
      · rintro ⟨m, hm | ⟨rfl, -⟩, hmid⟩
        · exact absurd hmid (hfresh i m hm)
        · rfl
    · rw [AList.lookup_insert_ne hid, h.index_iff]
      constructor
      · rintro ⟨m, hm, rfl⟩
        exact ⟨m, Or.inl hm, rfl⟩
      · rintro ⟨m, hm | ⟨-, rfl⟩, rfl⟩
        · exact ⟨m, hm, rfl⟩
        · exact absurd rfl hid
  edge_ends i es hes e he := by
    rcases getElem?_concat_eq_some.mp hes with hes | ⟨-, rfl⟩
    · obtain ⟨hfrom, hto⟩ := h.edge_ends i es hes e he
      exact ⟨hfrom, by rw [List.length_append]; omega⟩
    · simp at he
  edge_nodup i es hes := by
    rcases getElem?_concat_eq_some.mp hes with hes | ⟨-, rfl⟩
    · exact h.edge_nodup i es hes
    · exact List.nodup_nil

/-- Appending an edge to a new target. -/
theorem link (h : GraphWF nodes adjacency idx) {i j : ℕ} (hj : j < nodes.length) (d : Duration) :
    GraphWF nodes (adjacency.modify i fun es =>
      if es.any (fun e => e.toIdx = j) then es else es ++ [⟨i, j, d⟩]) idx where
  adj_len := by rw [List.length_modify]; exact h.adj_len
  index_iff := h.index_iff
  edge_ends k es hes e he := by
    rw [List.getElem?_modify] at hes
    obtain ⟨es₀, hes₀, rfl⟩ := Option.map_eq_some_iff.mp hes
    have hold := h.edge_ends k es₀ hes₀
    rcases eq_or_ne i k with rfl | hik
    · rw [if_pos rfl] at he
      by_cases hany : es₀.any (fun e => e.toIdx = j)
      · rw [if_pos hany] at he; exact hold e he
      · rw [if_neg hany] at he
        rcases List.mem_append.mp he with he | he
        · exact hold e he
        · obtain rfl := List.mem_singleton.mp he
          exact ⟨rfl, hj⟩
    · rw [if_neg hik] at he; exact hold e he
  edge_nodup k es hes := by
    rw [List.getElem?_modify] at hes
    obtain ⟨es₀, hes₀, rfl⟩ := Option.map_eq_some_iff.mp hes
    have hold := h.edge_nodup k es₀ hes₀
    rcases eq_or_ne i k with rfl | hik
    · rw [if_pos rfl]
      by_cases hany : es₀.any (fun e => e.toIdx = j)
      -- a second edge to the same target is never pushed
      · rw [if_pos hany]; exact hold
      · rw [if_neg hany, List.map_append, List.nodup_append]
        refine ⟨hold, by simp, ?_⟩
        rintro a ha b hb rfl
        obtain ⟨e, he, hea⟩ := List.mem_map.mp ha
        simp only [List.map_cons, List.map_nil, List.mem_singleton] at hb
        exact hany (List.any_eq_true.mpr ⟨e, he, by simp [hea, hb]⟩)
    · rw [if_neg hik]; exact hold

end GraphWF

namespace AgentGraph

/-- Create an empty graph. -/
def new : AgentGraph F := ⟨[], [], ∅, GraphWF.empty⟩

/-- Change the node at an index, keeping its identifier. -/
def modifyNode (g : AgentGraph F) (i : ℕ) (f : AgentNode F → AgentNode F)
    (hf : ∀ n, (f n).id = n.id) : AgentGraph F :=
  { g with nodes := g.nodes.modify i f, wf := g.wf.modify i hf }

/-- Add an agent, or update the capabilities of one already there. Returns its index. -/
def addAgent (g : AgentGraph F) (id : AgentId) (capabilities : List (Capability F))
    (trustScore : F) : ℕ × AgentGraph F :=
  match h : g.idToIndex.lookup id with
  | some idx =>
    (idx, g.modifyNode idx (fun n => { n with capabilities, trustScore, available := true })
      (fun _ => rfl))
  | none =>
    (g.nodes.length,
      { nodes := g.nodes ++ [{ id, capabilities, available := true, trustScore }]
        adjacency := g.adjacency ++ [[]]
        idToIndex := g.idToIndex.insert id g.nodes.length
        wf := g.wf.push h })

/-- Append an edge between two indices unless there is one. -/
def linkIdx (g : AgentGraph F) (i j : ℕ) (d : Duration) : AgentGraph F :=
  if hj : j < g.nodes.length then
    { g with
      adjacency := g.adjacency.modify i fun es =>
        if es.any (fun e => e.toIdx = j) then es else es ++ [⟨i, j, d⟩]
      wf := g.wf.link hj d }
  else g

/-- Add a directed edge from one agent to another with a given transfer latency. -/
def addEdge (g : AgentGraph F) (src dst : AgentId) (d : Duration) : AgentGraph F :=
  match g.idToIndex.lookup src, g.idToIndex.lookup dst with
  | some i, some j => g.linkIdx i j d
  | _, _ => g

/-- Add bidirectional edge between two agents. -/
def addBidiEdge (g : AgentGraph F) (a b : AgentId) (d : Duration) : AgentGraph F :=
  (g.addEdge a b d).addEdge b a d

/-- Remove an agent from routing consideration (soft delete). -/
def setUnavailable (g : AgentGraph F) (id : AgentId) : AgentGraph F :=
  match g.idToIndex.lookup id with
  | some idx => g.modifyNode idx (fun n => { n with available := false }) (fun _ => rfl)
  | none => g

/-- Re-enable an agent for routing. -/
def setAvailable (g : AgentGraph F) (id : AgentId) : AgentGraph F :=
  match g.idToIndex.lookup id with
  | some idx => g.modifyNode idx (fun n => { n with available := true }) (fun _ => rfl)
  | none => g

/-- Connect all agents to each other with a default latency. -/
def fullyConnect (g : AgentGraph F) (d : Duration) : AgentGraph F :=
  let n := g.nodes.length
  (List.range n).foldl (fun g i =>
    (List.range n).foldl (fun g j => if i ≠ j then g.linkIdx i j d else g) g) g

/-- Get a node by its internal index. -/
def node (g : AgentGraph F) (i : ℕ) : Option (AgentNode F) := g.nodes[i]?

/-- Get the internal index for an agent. -/
def indexOf (g : AgentGraph F) (id : AgentId) : Option ℕ := g.idToIndex.lookup id

/-- Get a node by agent. -/
def nodeById (g : AgentGraph F) (id : AgentId) : Option (AgentNode F) :=
  (g.indexOf id).bind g.node

/-- Get the agent for an internal index. -/
def agentId (g : AgentGraph F) (i : ℕ) : Option AgentId := (g.node i).map (·.id)

/-- Get all outgoing edges from a node. -/
def edgesFrom (g : AgentGraph F) (i : ℕ) : List Edge := (g.adjacency[i]?).getD []

/-- Get the transfer latency between two nodes, if an edge exists. -/
def transferLatency (g : AgentGraph F) (i j : ℕ) : Option Duration :=
  g.adjacency[i]?.bind fun es => (es.find? (fun e => e.toIdx = j)).map (·.transferLatency)

/-- Indices of the available agents with the requested capability and enough trust. -/
def capableAgents (g : AgentGraph F) (t : TaskType) (minTrust : F) : List ℕ :=
  (g.nodes.zipIdx.filter fun p =>
    p.1.available && decide (p.1.trustScore ≥ minTrust) && (p.1.capabilityFor t).isSome).map (·.2)

/-- Validate that the graph is non-empty. -/
def validate (g : AgentGraph F) : Except RoutingError Unit :=
  if g.nodes.isEmpty then .error .emptyGraph else .ok ()

/-! ### What the lookups say -/

omit [F64 F] in
theorem indexOf_eq_some {g : AgentGraph F} {id : AgentId} {i : ℕ} :
    g.indexOf id = some i ↔ ∃ n, g.node i = some n ∧ n.id = id := g.wf.index_iff id i

omit [F64 F] in
/-- Two indices never carry the same agent. -/
theorem index_unique {g : AgentGraph F} {i j : ℕ} {n m : AgentNode F} (hi : g.node i = some n)
    (hj : g.node j = some m) (h : n.id = m.id) : i = j := by
  have h₁ := indexOf_eq_some.mpr ⟨n, hi, h⟩
  have h₂ := indexOf_eq_some.mpr ⟨m, hj, rfl⟩
  exact Option.some.inj (h₁.symm.trans h₂)

omit [F64 F] in
theorem nodeById_of_node {g : AgentGraph F} {i : ℕ} {n : AgentNode F} (h : g.node i = some n) :
    g.nodeById n.id = some n := by
  rw [nodeById, indexOf_eq_some.mpr ⟨n, h, rfl⟩]
  exact h

omit [F64 F] in
/-- Registering makes the node of its agent the given one, available, and changes no other. -/
theorem nodeById_addAgent (g : AgentGraph F) (id a : AgentId) (caps : List (Capability F))
    (trust : F) : (g.addAgent id caps trust).2.nodeById a =
      if a = id then some ⟨id, caps, true, trust⟩ else g.nodeById a := by
  unfold nodeById indexOf node addAgent
  split
  -- a known identifier: its node is updated in place, and indices of other agents differ
  · rename_i i hi
    obtain ⟨n, hn, hid⟩ := (g.wf.index_iff id i).mp hi
    simp only [modifyNode]
    rcases eq_or_ne a id with rfl | ha
    · simp [hi, hn, hid]
    · rw [if_neg ha]
      cases hj : g.idToIndex.lookup a with
      | none => rfl
      | some j =>
        have hij : i ≠ j := by
          rintro rfl
          obtain ⟨m, hm, hma⟩ := (g.wf.index_iff a i).mp hj
          rw [hm] at hn
          exact ha (by rw [← hma, Option.some.inj hn, hid])
        simp [List.getElem?_modify, hij]
  -- a new identifier: the node is appended
  · rename_i hnone
    rcases eq_or_ne a id with rfl | ha
    · simp
    · rw [if_neg ha]
      simp only [AList.lookup_insert_ne ha]
      cases hj : g.idToIndex.lookup a with
      | none => rfl
      | some j =>
        obtain ⟨m, hm, -⟩ := (g.wf.index_iff a j).mp hj
        obtain ⟨hlt, -⟩ := List.getElem?_eq_some_iff.mp hm
        simp [List.getElem?_append_left hlt]

omit [F64 F] in
/-- Edges change no node. -/
theorem nodeById_addEdge (g : AgentGraph F) (src dst : AgentId) (d : Duration) (a : AgentId) :
    (g.addEdge src dst d).nodeById a = g.nodeById a := by
  unfold addEdge linkIdx
  split
  · split <;> rfl
  · rfl

/-- A node that may serve the request: available, trusted and capable. -/
structure Serves (n : AgentNode F) (t : TaskType) (minTrust : F) : Prop where
  available : n.available = true
  trusted : n.trustScore ≥ minTrust
  capable : (n.capabilityFor t).isSome

theorem mem_capableAgents {g : AgentGraph F} {t : TaskType} {minTrust : F} {i : ℕ} :
    i ∈ g.capableAgents t minTrust ↔ ∃ n, g.node i = some n ∧ Serves n t minTrust := by
  simp only [capableAgents, List.mem_map, List.mem_filter, Bool.and_eq_true, decide_eq_true_eq,
    List.mem_zipIdx_iff_getElem?, Prod.exists]
  constructor
  · rintro ⟨n, j, ⟨hn, ⟨ha, ht⟩, hc⟩, rfl⟩
    exact ⟨n, hn, ha, ht, hc⟩
  · rintro ⟨n, hn, ha, ht, hc⟩
    exact ⟨n, i, ⟨hn, ⟨ha, ht⟩, hc⟩, rfl⟩

theorem nodup_capableAgents (g : AgentGraph F) (t : TaskType) (minTrust : F) :
    (g.capableAgents t minTrust).Nodup := by
  have hidx : (g.nodes.zipIdx.map (·.2)).Nodup := by
    rw [List.zipIdx_map_snd]
    exact List.nodup_range'
  exact (List.filter_sublist.map _).nodup hidx

omit [F64 F] in
/-- The agents at distinct indices are distinct. -/
theorem nodup_filterMap_agentId (g : AgentGraph F) {path : List ℕ} (h : path.Nodup) :
    (path.filterMap g.agentId).Nodup := by
  refine h.filterMap ?_
  intro i j id hi hj
  obtain ⟨n, hn, rfl⟩ := Option.map_eq_some_iff.mp hi
  obtain ⟨m, hm, hid⟩ := Option.map_eq_some_iff.mp hj
  exact index_unique hn hm hid.symm

end AgentGraph

end ATP
