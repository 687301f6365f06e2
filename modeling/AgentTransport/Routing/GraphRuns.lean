import AgentTransport.Lib.Loops
import AgentTransport.Routing.Graph

/-! Runs of the agent graph. In the source the nodes, the adjacency lists and the map of indices are
    three collections that index into each other without checks; an index out of bounds panics. Here
    they are just that, and every run of operations is shown to do what the graph that carries its
    invariant does:

        RawGraph   ──op──▶ panic or RawGraph
           ▲                     ▲
         forget                forget
           │                     │
        AgentGraph ──op──▶  AgentGraph -/

namespace ATP
open F64 Collections Loops
variable {F : Type}

/-- The three collections of the graph. -/
structure RawGraph (F : Type) where
  nodes : List (AgentNode F)
  adjacency : List (List Edge)
  idToIndex : HashMap AgentId ℕ

/-- The operations that change a graph. -/
inductive GraphOp (F : Type) where
  | addAgent (id : AgentId) (capabilities : List (Capability F)) (trustScore : F)
  | addEdge (src dst : AgentId) (d : Duration)
  | addBidiEdge (a b : AgentId) (d : Duration)
  | fullyConnect (d : Duration)
  | setUnavailable (id : AgentId)
  | setAvailable (id : AgentId)

namespace RawGraph

def new : RawGraph F := ⟨[], [], ∅⟩

/-- Assign to the node at an index; `none` is a panic. -/
def updateNode (g : RawGraph F) (idx : ℕ) (f : AgentNode F → AgentNode F) : Option (RawGraph F) :=
  if idx < g.nodes.length then some { g with nodes := g.nodes.modify idx f } else none

/-- Add an agent, or update one already there. Returns its index. -/
def addAgent (g : RawGraph F) (id : AgentId) (capabilities : List (Capability F))
    (trustScore : F) : Option (ℕ × RawGraph F) :=
  match g.idToIndex.lookup id with
  | some idx =>
    (g.updateNode idx fun n => { n with capabilities, trustScore, available := true }).map (idx, ·)
  | none =>
    some (g.nodes.length,
      { nodes := g.nodes ++ [{ id, capabilities, available := true, trustScore }]
        adjacency := g.adjacency ++ [[]]
        idToIndex := g.idToIndex.insert id g.nodes.length })

/-- Push an edge on the list of an index unless the target is there; `none` is a panic. -/
def link (g : RawGraph F) (i j : ℕ) (d : Duration) : Option (RawGraph F) :=
  g.adjacency[i]?.map fun es =>
    if es.any (fun e => e.toIdx = j) then g
    else { g with adjacency := g.adjacency.modify i (· ++ [⟨i, j, d⟩]) }

def addEdge (g : RawGraph F) (src dst : AgentId) (d : Duration) : Option (RawGraph F) :=
  match g.idToIndex.lookup src, g.idToIndex.lookup dst with
  | some i, some j => g.link i j d
  | _, _ => some g

def addBidiEdge (g : RawGraph F) (a b : AgentId) (d : Duration) : Option (RawGraph F) := do
  let g ← g.addEdge a b d
  g.addEdge b a d

def setUnavailable (g : RawGraph F) (id : AgentId) : Option (RawGraph F) :=
  match g.idToIndex.lookup id with
  | some idx => g.updateNode idx fun n => { n with available := false }
  | none => some g

def setAvailable (g : RawGraph F) (id : AgentId) : Option (RawGraph F) :=
  match g.idToIndex.lookup id with
  | some idx => g.updateNode idx fun n => { n with available := true }
  | none => some g

def fullyConnect (g : RawGraph F) (d : Duration) : Option (RawGraph F) :=
  let n := g.nodes.length
  (List.range n).foldlM (fun g i =>
    (List.range n).foldlM (fun g j => if i ≠ j then g.link i j d else some g) g) g

/-- One operation; `none` is a panic. -/
def apply (g : RawGraph F) : GraphOp F → Option (RawGraph F)
  | .addAgent id capabilities trustScore => (g.addAgent id capabilities trustScore).map (·.2)
  | .addEdge src dst d => g.addEdge src dst d
  | .addBidiEdge a b d => g.addBidiEdge a b d
  | .fullyConnect d => g.fullyConnect d
  | .setUnavailable id => g.setUnavailable id
  | .setAvailable id => g.setAvailable id

/-- The graph after a sequence of operations on an empty one. -/
def run (ops : List (GraphOp F)) : Option (RawGraph F) := ops.foldlM apply new

end RawGraph

namespace AgentGraph

/-- The collections of a graph, without what is known about them. -/
def forget (g : AgentGraph F) : RawGraph F := ⟨g.nodes, g.adjacency, g.idToIndex⟩

def apply (g : AgentGraph F) : GraphOp F → AgentGraph F
  | .addAgent id capabilities trustScore => (g.addAgent id capabilities trustScore).2
  | .addEdge src dst d => g.addEdge src dst d
  | .addBidiEdge a b d => g.addBidiEdge a b d
  | .fullyConnect d => g.fullyConnect d
  | .setUnavailable id => g.setUnavailable id
  | .setAvailable id => g.setAvailable id

def run (ops : List (GraphOp F)) : AgentGraph F := ops.foldl apply new

/-! ### The simulation -/

section Simulation
variable {g : AgentGraph F} {id : AgentId} {i j : ℕ}

theorem lt_length_of_lookup (h : g.idToIndex.lookup id = some i) : i < g.nodes.length := by
  obtain ⟨n, hn, -⟩ := (g.wf.index_iff id i).mp h
  exact (List.getElem?_eq_some_iff.mp hn).1

theorem updateNode_forget (hi : i < g.nodes.length) (f : AgentNode F → AgentNode F)
    (hf : ∀ n, (f n).id = n.id) : g.forget.updateNode i f = some (g.modifyNode i f hf).forget :=
  if_pos hi

/-- Two changes of one element that agree on it. -/
theorem modify_congr {A : Type} {l : List A} {i : ℕ} {f f' : A → A}
    (h : ∀ a, l[i]? = some a → f a = f' a) : l.modify i f = l.modify i f' := by
  refine List.ext_getElem? fun j => ?_
  rw [List.getElem?_modify, List.getElem?_modify]
  refine Option.map_congr fun a ha => ?_
  split
  · rename_i hij
    exact h a (hij ▸ ha)
  · rfl

theorem link_forget (hi : i < g.nodes.length) (hj : j < g.nodes.length) (d : Duration) :
    g.forget.link i j d = some (g.linkIdx i j d).forget := by
  obtain ⟨es, hes⟩ : ∃ es, g.adjacency[i]? = some es :=
    ⟨_, List.getElem?_eq_getElem (by rwa [g.wf.adj_len])⟩
  have hother : ∀ es', g.adjacency[i]? = some es' → es' = es := fun es' h =>
    Option.some.inj (h.symm.trans hes)
  simp only [RawGraph.link, linkIdx, forget, dif_pos hj, hes, Option.map_some, Option.some.injEq]
  split
  · rename_i hany
    have hsame : g.adjacency.modify i (fun es => if es.any (fun e => e.toIdx = j) then es
        else es ++ [⟨i, j, d⟩]) = g.adjacency.modify i id :=
      modify_congr fun es' h => if_pos (hother es' h ▸ hany)
    rw [hsame, List.modify_id]
  · rename_i hnone
    exact congrArg (RawGraph.mk g.nodes · g.idToIndex)
      (modify_congr fun es' h => (if_neg (hother es' h ▸ hnone)).symm)

theorem nodes_linkIdx (d : Duration) : (g.linkIdx i j d).nodes = g.nodes := by
  rw [linkIdx]
  split <;> rfl

theorem idToIndex_linkIdx (d : Duration) : (g.linkIdx i j d).idToIndex = g.idToIndex := by
  rw [linkIdx]
  split <;> rfl

theorem addEdge_forget (g : AgentGraph F) (src dst : AgentId) (d : Duration) :
    g.forget.addEdge src dst d = some (g.addEdge src dst d).forget := by
  simp only [RawGraph.addEdge, addEdge, forget]
  cases hsrc : g.idToIndex.lookup src with
  | none => rfl
  | some i =>
    cases hdst : g.idToIndex.lookup dst with
    | none => rfl
    | some j => exact link_forget (lt_length_of_lookup hsrc) (lt_length_of_lookup hdst) d

theorem fullyConnect_forget (g : AgentGraph F) (d : Duration) :
    g.forget.fullyConnect d = some (g.fullyConnect d).forget := by
  refine foldlM_simulates (P := fun h : AgentGraph F => h.nodes.length = g.nodes.length)
    (fun g₁ i hi h₁ => ?_) rfl
  have hinner : ∀ g₂ : AgentGraph F, ∀ j ∈ List.range g.nodes.length,
      g₂.nodes.length = g.nodes.length →
      (if i ≠ j then g₂.forget.link i j d else some g₂.forget) =
        some (if i ≠ j then g₂.linkIdx i j d else g₂).forget ∧
      (if i ≠ j then g₂.linkIdx i j d else g₂).nodes.length = g.nodes.length := by
    intro g₂ j hj h₂
    have hi' := List.mem_range.mp hi
    have hj' := List.mem_range.mp hj
    split
    · exact ⟨link_forget (h₂ ▸ hi') (h₂ ▸ hj') d, by rw [nodes_linkIdx, h₂]⟩
    · exact ⟨rfl, h₂⟩
  exact ⟨foldlM_simulates hinner h₁, foldl_invariant (fun g₂ j hj h => (hinner g₂ j hj h).2) h₁⟩

/-- A change of the node of an identifier, when there is one. -/
theorem updateNamed_forget (g : AgentGraph F) (id : AgentId) (f : AgentNode F → AgentNode F)
    (hf : ∀ n, (f n).id = n.id) :
    (match g.forget.idToIndex.lookup id with
      | some idx => g.forget.updateNode idx f
      | none => some g.forget) =
    some (match g.idToIndex.lookup id with
      | some idx => g.modifyNode idx f hf
      | none => g).forget := by
  have hmap : g.forget.idToIndex = g.idToIndex := rfl
  rw [hmap]
  cases h : g.idToIndex.lookup id with
  | none => rfl
  | some i => exact updateNode_forget (lt_length_of_lookup h) f hf

theorem setAvailable_forget (g : AgentGraph F) (id : AgentId) :
    g.forget.setAvailable id = some (g.setAvailable id).forget :=
  updateNamed_forget g id (fun n => { n with available := true }) fun _ => rfl

theorem setUnavailable_forget (g : AgentGraph F) (id : AgentId) :
    g.forget.setUnavailable id = some (g.setUnavailable id).forget :=
  updateNamed_forget g id (fun n => { n with available := false }) fun _ => rfl

theorem addAgent_of_some {idx : ℕ} (h : g.idToIndex.lookup id = some idx)
    (capabilities : List (Capability F)) (trustScore : F) :
    g.addAgent id capabilities trustScore = (idx, g.modifyNode idx
      (fun n => { n with capabilities, trustScore, available := true }) fun _ => rfl) := by
  unfold addAgent
  split
  · rename_i idx' h'
    obtain rfl := Option.some.inj (h'.symm.trans h)
    rfl
  · rename_i hnone
    cases hnone.symm.trans h

theorem addAgent_of_none (h : g.idToIndex.lookup id = none)
    (capabilities : List (Capability F)) (trustScore : F) :
    g.addAgent id capabilities trustScore = (g.nodes.length,
      { nodes := g.nodes ++ [{ id, capabilities, available := true, trustScore }]
        adjacency := g.adjacency ++ [[]]
        idToIndex := g.idToIndex.insert id g.nodes.length
        wf := g.wf.push h }) := by
  unfold addAgent
  split
  · rename_i hsome
    cases hsome.symm.trans h
  · rfl

theorem addAgent_forget (g : AgentGraph F) (id : AgentId) (capabilities : List (Capability F))
    (trustScore : F) : g.forget.addAgent id capabilities trustScore =
      some ((g.addAgent id capabilities trustScore).1,
        (g.addAgent id capabilities trustScore).2.forget) := by
  have hmap : g.forget.idToIndex = g.idToIndex := rfl
  rw [RawGraph.addAgent, hmap]
  cases h : g.idToIndex.lookup id with
  | none =>
    rw [addAgent_of_none h]
    rfl
  | some idx =>
    rw [addAgent_of_some h]
    exact congrArg (Option.map (idx, ·)) (updateNode_forget (lt_length_of_lookup h)
      (fun n => { n with capabilities, trustScore, available := true }) fun _ => rfl)

/-- No operation panics, and each does what it does to the graph with its invariant. -/
theorem apply_forget (g : AgentGraph F) (op : GraphOp F) :
    g.forget.apply op = some (g.apply op).forget := by
  cases op with
  | addAgent id capabilities trustScore =>
    rw [RawGraph.apply, addAgent_forget]
    rfl
  | addEdge src dst d => exact addEdge_forget g src dst d
  | addBidiEdge a b d =>
    rw [RawGraph.apply, RawGraph.addBidiEdge, addEdge_forget]
    exact addEdge_forget _ b a d
  | fullyConnect d => exact fullyConnect_forget g d
  | setUnavailable id => exact setUnavailable_forget g id
  | setAvailable id => exact setAvailable_forget g id

theorem run_forget (ops : List (GraphOp F)) : RawGraph.run ops = some (run ops).forget := by
  change ops.foldlM RawGraph.apply (forget new) = some (ops.foldl apply new).forget
  exact foldlM_simulates (P := fun _ => True) (fun g op _ _ => ⟨apply_forget g op, trivial⟩) trivial

end Simulation

end AgentGraph

/-! ### What holds of every run -/

/-- The identifier that an operation adds. -/
def GraphOp.addedId : GraphOp F → Option AgentId
  | .addAgent id _ _ => some id
  | _ => none

namespace RawGraph

/-- There is an edge from one index to another. -/
def HasEdge (g : RawGraph F) (i j : ℕ) : Prop :=
  ∃ es : List Edge, g.adjacency[i]? = some es ∧ ∃ e ∈ es, e.toIdx = j

/-- The representation of the agents added so far. -/
structure Represents (g : RawGraph F) (ids : List AgentId) : Prop where
  same_length : g.adjacency.length = g.nodes.length
  indexed : ∀ id, id ∈ ids ↔ ∃ i, g.idToIndex.lookup id = some i
  named : ∀ id i, g.idToIndex.lookup id = some i → ∃ n, g.nodes[i]? = some n ∧ n.id = id
  injective : ∀ id id' i, g.idToIndex.lookup id = some i → g.idToIndex.lookup id' = some i →
    id = id'
  onto : ∀ i < g.nodes.length, ∃ id, g.idToIndex.lookup id = some i
  ends : ∀ (i : ℕ) (es : List Edge), g.adjacency[i]? = some es →
    ∀ e ∈ es, e.fromIdx = i ∧ e.toIdx < g.nodes.length
  simple : (g.adjacency.flatten.map fun e => (e.fromIdx, e.toIdx)).Nodup

/-- Indices stay assigned, and the edges of an index stay as they are, new ones behind them. -/
structure Kept (g g' : RawGraph F) : Prop where
  index : ∀ id i, g.idToIndex.lookup id = some i → g'.idToIndex.lookup id = some i
  edges : ∀ (i : ℕ) (es : List Edge), g.adjacency[i]? = some es →
    ∃ more, g'.adjacency[i]? = some (es ++ more)

namespace Kept
variable {g g' g'' : RawGraph F}

theorem of_eq (hindex : g'.idToIndex = g.idToIndex) (hadj : g'.adjacency = g.adjacency) :
    g.Kept g' where
  index _ _ h := hindex ▸ h
  edges _ es h := ⟨[], by rw [hadj, h, List.append_nil]⟩

theorem refl (g : RawGraph F) : g.Kept g := of_eq rfl rfl

theorem trans (h : g.Kept g') (h' : g'.Kept g'') : g.Kept g'' where
  index id i hi := h'.index id i (h.index id i hi)
  edges i es hes := by
    obtain ⟨more, hmore⟩ := h.edges i es hes
    obtain ⟨more', hmore'⟩ := h'.edges i _ hmore
    exact ⟨more ++ more', by rw [hmore', List.append_assoc]⟩

theorem hasEdge {i j : ℕ} (h : g.Kept g') (hedge : g.HasEdge i j) : g'.HasEdge i j := by
  obtain ⟨es, hes, e, he, hj⟩ := hedge
  obtain ⟨more, hmore⟩ := h.edges i es hes
  exact ⟨_, hmore, e, List.mem_append_left more he, hj⟩

end Kept

end RawGraph

namespace AgentGraph

section Steps
variable {g : AgentGraph F} {id : AgentId} {i j : ℕ} {ids : List AgentId}

/-- The invariant that a graph carries, as a statement about its collections. -/
theorem represents (h : ∀ id, id ∈ ids ↔ ∃ i, g.idToIndex.lookup id = some i) :
    g.forget.Represents ids where
  same_length := g.wf.adj_len
  indexed := h
  named id i hi := (g.wf.index_iff id i).mp hi
  injective id id' i hi hi' := by
    obtain ⟨n, hn, rfl⟩ := (g.wf.index_iff id i).mp hi
    obtain ⟨m, hm, rfl⟩ := (g.wf.index_iff id' i).mp hi'
    exact congrArg AgentNode.id (Option.some.inj (hn.symm.trans hm))
  onto i hi := ⟨_, (g.wf.index_iff _ i).mpr ⟨_, List.getElem?_eq_getElem hi, rfl⟩⟩
  ends := g.wf.edge_ends
  simple := by
    rw [List.map_flatten, List.nodup_flatten]
    constructor
    · intro l hl
      obtain ⟨es, hes, rfl⟩ := List.mem_map.mp hl
      obtain ⟨i, hi⟩ := List.mem_iff_getElem?.mp hes
      refine List.Nodup.of_map Prod.snd ?_
      rw [List.map_map]
      exact g.wf.edge_nodup i es hi
    · -- the source of an edge tells its list
      rw [List.pairwise_map, List.pairwise_iff_getElem]
      intro i j hi hj hij p hp hp'
      obtain ⟨e, he, rfl⟩ := List.mem_map.mp hp
      obtain ⟨e', he', heq⟩ := List.mem_map.mp hp'
      have hfrom := (g.wf.edge_ends i _ (List.getElem?_eq_getElem hi) e he).1
      have hfrom' := (g.wf.edge_ends j _ (List.getElem?_eq_getElem hj) e' he').1
      have hsame : e'.fromIdx = e.fromIdx := congrArg Prod.fst heq
      omega

theorem kept_linkIdx (d : Duration) : g.forget.Kept (g.linkIdx i j d).forget := by
  rw [linkIdx]
  split
  · refine ⟨fun _ _ h => h, fun k es hes => ?_⟩
    simp only [forget, List.getElem?_modify] at hes ⊢
    simp only [hes, Option.map_eq_map, Option.map_some]
    split
    · split
      · exact ⟨[], by rw [List.append_nil]⟩
      · exact ⟨_, rfl⟩
    · exact ⟨[], by rw [List.append_nil]⟩
  · exact RawGraph.Kept.refl g.forget

theorem hasEdge_linkIdx (hi : i < g.nodes.length) (hj : j < g.nodes.length) (d : Duration) :
    (g.linkIdx i j d).forget.HasEdge i j := by
  obtain ⟨es, hes⟩ : ∃ es, g.adjacency[i]? = some es :=
    ⟨_, List.getElem?_eq_getElem (by rwa [g.wf.adj_len])⟩
  have hget : (g.linkIdx i j d).adjacency[i]? =
      some (if es.any (fun e => e.toIdx = j) then es else es ++ [⟨i, j, d⟩]) := by
    rw [linkIdx, dif_pos hj, List.getElem?_modify_eq, hes]
    rfl
  by_cases hany : es.any (fun e => e.toIdx = j)
  · rw [if_pos hany] at hget
    obtain ⟨e, he, hej⟩ := List.any_eq_true.mp hany
    exact ⟨es, hget, e, he, of_decide_eq_true hej⟩
  · rw [if_neg hany] at hget
    exact ⟨_, hget, ⟨i, j, d⟩, List.mem_append_right _ List.mem_cons_self, rfl⟩

theorem kept_addEdge (src dst : AgentId) (d : Duration) :
    g.forget.Kept (g.addEdge src dst d).forget := by
  rw [addEdge]
  split
  · exact kept_linkIdx d
  · exact RawGraph.Kept.refl g.forget

theorem idToIndex_addEdge (src dst : AgentId) (d : Duration) :
    (g.addEdge src dst d).idToIndex = g.idToIndex := by
  rw [addEdge]
  split
  · exact idToIndex_linkIdx d
  · rfl

theorem kept_addAgent (capabilities : List (Capability F)) (trustScore : F) :
    g.forget.Kept (g.addAgent id capabilities trustScore).2.forget := by
  cases h : g.idToIndex.lookup id with
  | some idx =>
    rw [addAgent_of_some h]
    exact RawGraph.Kept.of_eq rfl rfl
  | none =>
    rw [addAgent_of_none h]
    refine ⟨fun id' i hi => ?_, fun i es hes => ⟨[], ?_⟩⟩
    · have hne : id' ≠ id := by
        rintro rfl
        cases h.symm.trans hi
      exact (AList.lookup_insert_ne hne).trans hi
    · rw [List.append_nil]
      exact (List.getElem?_append_left (List.getElem?_eq_some_iff.mp hes).1).trans hes

/-- One pass over the pairs of indices, in the order of the two loops. -/
theorem fullyConnect_invariant {P : AgentGraph F → Prop} (d : Duration)
    (hlink : ∀ g i j, P g → P (g.linkIdx i j d)) (h : P g) : P (g.fullyConnect d) := by
  refine foldl_invariant (fun g₁ i _ h₁ => foldl_invariant (fun g₂ j _ h₂ => ?_) h₁) h
  split
  · exact hlink g₂ i j h₂
  · exact h₂

/-- After the pass every pair of distinct indices has an edge. -/
theorem hasEdge_fullyConnect (hi : i < g.nodes.length) (hj : j < g.nodes.length) (hij : i ≠ j)
    (d : Duration) : (g.fullyConnect d).forget.HasEdge i j := by
  have hnodes : ∀ (g₁ : AgentGraph F) (k l : ℕ), g₁.nodes.length = g.nodes.length →
      (if k ≠ l then g₁.linkIdx k l d else g₁).nodes.length = g.nodes.length := by
    intro g₁ k l h₁
    split
    · rw [nodes_linkIdx, h₁]
    · exact h₁
  have hkeep : ∀ (g₁ : AgentGraph F) (k l : ℕ), g₁.forget.HasEdge i j →
      (if k ≠ l then g₁.linkIdx k l d else g₁).forget.HasEdge i j := by
    intro g₁ k l h₁
    split
    · exact (kept_linkIdx d).hasEdge h₁
    · exact h₁
  refine foldl_reaches (P := fun g₁ : AgentGraph F => g₁.nodes.length = g.nodes.length)
    (Q := fun g₁ => g₁.forget.HasEdge i j) (List.mem_range.mpr hi)
    (fun g₁ k _ h₁ => ?_) (fun g₁ h₁ => ?_) (fun g₁ k h₁ => ?_) rfl
  · exact foldl_invariant (fun g₂ l _ => hnodes g₂ k l) h₁
  · refine foldl_reaches (Q := fun g₁ => g₁.forget.HasEdge i j) (List.mem_range.mpr hj)
      (fun g₂ l _ => hnodes g₂ i l) (fun g₂ h₂ => ?_) (fun g₂ l => hkeep g₂ i l) h₁
    rw [if_pos hij]
    exact hasEdge_linkIdx (h₂ ▸ hi) (h₂ ▸ hj) d
  · exact foldl_invariant (fun g₂ l _ => hkeep g₂ k l) h₁


theorem kept_apply (g : AgentGraph F) (op : GraphOp F) : g.forget.Kept (g.apply op).forget := by
  cases op with
  | addAgent id capabilities trustScore => exact kept_addAgent capabilities trustScore
  | addEdge src dst d => exact kept_addEdge src dst d
  | addBidiEdge a b d => exact (kept_addEdge a b d).trans (kept_addEdge b a d)
  | fullyConnect d =>
    exact fullyConnect_invariant (P := fun g₁ => g.forget.Kept g₁.forget) d
      (fun _ _ _ h => h.trans (kept_linkIdx d)) (RawGraph.Kept.refl g.forget)
  | setUnavailable id =>
    rw [apply, setUnavailable]
    split
    · exact RawGraph.Kept.of_eq rfl rfl
    · exact RawGraph.Kept.refl g.forget
  | setAvailable id =>
    rw [apply, setAvailable]
    split
    · exact RawGraph.Kept.of_eq rfl rfl
    · exact RawGraph.Kept.refl g.forget

/-- Which identifiers have an index after an operation. -/
theorem indexed_apply (g : AgentGraph F) (op : GraphOp F) (id : AgentId) :
    (∃ i, (g.apply op).idToIndex.lookup id = some i) ↔
      op.addedId = some id ∨ ∃ i, g.idToIndex.lookup id = some i := by
  have hsame : (g.apply op).idToIndex = g.idToIndex → op.addedId = none →
      ((∃ i, (g.apply op).idToIndex.lookup id = some i) ↔
        op.addedId = some id ∨ ∃ i, g.idToIndex.lookup id = some i) := by
    intro hmap hadded
    rw [hmap, hadded]
    simp
  -- only `add_agent` touches the map, and it keeps the index of an identifier it knows
  cases op with
  | addAgent id' capabilities trustScore =>
    simp only [apply, GraphOp.addedId, Option.some.injEq]
    cases h : g.idToIndex.lookup id' with
    | some idx =>
      rw [addAgent_of_some h]
      constructor
      · exact Or.inr
      · rintro (rfl | hi)
        · exact ⟨idx, h⟩
        · exact hi
    | none =>
      rw [addAgent_of_none h]
      rcases eq_or_ne id id' with rfl | hne
      · exact iff_of_true ⟨_, AList.lookup_insert _⟩ (Or.inl rfl)
      · simp only [AList.lookup_insert_ne hne, hne.symm, false_or]
  | addEdge src dst d => exact hsame (idToIndex_addEdge src dst d) rfl
  | addBidiEdge a b d =>
    exact hsame ((idToIndex_addEdge b a d).trans (idToIndex_addEdge a b d)) rfl
  | fullyConnect d =>
    refine hsame ?_ rfl
    exact fullyConnect_invariant (P := fun g₁ => g₁.idToIndex = g.idToIndex) d
      (fun _ _ _ h => (idToIndex_linkIdx d).trans h) rfl
  | setUnavailable id' =>
    refine hsame ?_ rfl
    rw [apply, setUnavailable]
    split <;> rfl
  | setAvailable id' =>
    refine hsame ?_ rfl
    rw [apply, setAvailable]
    split <;> rfl

theorem run_append (ops ops' : List (GraphOp F)) :
    run (ops ++ ops') = ops'.foldl apply (run ops) := List.foldl_append

/-- The identifiers added so far are those with an index. -/
theorem indexed_run (ops : List (GraphOp F)) (id : AgentId) :
    id ∈ ops.filterMap GraphOp.addedId ↔ ∃ i, (run ops).idToIndex.lookup id = some i := by
  induction ops using List.reverseRecOn with
  | nil => simp [run, new]
  | append_singleton ops op ih =>
    rw [run_append, List.filterMap_append, List.mem_append, ih]
    refine Iff.trans ?_ (indexed_apply (run ops) op id).symm
    rw [or_comm]
    refine or_congr ?_ Iff.rfl
    cases h : op.addedId <;> simp [h, eq_comm]

/-- The graph after every run. -/
theorem graph_invariant (ops : List (GraphOp F)) : ∃ g, RawGraph.run ops = some g ∧
    g.Represents (ops.filterMap GraphOp.addedId) ∧
    (∀ pre post, ops = pre ++ post → ∃ g₀, RawGraph.run pre = some g₀ ∧ g₀.Kept g) ∧
    ∀ pre d, ops = pre ++ [.fullyConnect d] →
      ∀ i < g.nodes.length, ∀ j < g.nodes.length, i ≠ j → g.HasEdge i j := by
  refine ⟨_, run_forget ops, represents (indexed_run ops), ?_, ?_⟩
  · rintro pre post rfl
    refine ⟨_, run_forget pre, ?_⟩
    rw [run_append]
    exact foldl_invariant (P := fun g₁ => (run pre).forget.Kept g₁.forget)
      (fun g₁ op _ h => h.trans (kept_apply g₁ op)) (RawGraph.Kept.refl _)
  · rintro pre d rfl i hi j hj hij
    have hlast : run (pre ++ [.fullyConnect d]) = (run pre).fullyConnect d := run_append _ _
    have hlen : ((run pre).fullyConnect d).nodes.length = (run pre).nodes.length :=
      fullyConnect_invariant (P := fun g₁ => g₁.nodes.length = (run pre).nodes.length) d
        (fun _ _ _ h => by rw [nodes_linkIdx, h]) rfl
    rw [hlast] at hi hj ⊢
    exact hasEdge_fullyConnect (hlen ▸ hi) (hlen ▸ hj) hij d

end Steps

end AgentGraph

end ATP
