import AgentTransport.Routing.Graph
import AgentTransport.Routing.Cost
import AgentTransport.Lib.PredWalk

/-! Modified Bellman-Ford with multi-objective optimization: one run per weight vector and source,
    each contributing the path to its cheapest destination, plus every capable agent by itself.

    A run works on the dense local indices of the capable agents and translates its path back:

        agents ──globalToLocal──▶ dist, pred ──relax──▶ best dest ──walk──▶ path ──▶ agents -/

namespace ATP
open F64 Collections
variable {F : Type} [F64 F]

/-- Result of a single Bellman-Ford run under specific weights. -/
structure BellmanFordResult (F : Type) where
  weights : CostWeights F
  path : List ℕ
  scalarCost : F
  metrics : RouteMetrics F

/-- The arrays of a run over `k` local indices. The distance `none` is `f64::INFINITY`. -/
structure Distances (F : Type) (k : ℕ) where
  dist : Vector (Option F) k
  pred : Vector (Option (Fin k)) k

/-- `x < d`, where `d` may be infinite. -/
def ltDist (x : F) : Option F → Bool
  | none => ltInfinity x
  | some d => decide (x < d)

/-- Map global indices to local dense indices. -/
def globalToLocal (agents : List ℕ) : HashMap ℕ (Fin agents.length) :=
  (List.finRange agents.length).foldl (fun m l => m.insert (agents.get l) l) ∅

namespace Distances
variable {k : ℕ}

def distAt (d : Distances F k) (l : Fin k) : Option F := d.dist[l]

def predAt (d : Distances F k) (l : Fin k) : Option (Fin k) := d.pred[l]

/-- All distances infinite but the source's. -/
def init (source : Fin k) : Distances F k :=
  ⟨(Vector.replicate k none).set source (some 0), Vector.replicate k none⟩

/-- Relax one edge out of the local node `u`; the flag says whether anything was updated. -/
def relaxEdge (g : AgentGraph F) (toLocal : HashMap ℕ (Fin k)) (t : TaskType)
    (w : CostWeights F) (cm : CostModel F) (u : Fin k) (st : Distances F k × Bool) (e : Edge) :
    Distances F k × Bool :=
  match toLocal.lookup e.toIdx, (g.node e.toIdx).bind (·.capabilityFor t), st.1.distAt u with
  | some v, some cap, some du =>
    let newDist := du + cm.scalarEdgeCost cap e.transferLatency w
    if ltDist newDist (st.1.distAt v) then
      (⟨st.1.dist.set v (some newDist), st.1.pred.set v (some u)⟩, true)
    else st
  | _, _, _ => st

/-- Relax every edge out of every agent reached so far. -/
def relaxAll (g : AgentGraph F) (agents : List ℕ) (toLocal : HashMap ℕ (Fin k)) (t : TaskType)
    (w : CostWeights F) (cm : CostModel F) (d : Distances F k) : Distances F k × Bool :=
  agents.foldl (fun st uGlobal =>
    match toLocal.lookup uGlobal with
    | none => st
    | some u =>
      if (st.1.distAt u).isNone then st
      else (g.edgesFrom uGlobal).foldl (relaxEdge g toLocal t w cm u) st) (d, false)

/-- At most `n` rounds of relaxation, fewer when a round updates nothing. -/
def relaxRounds (g : AgentGraph F) (agents : List ℕ) (toLocal : HashMap ℕ (Fin k))
    (t : TaskType) (w : CostWeights F) (cm : CostModel F) : ℕ → Distances F k → Distances F k
  | 0, d => d
  | n + 1, d =>
    match relaxAll g agents toLocal t w cm d with
    | (d', true) => relaxRounds g agents toLocal t w cm n d'
    | (d', false) => d'

/-- The better of the destination found so far and the next one. -/
def keepCloser (d : Distances F k) (source : Fin k) (best : Option (Fin k × F)) (l : Fin k) :
    Option (Fin k × F) :=
  match d.distAt l with
  | none => best
  | some x => if l ≠ source && ltDist x (best.map (·.2)) then some (l, x) else best

/-- The cheapest reachable destination other than the source, the first among equals. -/
def bestDest (d : Distances F k) (source : Fin k) : Option (Fin k × F) :=
  (List.finRange k).foldl (d.keepCloser source) none

/-- The local path from the source to a destination, read off the predecessors. -/
def pathTo (d : Distances F k) (source dest : Fin k) : Option (List (Fin k)) :=
  match PredWalk.walk d.predAt source k k [dest] dest with
  | none => none
  | some path =>
    if path.getLast? = some source then some path.reverse
    else if (d.distAt dest).any ltInfinity then some (path ++ [source]).reverse
    else none

end Distances

/-- Shortest path from one source to the best other agent under the given weights. -/
def bellmanFordSingle (g : AgentGraph F) (agents : List ℕ) (t : TaskType) (source : ℕ)
    (w : CostWeights F) (cm : CostModel F) : Option (List ℕ × F) :=
  let toLocal := globalToLocal agents
  match toLocal.lookup source with
  | none => none
  | some sourceLocal =>
    let d := Distances.relaxRounds g agents toLocal t w cm (agents.length - 1)
      (Distances.init sourceLocal)
    match d.bestDest sourceLocal with
    | none => none
    | some (dest, bestCost) =>
      (d.pathTo sourceLocal dest).map fun path => (path.map agents.get, bestCost)

/-- The capabilities along a path; `none` when a node is missing or not capable. -/
def pathCapabilities (g : AgentGraph F) (t : TaskType) (path : List ℕ) :
    Option (List (Capability F)) :=
  path.mapM fun idx => (g.node idx).bind (·.capabilityFor t)

/-- The transfer latencies along a path. -/
def pathTransfers (g : AgentGraph F) : List ℕ → List Duration
  | prev :: idx :: rest =>
    (g.transferLatency prev idx).getD CostModel.defaultTransferLatency ::
      pathTransfers g (idx :: rest)
  | _ => []

/-- Full route metrics for a path through the graph. -/
def computePathMetrics (g : AgentGraph F) (path : List ℕ) (t : TaskType) :
    Option (RouteMetrics F) :=
  if path.isEmpty then none
  else (pathCapabilities g t path).map fun caps =>
    CostModel.computeRouteMetrics caps (pathTransfers g path)

/-- The route of one agent by itself, once for each weight vector. -/
def singleAgentResults (cm : CostModel F) (idx : ℕ) (cap : Capability F) :
    List (BellmanFordResult F) :=
  let metrics := CostModel.computeRouteMetrics [cap] []
  CostWeights.paretoSampleVectors.map fun w => ⟨w, [idx], cm.scalarRouteCost metrics w, metrics⟩

/-- The result of one run, kept when its path has at least two agents. -/
def multiAgentResult (g : AgentGraph F) (agents : List ℕ) (t : TaskType) (cm : CostModel F)
    (w : CostWeights F) (source : ℕ) : Option (BellmanFordResult F) :=
  match bellmanFordSingle g agents t source w cm with
  | none => none
  | some (path, scalarCost) =>
    if 2 ≤ path.length then
      (computePathMetrics g path t).map fun metrics => ⟨w, path, scalarCost, metrics⟩
    else none

/-- The route of one agent by itself, if the agent is capable. -/
def soloResults (g : AgentGraph F) (t : TaskType) (cm : CostModel F) (idx : ℕ) :
    List (BellmanFordResult F) :=
  match (g.node idx).bind (·.capabilityFor t) with
  | none => []
  | some cap => singleAgentResults cm idx cap

/-- One run for each weight vector and source, then each agent by itself. -/
def exploreAll (g : AgentGraph F) (agents : List ℕ) (t : TaskType) (cm : CostModel F) :
    List (BellmanFordResult F) :=
  (CostWeights.paretoSampleVectors.flatMap fun w =>
    agents.filterMap (multiAgentResult g agents t cm w)) ++ agents.flatMap (soloResults g t cm)

/-- Run the multi-objective Bellman-Ford algorithm. -/
def multiObjectiveBellmanFord (g : AgentGraph F) (t : TaskType) (minTrust : F)
    (cm : CostModel F) : Except RoutingError (List (BellmanFordResult F)) :=
  match g.capableAgents t minTrust with
  | [] => .error .noFeasibleRoute
  | [idx] =>
    match g.node idx with
    | none => .error .emptyGraph
    | some node =>
      match node.capabilityFor t with
      | none => .error .noFeasibleRoute
      | some cap => .ok (singleAgentResults cm idx cap)
  | agents =>
    let results := exploreAll g agents t cm
    if results.isEmpty then .error .noFeasibleRoute else .ok results

/-- Convert a path of node indices to agents. -/
def pathToAgentIds (g : AgentGraph F) (path : List ℕ) : List AgentId := path.filterMap g.agentId

/-! ### Paths of a run are simple -/

omit [F64 F] in
theorem nodup_map_get {agents : List ℕ} (h : agents.Nodup) {path : List (Fin agents.length)}
    (hp : path.Nodup) : (path.map agents.get).Nodup :=
  hp.map (List.nodup_iff_injective_get.mp h)

/-- The source ends a walk that visits it. -/
theorem source_last {α : Type} {pred : α → Option α} {source c : α} {l : List α}
    (h : PredWalk.Exits pred source c l) (hc : c ≠ source) (hs : source ∈ l) :
    (c :: l).getLast? = some source := by
  induction h with
  | stop _ => simp at hs
  | hit _ => rfl
  | push _ hne _ ih =>
    have hs' := (List.mem_cons.mp hs).resolve_left (fun h => hne h.symm)
    rw [List.getLast?_cons_cons]
    exact ih hne hs'

namespace Distances
variable {k : ℕ}

theorem bestDest_ne_source {d : Distances F k} {source : Fin k} {best : Fin k × F}
    (h : d.bestDest source = some best) : best.1 ≠ source := by
  have hfold : ∀ (ls : List (Fin k)) (b : Option (Fin k × F)), (∀ p, b = some p → p.1 ≠ source) →
      ∀ p, ls.foldl (d.keepCloser source) b = some p → p.1 ≠ source := by
    intro ls
    induction ls with
    | nil => intro b hb p hp; exact hb p hp
    | cons l ls ih =>
      intro b hb p hp
      rw [List.foldl_cons] at hp
      refine ih _ ?_ p hp
      intro q hq
      unfold keepCloser at hq
      cases hd : d.distAt l with
      | none => rw [hd] at hq; exact hb q hq
      | some x =>
        simp only [hd] at hq
        by_cases hl : (l ≠ source && ltDist x (b.map (·.2))) = true
        · rw [if_pos hl] at hq
          obtain rfl := Option.some.inj hq
          simp only [Bool.and_eq_true, decide_eq_true_eq] at hl
          exact hl.1
        · rw [if_neg hl] at hq; exact hb q hq
  exact hfold _ none (by simp) best h

theorem pathTo_nodup {d : Distances F k} {source dest : Fin k} (hne : dest ≠ source)
    {path : List (Fin k)} (h : d.pathTo source dest = some path) : path.Nodup := by
  unfold pathTo at h
  cases hw : PredWalk.walk d.predAt source k k [dest] dest with
  | none => simp [hw] at h
  | some out =>
    obtain ⟨l, hl, rfl⟩ := PredWalk.walk_exits k k [dest] dest out hw
    have hnd : ([dest] ++ l).Nodup := hl.nodup hne
    simp only [hw] at h
    by_cases hlast : ([dest] ++ l).getLast? = some source
    · rw [if_pos hlast] at h
      obtain rfl := Option.some.inj h
      exact List.nodup_reverse.mpr hnd
    · rw [if_neg hlast] at h
      by_cases hfin : (d.distAt dest).any ltInfinity = true
      · rw [if_pos hfin] at h
        obtain rfl := Option.some.inj h
        refine List.nodup_reverse.mpr (List.nodup_append.mpr ⟨hnd, by simp, ?_⟩)
        rintro a ha b hb rfl
        obtain rfl := List.mem_singleton.mp hb
        refine hlast (source_last hl hne ?_)
        exact (List.mem_cons.mp ha).resolve_left hne.symm
      · rw [if_neg hfin] at h; simp at h

end Distances

theorem bellmanFordSingle_path {g : AgentGraph F} {agents : List ℕ} {t : TaskType} {source : ℕ}
    {w : CostWeights F} {cm : CostModel F} {path : List ℕ} {c : F} (hnd : agents.Nodup)
    (h : bellmanFordSingle g agents t source w cm = some (path, c)) :
    path.Nodup ∧ ∀ i ∈ path, i ∈ agents := by
  unfold bellmanFordSingle at h
  cases hs : (globalToLocal agents).lookup source with
  | none => simp [hs] at h
  | some s =>
    simp only [hs] at h
    split at h
    · simp at h
    · rename_i dest best hbest
      obtain ⟨p, hp, heq⟩ := Option.map_eq_some_iff.mp h
      obtain rfl := (Prod.mk.injEq .. ▸ heq).1
      refine ⟨nodup_map_get hnd (Distances.pathTo_nodup (Distances.bestDest_ne_source hbest) hp),
        ?_⟩
      intro i hi
      obtain ⟨l, _, rfl⟩ := List.mem_map.mp hi
      exact List.get_mem agents l

/-! ### What the candidates are -/

/-- A candidate route is a simple path through capable agents, with the metrics of that path. -/
structure BellmanFordResult.Sound (g : AgentGraph F) (t : TaskType) (minTrust : F)
    (r : BellmanFordResult F) : Prop where
  nonempty : r.path ≠ []
  nodup : r.path.Nodup
  capable : ∀ i ∈ r.path, i ∈ g.capableAgents t minTrust
  metrics : computePathMetrics g r.path t = some r.metrics

omit [F64 F] in
theorem pathCapabilities_map {g : AgentGraph F} {t : TaskType} : ∀ {path : List ℕ}
    {caps : List (Capability F)}, pathCapabilities g t path = some caps →
      path.map (fun i => (g.node i).bind (·.capabilityFor t)) = caps.map some
  | [], caps, h => by
    obtain rfl : [] = caps := by simpa [pathCapabilities] using h
    rfl
  | i :: path, caps, h => by
    simp only [pathCapabilities, List.mapM_cons, Option.bind_eq_bind, Option.bind_eq_some_iff,
      Option.pure_def, Option.some.injEq] at h
    obtain ⟨cap, ⟨n, hn, hcap⟩, caps', hrest, rfl⟩ := h
    rw [List.map_cons, List.map_cons, hn, Option.bind_some, hcap]
    exact congrArg _ (pathCapabilities_map (show pathCapabilities g t path = some caps' from hrest))

theorem computePathMetrics_eq_some {g : AgentGraph F} {t : TaskType} {path : List ℕ}
    {m : RouteMetrics F} (h : computePathMetrics g path t = some m) : path ≠ [] ∧
      ∃ caps, path.map (fun i => (g.node i).bind (·.capabilityFor t)) = caps.map some ∧
        m = CostModel.computeRouteMetrics caps (pathTransfers g path) := by
  unfold computePathMetrics at h
  split at h
  · simp at h
  · rename_i hne
    obtain ⟨caps, hcaps, rfl⟩ := Option.map_eq_some_iff.mp h
    exact ⟨by simpa using hne, caps, pathCapabilities_map hcaps, rfl⟩

theorem computePathMetrics_single {g : AgentGraph F} {t : TaskType} {i : ℕ} {cap : Capability F}
    (h : (g.node i).bind (·.capabilityFor t) = some cap) :
    computePathMetrics g [i] t = some (CostModel.computeRouteMetrics [cap] []) := by
  simp [computePathMetrics, pathCapabilities, pathTransfers, h]

theorem capability_of_capable {g : AgentGraph F} {t : TaskType} {minTrust : F} {i : ℕ}
    (h : i ∈ g.capableAgents t minTrust) :
    ∃ cap, (g.node i).bind (·.capabilityFor t) = some cap := by
  obtain ⟨n, hn, hs⟩ := AgentGraph.mem_capableAgents.mp h
  obtain ⟨cap, hcap⟩ := Option.isSome_iff_exists.mp hs.capable
  exact ⟨cap, by rw [hn]; exact hcap⟩

theorem singleAgentResults_sound {g : AgentGraph F} {t : TaskType} {minTrust : F}
    {cm : CostModel F} {i : ℕ} {cap : Capability F} (hi : i ∈ g.capableAgents t minTrust)
    (hcap : (g.node i).bind (·.capabilityFor t) = some cap) :
    ∀ r ∈ singleAgentResults cm i cap, r.Sound g t minTrust := by
  intro r hr
  obtain ⟨w, _, rfl⟩ := List.mem_map.mp hr
  exact ⟨by simp, by simp, by simpa using hi, computePathMetrics_single hcap⟩

theorem exists_singleAgentResult (cm : CostModel F) (i : ℕ) (cap : Capability F) :
    ∃ r ∈ singleAgentResults cm i cap, r.path = [i] := by
  refine ⟨_, List.mem_map.mpr ⟨CostWeights.paretoSampleVectors.head (by simp
    [CostWeights.paretoSampleVectors]), List.head_mem _, rfl⟩, rfl⟩

theorem multiAgentResult_sound {g : AgentGraph F} {t : TaskType} {minTrust : F} {cm : CostModel F}
    {w : CostWeights F} {source : ℕ} {r : BellmanFordResult F}
    (h : multiAgentResult g (g.capableAgents t minTrust) t cm w source = some r) :
    r.Sound g t minTrust := by
  unfold multiAgentResult at h
  split at h
  · simp at h
  · rename_i path c hbf
    by_cases hlen : 2 ≤ path.length
    · rw [if_pos hlen] at h
      obtain ⟨m, hm, rfl⟩ := Option.map_eq_some_iff.mp h
      obtain ⟨hnd, hmem⟩ := bellmanFordSingle_path (g.nodup_capableAgents t minTrust) hbf
      refine ⟨?_, hnd, hmem, hm⟩
      rintro rfl
      simp at hlen
    · rw [if_neg hlen] at h; simp at h

theorem exploreAll_sound {g : AgentGraph F} {t : TaskType} {minTrust : F} {cm : CostModel F} :
    ∀ r ∈ exploreAll g (g.capableAgents t minTrust) t cm, r.Sound g t minTrust := by
  intro r hr
  rcases List.mem_append.mp hr with hr | hr
  · obtain ⟨w, _, hr⟩ := List.mem_flatMap.mp hr
    obtain ⟨source, _, hr⟩ := List.mem_filterMap.mp hr
    exact multiAgentResult_sound hr
  · obtain ⟨i, hi, hr⟩ := List.mem_flatMap.mp hr
    obtain ⟨cap, hcap⟩ := capability_of_capable hi
    rw [soloResults, hcap] at hr
    exact singleAgentResults_sound hi hcap r hr

theorem exists_solo_mem_exploreAll {g : AgentGraph F} {t : TaskType} {minTrust : F}
    {cm : CostModel F} {i : ℕ} (hi : i ∈ g.capableAgents t minTrust) :
    ∃ r ∈ exploreAll g (g.capableAgents t minTrust) t cm, r.path = [i] := by
  obtain ⟨cap, hcap⟩ := capability_of_capable hi
  obtain ⟨r, hr, hp⟩ := exists_singleAgentResult cm i cap
  refine ⟨r, List.mem_append_right _ (List.mem_flatMap.mpr ⟨i, hi, ?_⟩), hp⟩
  rw [soloResults, hcap]
  exact hr

/-- An exploration succeeds exactly when there is a capable agent. It then holds sound candidates
    only, and every capable agent by itself is among them. -/
theorem multiObjective_spec (g : AgentGraph F) (t : TaskType) (minTrust : F) (cm : CostModel F) :
    (g.capableAgents t minTrust = [] ∧
      multiObjectiveBellmanFord g t minTrust cm = .error .noFeasibleRoute) ∨
    ∃ results, multiObjectiveBellmanFord g t minTrust cm = .ok results ∧
      g.capableAgents t minTrust ≠ [] ∧ (∀ r ∈ results, r.Sound g t minTrust) ∧
      ∀ i ∈ g.capableAgents t minTrust, ∃ r ∈ results, r.path = [i] := by
  have hsound := @exploreAll_sound F _ g t minTrust cm
  have hsolo := @exists_solo_mem_exploreAll F _ g t minTrust cm
  have hone := @singleAgentResults_sound F _ g t minTrust cm
  have hcapable := @capability_of_capable F _ g t minTrust
  unfold multiObjectiveBellmanFord
  generalize g.capableAgents t minTrust = agents at hsound hsolo hone hcapable ⊢
  rcases agents with _ | ⟨i, _ | ⟨j, rest⟩⟩
  · exact Or.inl ⟨rfl, rfl⟩
  · -- one capable agent
    right
    obtain ⟨cap, hcap⟩ := hcapable List.mem_cons_self
    obtain ⟨n, hn, hc⟩ := Option.bind_eq_some_iff.mp hcap
    refine ⟨singleAgentResults cm i cap, by simp only [hn, hc], by simp,
      hone List.mem_cons_self hcap, ?_⟩
    intro i' hi'
    obtain rfl := List.mem_singleton.mp hi'
    exact exists_singleAgentResult cm i' cap
  · -- several: the runs and the agents by themselves
    right
    obtain ⟨r₀, hr₀, _⟩ := hsolo (List.mem_cons_self (a := i))
    have hne : exploreAll g (i :: j :: rest) t cm ≠ [] := List.ne_nil_of_mem hr₀
    refine ⟨exploreAll g (i :: j :: rest) t cm, ?_, by simp, hsound, fun i hi => hsolo hi⟩
    simp [hne]

end ATP
