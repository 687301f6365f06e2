import AgentTransport.Routing.Feasibility
import AgentTransport.Routing.Bounded

/-! Route discovery with durations of their actual size, so that a call returns a route, returns an
    error or panics. A pattern that panics takes `find_routes` with it, and `find_route` only when
    its gate is open:

        find_routes      panics when some pattern does
        find_route       panics only when a pattern that it tries does

    Relaxing a request may admit an agent that makes a pattern panic; with the same agents it
    closes gates, so that nothing new is tried. -/

namespace ATP
open F64 Collections
variable {F : Type} [F64 F]

namespace Bounded

/-- What a pattern other than the pipeline selects from the capable agents. -/
def patternSelection (g : AgentGraph F) (agents : List (AgentInfo F)) :
    RoutingPattern → Option (Option (Selection F))
  | .draftRefine => draftRefineSelection g agents
  | .parallelMerge => redundantSelection (sortedByQuality agents) 3 (Duration.millis 10)
  | .cascade => cascadeSelection g agents (lit (7 / 10))
  | .ensemble => redundantSelection ((sortedByQuality agents).insertionSort qualityThenTrust) 3
      (Duration.millis 5)
  | .pipeline => some none

omit [F64 F] in
theorem attempt_eq_none {gate : Bool} {route next : Option (Except RoutingError (Route F))}
    (h : attempt gate route next = none) : gate = true ∧ route = none ∨ next = none := by
  cases gate with
  | false => exact Or.inr h
  | true =>
    cases route with
    | none => exact Or.inl ⟨rfl, rfl⟩
    | some x =>
      cases x with
      | ok r => cases h
      | error e => exact Or.inr h

section Panics
variable {g : AgentGraph F} {t : TaskType} {cm : CostModel F} {qos : QoSConstraints F}

/-- Trying agents one after the other panics with one of them. -/
theorem cheapestSingle_eq_none {ttl : Duration} {stamp : Stamp} : ∀ {agents : List (AgentInfo F)},
    cheapestSingle qos ttl stamp agents = none →
      ∃ a ∈ agents, computeRouteMetrics [a.capability] [] = none
  | a :: rest, h => by
    rw [cheapestSingle] at h
    cases hm : computeRouteMetrics [a.capability] [] with
    | none => exact ⟨a, List.mem_cons_self, hm⟩
    | some m =>
      simp only [hm, Option.bind_eq_bind, Option.bind_some] at h
      split at h
      · cases h
      · obtain ⟨b, hb, hm⟩ := cheapestSingle_eq_none h
        exact ⟨b, List.mem_cons_of_mem _ hb, hm⟩

/-- A capable agent whose own metrics panic makes the exploration panic. -/
theorem multiObjective_eq_none_of_solo {minTrust : F} {a : AgentInfo F}
    (ha : a ∈ extractAgents g t minTrust) (h : computeRouteMetrics [a.capability] [] = none) :
    multiObjectiveBellmanFord g t cm minTrust = none := by
  obtain ⟨n, hn, -, hcap⟩ := node_of_mem_extractAgents ha
  have hidx : a.index ∈ g.capableAgents t minTrust := (mem_extractAgents.mp ha).1
  have hsingle : singleAgentResults cm a.index a.capability = none := by
    rw [singleAgentResults, h]
    rfl
  have hsolo : soloResults g t cm a.index = none := by
    simp only [soloResults, hn, Option.bind_some, hcap]
    exact hsingle
  have hall : exploreAll g t cm (g.capableAgents t minTrust) = none := by
    have hsolos : (g.capableAgents t minTrust).mapM (soloResults g t cm) = none :=
      OrPanic.mapM_eq_none.mpr ⟨a.index, hidx, hsolo⟩
    simp only [exploreAll, hsolos, Option.bind_eq_bind, Option.bind_eq_none_iff]
    exact fun _ _ _ h => by cases h
  -- no agent, one agent, several: the agent by itself is evaluated in the last two
  unfold multiObjectiveBellmanFord
  match hagents : g.capableAgents t minTrust with
  | [] =>
    rw [hagents] at hidx
    cases hidx
  | [idx] =>
    rw [hagents, List.mem_singleton] at hidx
    subst hidx
    simp only [hn, hcap, hsingle, Option.map_none]
  | i :: j :: rest =>
    rw [hagents] at hall
    simp only [hall, Option.bind_eq_bind, Option.bind_none]

/-- The automatic selection panics with a pattern whose gate is open, or with an agent. -/
theorem autoSelectPattern_eq_none {ttl : Duration} {stamp : Stamp}
    (h : autoSelectPattern g t qos ttl stamp = none) :
    (∃ pattern, autoTries (extractAgents g t qos.minTrust) qos pattern = true ∧
      patternSelection g (extractAgents g t qos.minTrust) pattern = none) ∨
    ∃ a ∈ extractAgents g t qos.minTrust, computeRouteMetrics [a.capability] [] = none := by
  simp only [autoSelectPattern] at h
  split at h
  · cases h
  · rcases attempt_eq_none h with ⟨hg, h⟩ | h
    · exact Or.inl ⟨.cascade, hg, Option.map_eq_none_iff.mp h⟩
    rcases attempt_eq_none h with ⟨hg, h⟩ | h
    · exact Or.inl ⟨.draftRefine, hg, Option.map_eq_none_iff.mp h⟩
    rcases attempt_eq_none h with ⟨hg, h⟩ | h
    · exact Or.inl ⟨.ensemble, hg, Option.map_eq_none_iff.mp h⟩
    rcases attempt_eq_none h with ⟨hg, h⟩ | h
    · exact Or.inl ⟨.parallelMerge, hg, Option.map_eq_none_iff.mp h⟩
    · obtain ⟨a, ha, hm⟩ := cheapestSingle_eq_none h
      exact Or.inr ⟨a, (sortAsc_perm _ _).mem_iff.mp ha, hm⟩

end Panics

/-! ### Relaxing a request -/

/-- A call and the same call for a weaker request: where the first comes to a route of a kept kind
    the second comes to a route, and where the first comes to none the second does not panic. -/
structure Relaxed (kept : Route F → Prop) (x x' : Option (Except RoutingError (Route F))) :
    Prop where
  serves : ∀ r, x = some (.ok r) → kept r → ∃ r', x' = some (.ok r')
  returns : ∀ e, x = some (.error e) → x'.isSome

section Relaxed
variable {kept : Route F → Prop} {gate gate' : Bool}
  {route route' next next' : Option (Except RoutingError (Route F))}

omit [F64 F] in
theorem Relaxed.panic : Relaxed kept none route' where
  serves _ h := by cases h
  returns _ h := by cases h

omit [F64 F] in
/-- Nothing tried first keeps what follows from serving, unless it panics. -/
theorem attempt_serves {r : Route F} (hroute : gate' = true → route'.isSome)
    (hnext : next' = some (.ok r)) : ∃ r', attempt gate' route' next' = some (.ok r') := by
  cases gate' with
  | false => exact ⟨r, hnext⟩
  | true =>
    obtain ⟨x, rfl⟩ := Option.isSome_iff_exists.mp (hroute rfl)
    cases x with
    | ok r' => exact ⟨r', rfl⟩
    | error e => exact ⟨r, hnext⟩

omit [F64 F] in
theorem attempt_returns (hroute : gate' = true → route'.isSome) (hnext : next'.isSome) :
    (attempt gate' route' next').isSome := by
  cases gate' with
  | false => exact hnext
  | true =>
    obtain ⟨x, rfl⟩ := Option.isSome_iff_exists.mp (hroute rfl)
    cases x with
    | ok r' => rfl
    | error e => exact hnext

omit [F64 F] in
/-- A gate that only closes, and stays open for what is kept, keeps the relation. -/
theorem Relaxed.attempt (hgate : gate' = true → gate = true)
    (hopen : ∀ r, route = some (.ok r) → kept r → gate' = true) (hroute : Relaxed kept route route')
    (hnext : Relaxed kept next next') :
    Relaxed kept (attempt gate route next) (Bounded.attempt gate' route' next') := by
  cases gate with
  | false =>
    obtain rfl : gate' = false := by
      cases gate' with
      | false => rfl
      | true => exact absurd (hgate rfl) (by decide)
    exact hnext
  -- an open gate: the pattern decides, and the next one only where it finds no route
  | true =>
    cases hx : route with
    | none => exact .panic
    | some x =>
      cases x with
      | ok r₀ =>
        refine ⟨fun r h hk => ?_, fun e h => (by cases h)⟩
        obtain rfl : r₀ = r := by
          cases h
          rfl
        obtain ⟨r', hr'⟩ := hroute.serves r₀ hx hk
        rw [hopen r₀ hx hk, hr']
        exact ⟨r', rfl⟩
      | error e₀ =>
        have hret : gate' = true → route'.isSome := fun _ => hroute.returns e₀ hx
        refine ⟨fun r h hk => ?_, fun e h => attempt_returns hret (hnext.returns e h)⟩
        obtain ⟨r', hr'⟩ := hnext.serves r h hk
        exact attempt_serves hret hr'

variable {q q' : QoSConstraints F} {ttl ttl' : Duration} {stamp stamp' : Stamp}

section Order
variable [OrderedF64 F]

/-- The same selection, checked against a weaker request. -/
theorem relaxed_checkedRoute (hq : q'.AtMostAsStrict q) (pattern : RoutingPattern)
    (selection : Option (Option (Selection F))) :
    Relaxed kept (selection.map fun s => checkedRoute pattern s q ttl stamp)
      (selection.map fun s => checkedRoute pattern s q' ttl' stamp') := by
  cases selection with
  | none => exact .panic
  | some s =>
    refine ⟨fun r h _ => ?_, fun e _ => rfl⟩
    obtain ⟨sel, hsel, hm⟩ := checkedRoute_ok_iff.mp ⟨r, Option.some.inj h⟩
    have hserved : ∃ r', checkedRoute pattern s q' ttl' stamp' = .ok r' :=
      checkedRoute_ok_iff.mpr ⟨sel, hsel, hm.relaxed hq⟩
    exact hserved.imp fun r' hr' => congrArg some hr'

/-- A weaker request finds its agent no later. -/
theorem relaxed_cheapestSingle (hq : q'.AtMostAsStrict q) : ∀ agents : List (AgentInfo F),
    Relaxed kept (cheapestSingle q ttl stamp agents) (cheapestSingle q' ttl' stamp' agents)
  | [] => ⟨fun r h => (by cases h), fun e _ => rfl⟩
  | a :: rest => by
    have ih := relaxed_cheapestSingle hq rest
    rw [cheapestSingle, cheapestSingle]
    cases computeRouteMetrics [a.capability] [] with
    | none => exact .panic
    | some m =>
      simp only [Option.bind_eq_bind, Option.bind_some]
      by_cases hm' : CostModel.satisfiesConstraints m q' = true
      · rw [if_pos hm']
        exact ⟨fun r _ _ => ⟨_, rfl⟩, fun e _ => rfl⟩
      · have hm : ¬ CostModel.satisfiesConstraints m q = true := fun hm =>
          hm' (satisfiesConstraints_iff.mpr
            ((satisfiesConstraints_iff.mp hm).relaxed hq))
        rw [if_neg hm', if_neg hm]
        exact ih

end Order
end Relaxed
end Bounded

namespace EconomicRouter
variable {router : EconomicRouter F} {t : TaskType} {qos : QoSConstraints F}

/-! ### Which calls panic -/

/-- A pattern panics: its selection, or the exploration, adds up more than the longest duration. -/
def Panics (router : EconomicRouter F) (t : TaskType) (minTrust : F) : RoutingPattern → Prop
  | .pipeline =>
    Bounded.multiObjectiveBellmanFord router.graph t router.costModel minTrust = none
  | pattern =>
    Bounded.patternSelection router.graph (extractAgents router.graph t minTrust) pattern = none

theorem tryPattern_eq_none_iff {hs : RandomState (BellmanFordResult F)} {pattern : RoutingPattern}
    {stamp : Stamp} : router.boundedTryPattern hs t qos pattern stamp = none ↔
      router.Panics t qos.minTrust pattern := by
  cases pattern with
  | pipeline =>
    exact (Option.map_eq_none_iff (f := _)).trans (Option.map_eq_none_iff (f := _))
  | draftRefine => exact Option.map_eq_none_iff
  | parallelMerge => exact Option.map_eq_none_iff
  | cascade => exact Option.map_eq_none_iff
  | ensemble => exact Option.map_eq_none_iff

theorem collectPatternRoutes_eq_none_iff {hs : RandomState (BellmanFordResult F)}
    {stamps : ℕ → Stamp} : router.boundedCollectPatternRoutes hs t qos stamps = none ↔
      ∃ pattern ∈ collectedPatterns, router.Panics t qos.minTrust pattern := by
  rw [boundedCollectPatternRoutes, Option.map_eq_none_iff, OrPanic.mapM_eq_none]
  simp only [tryPattern_eq_none_iff]
  constructor
  · rintro ⟨p, hp, h⟩
    exact ⟨p.1, (List.mem_zipIdx' hp).2 ▸ List.getElem_mem _, h⟩
  · rintro ⟨pattern, hp, h⟩
    obtain ⟨i, hi⟩ := List.mem_iff_getElem?.mp hp
    exact ⟨(pattern, i), List.mem_zipIdx_iff_getElem?.mpr hi, h⟩

/-- `find_routes` tries every pattern, so it panics exactly when one of them does. -/
theorem findRoutes_eq_none_iff {hs : RandomState (BellmanFordResult F)} {stamps : ℕ → Stamp} :
    router.boundedFindRoutes hs t qos stamps = none ↔
      router.graph.validate = .ok () ∧ ∃ pattern, router.Panics t qos.minTrust pattern := by
  have hcollected : router.boundedCollectPatternRoutes hs t qos stamps = none ↔
      ∃ pattern ∈ collectedPatterns, router.Panics t qos.minTrust pattern :=
    collectPatternRoutes_eq_none_iff
  have hexplored : router.boundedPipelineRoutes hs t qos stamps = none ↔
      router.Panics t qos.minTrust .pipeline :=
    Option.map_eq_none_iff.trans Option.map_eq_none_iff
  unfold boundedFindRoutes
  cases router.graph.validate with
  | error e => simp
  | ok u =>
    simp only [true_and]
    constructor
    -- the four builders run before the exploration, so the first panic is the one seen
    · intro h
      cases hc : router.boundedCollectPatternRoutes hs t qos stamps with
      | none =>
        obtain ⟨pattern, -, hp⟩ := hcollected.mp hc
        exact ⟨pattern, hp⟩
      | some collected =>
        cases he : router.boundedPipelineRoutes hs t qos stamps with
        | none => exact ⟨.pipeline, hexplored.mp he⟩
        | some explored =>
          simp only [hc, he, Option.bind_eq_bind, Option.bind_some] at h
          split at h
          · cases h
          · cases h
    · rintro ⟨pattern, hp⟩
      rcases eq_or_ne pattern .pipeline with rfl | hne
      · rw [hexplored.mpr hp]
        cases router.boundedCollectPatternRoutes hs t qos stamps with
        | none => rfl
        | some collected => rfl
      · have hmem : pattern ∈ collectedPatterns := by
          cases pattern <;> simp_all [collectedPatterns]
        rw [hcollected.mpr ⟨pattern, hmem, hp⟩]
        rfl

/-- A panic of `find_route` is the panic of a pattern that it tries. -/
theorem panics_of_findRoute_eq_none {hsPattern hsFallback : RandomState (BellmanFordResult F)}
    {stamp : Stamp} (h : router.boundedFindRoute t qos hsPattern hsFallback none stamp = none) :
    router.graph.validate = .ok () ∧
      ∃ pattern, autoTries (extractAgents router.graph t qos.minTrust) qos pattern = true ∧
        router.Panics t qos.minTrust pattern := by
  unfold boundedFindRoute at h
  cases hv : router.graph.validate with
  | error e =>
    rw [hv] at h
    cases h
  | ok u =>
    simp only [hv] at h
    refine ⟨rfl, ?_⟩
    rcases Bounded.attempt_eq_none h with ⟨-, h⟩ | h
    · cases h
    rcases Bounded.attempt_eq_none h with ⟨-, h⟩ | h
    · rcases Bounded.autoSelectPattern_eq_none h with ⟨pattern, hg, hp⟩ | ⟨a, ha, hm⟩
      · cases pattern with
        | pipeline => cases hp
        | _ => exact ⟨_, hg, hp⟩
      · exact ⟨.pipeline, rfl, Bounded.multiObjective_eq_none_of_solo ha hm⟩
    · exact ⟨.pipeline, rfl, Option.map_eq_none_iff.mp (Option.map_eq_none_iff.mp h)⟩

/-! ### Agreement of the entry points -/

section Order
variable [OrderedF64 F]

/-- A pattern that does not panic returns what it would with durations of any size. -/
theorem tryPattern_ok_iff_of_returns {hs : RandomState (BellmanFordResult F)}
    {pattern : RoutingPattern} {stamp : Stamp} (h : ¬ router.Panics t qos.minTrust pattern) :
    (∃ route, router.boundedTryPattern hs t qos pattern stamp = some (.ok route)) ↔
      router.Feasible t qos pattern := by
  have hret : (router.boundedTryPattern hs t qos pattern stamp).isSome :=
    Option.isSome_iff_ne_none.mpr (mt tryPattern_eq_none_iff.mp h)
  rw [(tryPattern_orPanic router hs t qos pattern stamp).eq_some hret]
  simp only [Option.some.injEq]
  exact tryPattern_ok_iff

omit [OrderedF64 F] in
theorem exists_some_ok {ε α : Type} {x : Option (Except ε α)}
    (h : (x.bind Except.toOption).isSome = true) : ∃ a, x = some (.ok a) := by
  obtain ⟨a, h⟩ := Option.isSome_iff_exists.mp h
  obtain ⟨e, rfl, he⟩ := Option.bind_eq_some_iff.mp h
  exact ⟨a, by rw [eq_ok_of_toOption he]⟩

/-- An analyst that takes 100 ms, and a cheaper one that takes as long as a duration can. -/
def quickAndSlow : EconomicRouter ℚ :=
  sample [(4 / 5, ⟨.analysis, 9 / 10, Duration.millis 100, 3 / 10⟩),
    (4 / 5, ⟨.analysis, 9 / 10, maxDuration, 1 / 10⟩)]

/-- Relaxing closes gates, it opens none. -/
theorem autoTries_of_relaxed {agents : List (AgentInfo F)} {q q' : QoSConstraints F}
    {pattern : RoutingPattern} (hq : q'.AtMostAsStrict q)
    (h : autoTries agents q' pattern = true) : autoTries agents q pattern = true := by
  have hbudget : budgetGate agents q' = true → budgetGate agents q = true := by
    simp only [budgetGate, Bool.and_eq_true, decide_eq_true_eq]
    exact And.imp_left (F64.lt_of_le_of_lt hq.cost)
  cases pattern with
  | draftRefine => exact hbudget h
  | cascade => exact hbudget h
  | ensemble =>
    simp only [autoTries, qualityGate, Bool.and_eq_true, decide_eq_true_eq] at h ⊢
    exact ⟨F64.le_trans h.1 hq.quality, h.2⟩
  | parallelMerge =>
    simp only [autoTries, latencyGate, Bool.and_eq_true, decide_eq_true_eq] at h ⊢
    exact ⟨hq.latency.trans h.1, h.2⟩
  | pipeline => rfl

section SameCandidates
variable {q q' : QoSConstraints F} {kept : Route F → Prop} {stamp stamp' : Stamp}

/-- With the same candidates, the exploration is the same. -/
theorem relaxed_bestPipeline (hq : q'.AtMostAsStrict q) (hsame : router.graph.capableAgents t
    q'.minTrust = router.graph.capableAgents t q.minTrust)
    {hs hs' : RandomState (BellmanFordResult F)} :
    Bounded.Relaxed kept (router.boundedBestPipeline hs t q stamp)
      (router.boundedBestPipeline hs' t q' stamp') := by
  have hreturns : (router.boundedBestPipeline hs t q stamp).isSome →
      (router.boundedBestPipeline hs' t q' stamp').isSome := by
    simp only [boundedBestPipeline, boundedExplore, Option.isSome_map,
      Bounded.multiObjectiveBellmanFord, hsame, imp_self]
  refine ⟨fun r h _ => ?_, fun e h => hreturns (Option.isSome_of_eq_some h)⟩
  have hplain := bestPipeline_orPanic router hs t q stamp _ h
  have hserved : ∃ r', router.bestPipeline hs' t q' stamp' = .ok r' :=
    bestPipeline_ok_iff.mpr ((bestPipeline_ok_iff.mp ⟨r, hplain.symm⟩).relaxed hq hsame)
  obtain ⟨r', hr'⟩ := hserved
  refine ⟨r', ?_⟩
  rw [(bestPipeline_orPanic router hs' t q' stamp').eq_some
    (hreturns (Option.isSome_of_eq_some h)), hr']

/-- An attempt at a pattern keeps what is kept: its gate is open for a route of that pattern. -/
theorem relaxed_attempt {agents : List (AgentInfo F)} (hq : q'.AtMostAsStrict q)
    (pattern : RoutingPattern) (s : Option (Option (Selection F))) {ttl : Duration}
    {next next' : Option (Except RoutingError (Route F))}
    (hnext : Bounded.Relaxed (fun route => autoTries agents q' route.pattern = true) next next') :
    Bounded.Relaxed (fun route => autoTries agents q' route.pattern = true)
      (Bounded.attempt (autoTries agents q pattern)
        (s.map fun s => checkedRoute pattern s q ttl stamp) next)
      (Bounded.attempt (autoTries agents q' pattern)
        (s.map fun s => checkedRoute pattern s q' ttl stamp') next') := by
  refine .attempt (autoTries_of_relaxed hq) (fun r h hk => ?_)
    (Bounded.relaxed_checkedRoute hq pattern s) hnext
  obtain ⟨s, rfl, hs⟩ := Option.map_eq_some_iff.mp h
  rw [checkedRoute_pattern hs] at hk
  exact hk

/-- With the same candidates, nothing is tried that was not tried before. -/
theorem relaxed_autoSelectPattern (hq : q'.AtMostAsStrict q)
    (hsame : router.graph.capableAgents t q'.minTrust = router.graph.capableAgents t q.minTrust)
    {ttl : Duration} : Bounded.Relaxed
      (fun route => autoTries (extractAgents router.graph t q'.minTrust) q' route.pattern = true)
      (Bounded.autoSelectPattern router.graph t q ttl stamp)
      (Bounded.autoSelectPattern router.graph t q' ttl stamp') := by
  have hagents : extractAgents router.graph t q.minTrust =
      extractAgents router.graph t q'.minTrust := by rw [extractAgents, ← hsame, extractAgents]
  simp only [Bounded.autoSelectPattern, Bounded.cascade, Bounded.draftRefine, Bounded.ensemble,
    Bounded.parallelMerge, hagents]
  split
  · exact ⟨fun r h => (by cases h), fun e _ => rfl⟩
  · exact relaxed_attempt hq .cascade _ <| relaxed_attempt hq .draftRefine _ <|
      relaxed_attempt hq .ensemble _ <| relaxed_attempt hq .parallelMerge _ <|
      Bounded.relaxed_cheapestSingle hq _

theorem relaxed_findRoute (hq : q'.AtMostAsStrict q)
    (hsame : router.graph.capableAgents t q'.minTrust = router.graph.capableAgents t q.minTrust)
    {hsPattern hsFallback hsPattern' hsFallback' : RandomState (BellmanFordResult F)} :
    Bounded.Relaxed
      (fun route => autoTries (extractAgents router.graph t q'.minTrust) q' route.pattern = true)
      (router.boundedFindRoute t q hsPattern hsFallback none stamp)
      (router.boundedFindRoute t q' hsPattern' hsFallback' none stamp') := by
  unfold boundedFindRoute
  cases router.graph.validate with
  | error e => exact ⟨fun r h => (by cases h), fun e _ => rfl⟩
  | ok u =>
    refine .attempt id (fun r h => (by cases h)) ⟨fun r h => (by cases h), fun e _ => rfl⟩ ?_
    exact .attempt id (fun _ _ _ => rfl) (relaxed_autoSelectPattern hq hsame)
      (relaxed_bestPipeline hq hsame)

end SameCandidates

/-- Relaxing a request keeps it served when its route is one agent by itself and the call for the
    weaker request returns, or when that request has the same candidates and still lets the pattern
    of the route through. -/
theorem relaxing_keeps_route (router : EconomicRouter F) (t : TaskType) (q q' : QoSConstraints F)
    (hq : q'.AtMostAsStrict q) (hsPattern hsFallback hsPattern' hsFallback' :
      RandomState (BellmanFordResult F)) (stamp stamp' : Stamp) (route : Route F)
    (h : router.boundedFindRoute t q hsPattern hsFallback none stamp = some (.ok route))
    (hkept : (route.pattern = .pipeline ∧ route.agents.length = 1 ∧
        (router.boundedFindRoute t q' hsPattern' hsFallback' none stamp').isSome) ∨
      (router.graph.capableAgents t q'.minTrust = router.graph.capableAgents t q.minTrust ∧
        autoTries (extractAgents router.graph t q'.minTrust) q' route.pattern = true)) :
    ∃ route', router.boundedFindRoute t q' hsPattern' hsFallback' none stamp' =
      some (.ok route') := by
  rcases hkept with ⟨hp, hlen, hret⟩ | ⟨hsame, hg⟩
  · have hplain := (findRoute_orPanic router t q hsPattern hsFallback none stamp _ h).symm
    obtain ⟨id, hids⟩ := List.length_eq_one_iff.mp hlen
    have hf := feasible_of_single_agent hq (findRoute_admissible hplain) hp hids
    have hserved : ∃ route',
        router.findRoute hsPattern' hsFallback' t q' none stamp' = .ok route' :=
      findRoute_ok_iff.mpr ⟨.pipeline, rfl, hf⟩
    obtain ⟨route', hroute'⟩ := hserved
    refine ⟨route', ?_⟩
    rw [(findRoute_orPanic router t q' hsPattern' hsFallback' none stamp').eq_some hret, hroute']
  · exact (relaxed_findRoute hq hsame).serves route h hg

theorem relaxing_keeps_route_twins :
    ∃ route', twins.boundedFindRoute .analysis ⟨1 / 4, Duration.secs 20, 6, 1 / 4⟩ (.insertion _)
      (.insertion _) none ⟨0, 0⟩ = some (.ok route') :=
  relaxing_keeps_route twins .analysis ⟨1 / 2, Duration.secs 10, 5, 1 / 2⟩
    ⟨1 / 4, Duration.secs 20, 6, 1 / 4⟩ ⟨by decide +kernel, by decide, by decide +kernel,
      by decide +kernel⟩ (.insertion _) (.insertion _) (.insertion _) (.insertion _) ⟨0, 0⟩ ⟨0, 0⟩
    ⟨0, .pipeline, [⟨0⟩], ⟨7 / 10, Duration.millis 100, 3 / 10⟩, 0, Duration.secs 120⟩
    (by decide +kernel) (Or.inl ⟨rfl, rfl, by decide +kernel⟩)

/-- The twins and an expert of less trust that costs more than any budget. -/
def twinsAndExpert : EconomicRouter ℚ :=
  sample [(4 / 5, analyst), (4 / 5, analyst),
    (2 / 5, ⟨.analysis, 8 / 10, Duration.millis 100, 100⟩)]

/-- An analyst, and one of little trust that takes as long as a duration can. -/
def analystAndDistrusted : EconomicRouter ℚ :=
  sample [(4 / 5, analyst), (1 / 5, ⟨.analysis, 7 / 10, maxDuration, 100⟩)]

/-- Relaxing loses a route in three ways. Asking for quality 0.85 instead of 0.9 closes the gate of
    the ensemble; asking for trust 1/4 instead of 1/2 puts the expert on the ensemble; asking for
    trust 1/8 admits an agent that opens the gate of draft-refine, which panics. -/
theorem relaxing_loses_route :
    let q : QoSConstraints ℚ := ⟨9 / 10, Duration.secs 10, 5, 1 / 2⟩
    let lessQuality : QoSConstraints ℚ := ⟨85 / 100, Duration.secs 10, 5, 1 / 2⟩
    let lessTrust : QoSConstraints ℚ := ⟨9 / 10, Duration.secs 10, 5, 1 / 4⟩
    let easy : QoSConstraints ℚ := ⟨1 / 2, Duration.secs 10, 5, 1 / 2⟩
    let easyLessTrust : QoSConstraints ℚ := ⟨1 / 2, Duration.secs 10, 5, 1 / 8⟩
    (lessQuality.AtMostAsStrict q ∧
      (∃ route, twins.boundedFindRoute .analysis q (.insertion _) (.insertion _) none ⟨0, 0⟩ =
        some (.ok route)) ∧
      twins.boundedFindRoute .analysis lessQuality (.insertion _) (.insertion _) none ⟨0, 0⟩ =
        some (.error .noFeasibleRoute)) ∧
    (lessTrust.AtMostAsStrict q ∧
      (∃ route, twinsAndExpert.boundedFindRoute .analysis q (.insertion _) (.insertion _) none
        ⟨0, 0⟩ = some (.ok route)) ∧
      twinsAndExpert.boundedFindRoute .analysis lessTrust (.insertion _) (.insertion _) none
        ⟨0, 0⟩ = some (.error .noFeasibleRoute)) ∧
    (easyLessTrust.AtMostAsStrict easy ∧
      (∃ route, analystAndDistrusted.boundedFindRoute .analysis easy (.insertion _)
        (.insertion _) none ⟨0, 0⟩ = some (.ok route)) ∧
      analystAndDistrusted.boundedFindRoute .analysis easyLessTrust (.insertion _) (.insertion _)
        none ⟨0, 0⟩ = none) := by
  intro q lessQuality lessTrust easy easyLessTrust
  refine ⟨⟨⟨by decide +kernel, by decide, by decide +kernel, by decide +kernel⟩, ?_, ?_⟩,
    ⟨⟨by decide +kernel, by decide, by decide +kernel, by decide +kernel⟩, ?_, ?_⟩,
    ⟨by decide +kernel, by decide, by decide +kernel, by decide +kernel⟩, ?_, ?_⟩
  · exact exists_some_ok (by decide +kernel)
  · decide +kernel
  · exact exists_some_ok (by decide +kernel)
  · decide +kernel
  · exact exists_some_ok (by decide +kernel)
  · exact Option.isNone_iff_eq_none.mp (by decide +kernel)

end Order

end EconomicRouter
end ATP
