import AgentTransport.Routing.BellmanFord
import AgentTransport.Routing.Router
import AgentTransport.Routing.ScalarCost
import AgentTransport.Lib.Relaxation
import AgentTransport.Lib.Double

/-! A Bellman-Ford run finds a cheapest walk through the capable agents.

    The run is an instance of relaxation: its arrays are labels over local indices, and a pass over
    the agents relaxes the arcs below. What is proved of walks over local indices is carried back to
    the graph:

        hops of the graph ──local index──▶ arcs ──agents[i]──▶ hops of the graph

    Sums may be rounded, and costs may be infinite: an agent that can only be reached at an infinite
    cost counts as one that cannot be reached. -/

namespace ATP
open F64 Collections Relaxation

section Arcs
variable {F : Type} [F64 F]

/-- A hop between two listed agents: an edge of the graph, at the scalar cost of the agent it leads
    to. -/
def Hop (g : AgentGraph F) (agents : List ℕ) (t : TaskType) (w : CostWeights F) (cm : CostModel F)
    (u v : ℕ) (c : F) : Prop :=
  u ∈ agents ∧ v ∈ agents ∧ ∃ e ∈ g.edgesFrom u, e.toIdx = v ∧
    ∃ cap, (g.node v).bind (·.capabilityFor t) = some cap ∧
      c = cm.scalarEdgeCost cap e.transferLatency w

/-- An edge out of the local node `u`, as an arc: none when it leaves the list. -/
def arcOf {k : ℕ} (g : AgentGraph F) (toLocal : HashMap ℕ (Fin k)) (t : TaskType)
    (w : CostWeights F) (cm : CostModel F) (u : Fin k) (e : Edge) : List (Fin k × Fin k × F) :=
  match toLocal.lookup e.toIdx, (g.node e.toIdx).bind (·.capabilityFor t) with
  | some v, some cap => [(u, v, cm.scalarEdgeCost cap e.transferLatency w)]
  | _, _ => []

/-- The arcs of one pass over the agents, in order. -/
def arcs {k : ℕ} (g : AgentGraph F) (agents : List ℕ) (toLocal : HashMap ℕ (Fin k)) (t : TaskType)
    (w : CostWeights F) (cm : CostModel F) : List (Fin k × Fin k × F) :=
  agents.flatMap fun uGlobal =>
    match toLocal.lookup uGlobal with
    | none => []
    | some u => (g.edgesFrom uGlobal).flatMap (arcOf g toLocal t w cm u)

/-- A listed agent has a local index, and a local index in the map is that of its agent. -/
theorem lookup_globalToLocal (agents : List ℕ) :
    (∀ i l, (globalToLocal agents).lookup i = some l → agents.get l = i) ∧
      ∀ i ∈ agents, ((globalToLocal agents).lookup i).isSome := by
  have hfold : ∀ (ls : List (Fin agents.length)) (m : HashMap ℕ (Fin agents.length)),
      (∀ i l, m.lookup i = some l → agents.get l = i) →
        (∀ i l, (ls.foldl (fun m l => m.insert (agents.get l) l) m).lookup i = some l →
          agents.get l = i) ∧
        ∀ i, (m.lookup i).isSome ∨ (∃ l ∈ ls, agents.get l = i) →
          ((ls.foldl (fun m l => m.insert (agents.get l) l) m).lookup i).isSome := by
    -- over the positions still to come: those in the map so far are right, and none is lost
    intro ls
    induction ls with
    | nil =>
      intro m hm
      exact ⟨hm, fun i hi => hi.resolve_right (by simp)⟩
    | cons l ls ih =>
      intro m hm
      have hstep : ∀ i l', (m.insert (agents.get l) l).lookup i = some l' →
          agents.get l' = i := by
        intro i l' hl'
        rcases eq_or_ne i (agents.get l) with rfl | hne
        · rw [AList.lookup_insert] at hl'
          rw [Option.some.inj hl']
        · rw [AList.lookup_insert_ne hne] at hl'
          exact hm i l' hl'
      obtain ⟨hget, hsome⟩ := ih _ hstep
      refine ⟨hget, fun i hlisted => hsome i ?_⟩
      rcases eq_or_ne i (agents.get l) with rfl | hne
      · exact Or.inl (by rw [AList.lookup_insert]; rfl)
      · rw [AList.lookup_insert_ne hne]
        refine hlisted.imp_right ?_
        rintro ⟨l', hl', hi⟩
        rcases List.mem_cons.mp hl' with rfl | hl'
        · exact absurd hi.symm hne
        · exact ⟨l', hl', hi⟩
  obtain ⟨hget, hsome⟩ := hfold (List.finRange agents.length) ∅ (by simp)
  refine ⟨hget, fun i hi => hsome i (Or.inr ?_)⟩
  obtain ⟨l, hl⟩ := List.mem_iff_get.mp hi
  exact ⟨l, List.mem_finRange l, hl⟩

variable {g : AgentGraph F} {agents : List ℕ} {t : TaskType} {w : CostWeights F} {cm : CostModel F}

/-- An arc is a hop between the agents at its ends, and its head is the index of its agent. -/
theorem hop_of_mem_arcs {u v : Fin agents.length} {c : F}
    (h : (u, v, c) ∈ arcs g agents (globalToLocal agents) t w cm) :
    Hop g agents t w cm (agents.get u) (agents.get v) c ∧
      (globalToLocal agents).lookup (agents.get v) = some v := by
  obtain ⟨i, hi, h⟩ := List.mem_flatMap.mp h
  have hget := (lookup_globalToLocal agents).1
  cases hu : (globalToLocal agents).lookup i with
  | none =>
    rw [hu] at h
    simp at h
  | some u' =>
    simp only [hu, List.mem_flatMap] at h
    obtain ⟨e, he, harc⟩ := h
    unfold arcOf at harc
    split at harc
    · rename_i v' cap hv hcap
      simp only [List.mem_singleton, Prod.mk.injEq] at harc
      obtain ⟨rfl, rfl, rfl⟩ := harc
      rw [hget _ _ hu, hget _ _ hv]
      exact ⟨⟨hi, hget _ _ hv ▸ List.get_mem agents v, e, he, rfl, cap, hcap, rfl⟩, hv⟩
    · simp at harc

/-- A hop is an arc between the indices of its agents. -/
theorem mem_arcs_of_hop {i j : ℕ} {c : F} (h : Hop g agents t w cm i j c) :
    ∃ u v, (globalToLocal agents).lookup i = some u ∧ (globalToLocal agents).lookup j = some v ∧
      (u, v, c) ∈ arcs g agents (globalToLocal agents) t w cm := by
  obtain ⟨hi, hj, e, he, rfl, cap, hcap, rfl⟩ := h
  obtain ⟨u, hu⟩ := Option.isSome_iff_exists.mp ((lookup_globalToLocal agents).2 i hi)
  obtain ⟨v, hv⟩ := Option.isSome_iff_exists.mp ((lookup_globalToLocal agents).2 _ hj)
  refine ⟨u, v, hu, hv, List.mem_flatMap.mpr ⟨i, hi, ?_⟩⟩
  simp only [hu, List.mem_flatMap]
  exact ⟨e, he, by simp only [arcOf, hv, hcap, List.mem_singleton]⟩

end Arcs

/-! ### Costs that are not negative -/

/-- A cost that is not negative, and so no NaN. -/
@[ext]
structure Cost (F : Type) [F64 F] where
  val : F
  nonneg : 0 ≤ val

section Costs
variable {F : Type} [F64 F] [RoundedF64 F]

instance Cost.walkCost : WalkCost (Cost F) where
  le a b := a.val ≤ b.val
  lt a b := a.val < b.val
  le_refl a := IsNum.of_le_right a.nonneg
  le_trans _ _ _ hab hbc := F64.le_trans hab hbc
  lt_iff_le_not_ge a b := OrderedF64.lt_iff a.val b.val
  zero := ⟨0, IsNum.of_le_left LawfulF64.zero_le_one⟩
  add a b := ⟨a.val + b.val, add_nonneg a.nonneg b.nonneg⟩
  Finite a := ltInfinity a.val = true
  decidableFinite _ := inferInstanceAs (Decidable (_ = true))
  decidableLT a b := inferInstanceAs (Decidable (a.val < b.val))
  le_total a b :=
    OrderedF64.le_total a.val b.val (IsNum.of_le_right a.nonneg) (IsNum.of_le_right b.nonneg)
  zero_le a := a.nonneg
  le_add a w := (LawfulF64.le_add a.val w.val a.nonneg w.nonneg).1
  add_le_add a b w h := RoundedF64.add_le_add a.val b.val w.val w.val h
    (IsNum.of_le_right w.nonneg) (IsNum.of_le_right (add_nonneg a.nonneg w.nonneg))
    (IsNum.of_le_right (add_nonneg b.nonneg w.nonneg))
  finite_zero := RoundedF64.ltInfinity_zero
  finite_of_le a b h := RoundedF64.ltInfinity_of_le a.val b.val h

theorem ltDist_iff {x : Cost F} {d : Option (Cost F)} :
    ltDist x.val (d.map Cost.val) = true ↔ Improves x d := by
  cases d with
  | none => exact Iff.rfl
  | some y => exact decide_eq_true_iff

/-- An arc whose cost is not negative, as the code has it. -/
def plain {k : ℕ} (a : Fin k × Fin k × Cost F) : Fin k × Fin k × F := (a.1, a.2.1, a.2.2.val)

omit [RoundedF64 F] in
theorem exists_plain {k : ℕ} : ∀ {as : List (Fin k × Fin k × F)}, (∀ a ∈ as, 0 ≤ a.2.2) →
    ∃ bs : List (Fin k × Fin k × Cost F), bs.map plain = as
  | [], _ => ⟨[], rfl⟩
  | a :: as, h => by
    obtain ⟨bs, rfl⟩ := exists_plain fun b hb => h b (List.mem_cons_of_mem a hb)
    exact ⟨(a.1, a.2.1, ⟨a.2.2, h a List.mem_cons_self⟩) :: bs, rfl⟩

omit [RoundedF64 F] in
theorem mem_of_plain_mem {k : ℕ} {bs : List (Fin k × Fin k × Cost F)} {u v : Fin k} {c : Cost F}
    (h : (u, v, c.val) ∈ bs.map plain) : (u, v, c) ∈ bs := by
  obtain ⟨⟨u', v', c'⟩, hb, heq⟩ := List.mem_map.mp h
  simp only [plain, Prod.mk.injEq] at heq
  obtain ⟨rfl, rfl, hval⟩ := heq
  rwa [← Cost.ext hval]

end Costs

/-! ### A pass relaxes the arcs -/

namespace Distances
variable {F : Type} [F64 F] {k : ℕ}

/-- The arrays of a run hold what the labels say. -/
structure Represents (d : Distances F k) (L : Labels (Fin k) (Cost F)) : Prop where
  dist : ∀ l, d.distAt l = (L.dist l).map Cost.val
  pred : ∀ l, d.predAt l = L.pred l

theorem Represents.eq {d : Distances F k} {L L' : Labels (Fin k) (Cost F)} (h : d.Represents L)
    (h' : d.Represents L') : L = L' := by
  refine Labels.mk.injEq .. ▸ ⟨funext fun l => ?_, funext fun l => ?_⟩
  · exact Option.map_injective (fun _ _ => Cost.ext) ((h.dist l).symm.trans (h'.dist l))
  · exact (h.pred l).symm.trans (h'.pred l)

theorem Represents.set {d : Distances F k} {L : Labels (Fin k) (Cost F)} (h : d.Represents L)
    (v u : Fin k) (c : Cost F) :
    Represents ⟨d.dist.set v (some c.val) v.isLt, d.pred.set v (some u) v.isLt⟩ (L.set v c u) := by
  refine ⟨fun l => ?_, fun l => ?_⟩
  · rw [Labels.set_dist, distAt, Fin.getElem_fin, Vector.getElem_set]
    rcases eq_or_ne l v with rfl | hne
    · rw [if_pos rfl, if_pos rfl, Option.map_some]
    · rw [if_neg (by simpa [Fin.val_inj, eq_comm] using hne), if_neg hne]
      exact h.dist l
  · rw [Labels.set_pred, predAt, Fin.getElem_fin, Vector.getElem_set]
    rcases eq_or_ne l v with rfl | hne
    · rw [if_pos rfl, if_pos rfl]
    · rw [if_neg (by simpa [Fin.val_inj, eq_comm] using hne), if_neg hne]
      exact h.pred l

variable [RoundedF64 F]

theorem represents_init (s : Fin k) : (init s : Distances F k).Represents (Labels.start s) := by
  refine ⟨fun l => ?_, fun l => by simp [init, predAt, Labels.start]⟩
  rw [Labels.start_dist, init, distAt, Fin.getElem_fin, Vector.getElem_set]
  rcases eq_or_ne l s with rfl | hne
  · rw [if_pos rfl, if_pos rfl]
    rfl
  · rw [if_neg (by simpa [Fin.val_inj, eq_comm] using hne), if_neg hne]
    simp

variable (g : AgentGraph F) (agents : List ℕ) (toLocal : HashMap ℕ (Fin k)) (t : TaskType)
  (w : CostWeights F) (cm : CostModel F)

/-- What a part of a pass does: it relaxes arcs, and leaves the flag down only if it changed
    nothing. -/
structure Passed (arcs : List (Fin k × Fin k × F)) (st st' : Distances F k × Bool) : Prop where
  labels : ∀ L, st.1.Represents L → ∀ bs, bs.map plain = arcs →
    st'.1.Represents (L.relaxArcs bs)
  unchanged : st'.2 = false → st' = st

theorem passed_nil (st : Distances F k × Bool) : Passed [] st st where
  labels L hL bs hbs := by
    rw [List.map_eq_nil_iff.mp hbs]
    exact hL
  unchanged _ := rfl

/-- A single arc, with its cost known not to be negative. -/
theorem relaxArcs_single (L : Labels (Fin k) (Cost F)) {bs : List (Fin k × Fin k × Cost F)}
    {u v : Fin k} {c : F} (h : bs.map plain = [(u, v, c)]) :
    ∃ c' : Cost F, c'.val = c ∧ L.relaxArcs bs = L.relax u v c' := by
  obtain ⟨⟨u', v', c'⟩, rfl, heq⟩ := List.map_eq_singleton_iff.mp h
  simp only [plain, Prod.mk.injEq] at heq
  obtain ⟨rfl, rfl, hval⟩ := heq
  exact ⟨c', hval, rfl⟩

theorem relaxEdge_passed (u : Fin k) (st : Distances F k × Bool) (e : Edge) :
    Passed (arcOf g toLocal t w cm u e) st (relaxEdge g toLocal t w cm u st e) := by
  unfold relaxEdge arcOf
  cases toLocal.lookup e.toIdx with
  | none => exact passed_nil st
  | some v =>
    cases (g.node e.toIdx).bind (·.capabilityFor t) with
    | none => exact passed_nil st
    | some cap =>
      cases hu : st.1.distAt u with
      | none =>
        refine ⟨fun L hL bs hbs => ?_, fun _ => rfl⟩
        obtain ⟨c', -, heq⟩ := relaxArcs_single L hbs
        have hLu : L.dist u = none := Option.map_eq_none_iff.mp ((hL.dist u).symm.trans hu)
        rw [heq, Labels.relax, hLu]
        exact hL
      | some x =>
        dsimp only
        generalize cm.scalarEdgeCost cap e.transferLatency w = c
        have hlow : ∀ L : Labels (Fin k) (Cost F), st.1.Represents L → ∀ c' : Cost F, c'.val = c →
            ∃ x' : Cost F, x'.val = x ∧ L.dist u = some x' ∧
              (ltDist (x + c) (st.1.distAt v) = true ↔ Improves (x' + c') (L.dist v)) := by
          rintro L hL c' rfl
          obtain ⟨x', hLu, rfl⟩ := Option.map_eq_some_iff.mp ((hL.dist u).symm.trans hu)
          exact ⟨x', rfl, hLu, by rw [hL.dist v]; exact ltDist_iff (x := x' + c')⟩
        by_cases himp : ltDist (x + c) (st.1.distAt v) = true
        · rw [if_pos himp]
          refine ⟨fun L hL bs hbs => ?_, fun h => by cases h⟩
          -- the comparison of the code is the one of the labels, so both update
          obtain ⟨c', hc, heq⟩ := relaxArcs_single L hbs
          obtain ⟨x', hx, hLu, hiff⟩ := hlow L hL c' hc
          subst hc hx
          simp only [heq, Labels.relax, hLu, if_pos (hiff.mp himp)]
          exact hL.set v u (x' + c')
        · rw [if_neg himp]
          refine ⟨fun L hL bs hbs => ?_, fun _ => rfl⟩
          obtain ⟨c', hc, heq⟩ := relaxArcs_single L hbs
          obtain ⟨x', hx, hLu, hiff⟩ := hlow L hL c' hc
          simp only [heq, Labels.relax, hLu, if_neg (mt hiff.mpr himp)]
          exact hL

/-- Parts of a pass, one after the other. -/
theorem Passed.fold {α : Type} {f : Distances F k × Bool → α → Distances F k × Bool}
    {arcs : α → List (Fin k × Fin k × F)} {as : List α}
    (hf : ∀ st, ∀ a ∈ as, Passed (arcs a) st (f st a)) :
    ∀ st, Passed (as.flatMap arcs) st (as.foldl f st) := by
  induction as with
  | nil => exact passed_nil
  | cons a as ih =>
    intro st
    have hfirst := hf st a List.mem_cons_self
    have hrest := ih (fun st b hb => hf st b (List.mem_cons_of_mem a hb)) (f st a)
    refine ⟨fun L hL bs hbs => ?_, fun h => ?_⟩
    · rw [List.flatMap_cons] at hbs
      obtain ⟨bs₁, bs₂, rfl, h₁, h₂⟩ := List.map_eq_append_iff.mp hbs
      rw [List.foldl_cons, Labels.relaxArcs, List.foldl_append]
      exact hrest.labels _ (hfirst.labels L hL bs₁ h₁) bs₂ h₂
    · rw [List.foldl_cons] at h ⊢
      have hkept := hrest.unchanged h
      rw [hkept] at h ⊢
      exact hfirst.unchanged h

theorem relaxAll_passed (d : Distances F k) :
    Passed (arcs g agents toLocal t w cm) (d, false) (relaxAll g agents toLocal t w cm d) := by
  refine Passed.fold (fun st uGlobal _ => ?_) (d, false)
  cases toLocal.lookup uGlobal with
  | none => exact passed_nil st
  | some u =>
    dsimp only
    cases hu : st.1.distAt u with
    | none =>
      -- an agent that was not reached is skipped; relaxing its arcs would change nothing
      refine ⟨fun L hL bs hbs => ?_, fun _ => rfl⟩
      have htails : ∀ b ∈ bs, b.1 = u := by
        intro b hb
        obtain ⟨e, -, he⟩ := List.mem_flatMap.mp (hbs ▸ List.mem_map_of_mem hb)
        unfold arcOf at he
        split at he
        · exact congrArg Prod.fst (List.mem_singleton.mp he)
        · simp at he
      rw [Labels.relaxArcs_unreached htails
        (Option.map_eq_none_iff.mp ((hL.dist u).symm.trans hu))]
      exact hL
    | some x =>
      simp only [Option.isNone_some, Bool.false_eq_true, if_false]
      exact Passed.fold (fun st e _ => relaxEdge_passed g toLocal t w cm u st e) st

variable {g agents toLocal t w cm} {E : Fin k → Fin k → Cost F → Prop} {s : Fin k}

/-- After `n` rounds, or fewer when one changed nothing, the arrays hold labels that are sound, and
    no walk of as many arcs is cheaper. -/
theorem relaxRounds_reach {bs : List (Fin k × Fin k × Cost F)}
    (hbs : bs.map plain = arcs g agents toLocal t w cm) (hE : ∀ u v c, E u v c ↔ (u, v, c) ∈ bs) :
    ∀ (n m : ℕ) {d : Distances F k} {L : Labels (Fin k) (Cost F)}, d.Represents L →
      L.Sound E s → L.Reach E s m →
        ∃ L', (relaxRounds g agents toLocal t w cm n d).Represents L' ∧ L'.Sound E s ∧
          L'.Reach E s (m + n)
  | 0, _, _, L, hd, hs, hr => ⟨L, hd, hs, hr⟩
  | n + 1, m, d, L, hd, hs, hr => by
    have hpass := relaxAll_passed g agents toLocal t w cm d
    have hd' := hpass.labels L hd bs hbs
    have hs' : (L.relaxArcs bs).Sound E s :=
      hs.relaxArcs fun a ha => (hE a.1 a.2.1 a.2.2).mpr ha
    have hr' : (L.relaxArcs bs).Reach E s (m + 1) :=
      hr.round (fun u v c he => (hE u v c).mp he) hs.source
    unfold relaxRounds
    cases hrelax : relaxAll g agents toLocal t w cm d with
    | mk d' updated =>
      rw [hrelax] at hd' hpass
      cases updated with
      | true =>
        have hlen : m + (n + 1) = m + 1 + n := by omega
        rw [hlen]
        exact relaxRounds_reach hbs hE n (m + 1) hd' hs' hr'
      | false =>
        -- nothing was updated, so no further round would update anything
        obtain rfl : d' = d := congrArg Prod.fst (hpass.unchanged rfl)
        exact ⟨L, hd, hs, Labels.reach_of_fixed (fun u v c he => (hE u v c).mp he) hs
          (hd'.eq hd) _⟩

/-- The distances of a run: they are numbers, not negative, and finite. -/
def Proper (d : Distances F k) : Prop :=
  ∀ l x, d.distAt l = some x → 0 ≤ x ∧ ltInfinity x = true

theorem Represents.proper {d : Distances F k} {L : Labels (Fin k) (Cost F)} (hd : d.Represents L)
    (hs : L.Sound E s) : d.Proper := by
  intro l x hx
  obtain ⟨c, hc, rfl⟩ := Option.map_eq_some_iff.mp ((hd.dist l).symm.trans hx)
  exact ⟨c.nonneg, hs.finite l c hc⟩

/-- The next destination replaces the best one so far, or is no better. -/
theorem keepCloser_spec {d : Distances F k} (hd : d.Proper) (s : Fin k)
    {best : Option (Fin k × F)} (l : Fin k)
    (hb : ∀ p, best = some p → p.1 ≠ s ∧ d.distAt p.1 = some p.2) :
    (∀ p, d.keepCloser s best l = some p → p.1 ≠ s ∧ d.distAt p.1 = some p.2) ∧
      (∀ b, best = some b → ∃ p, d.keepCloser s best l = some p ∧ p.2 ≤ b.2) ∧
      ∀ y, l ≠ s → d.distAt l = some y → ∃ p, d.keepCloser s best l = some p ∧ p.2 ≤ y := by
  have hnum : ∀ {l x}, d.distAt l = some x → IsNum x :=
    fun hx => IsNum.of_le_right (hd _ _ hx).1
  have hbest : ∀ b, best = some b → IsNum b.2 := fun b hsome => hnum (hb b hsome).2
  unfold keepCloser
  cases hl : d.distAt l with
  | none => exact ⟨hb, fun b hsome => ⟨b, hsome, hbest b hsome⟩, by simp⟩
  | some x =>
    by_cases htest : (l ≠ s && ltDist x (best.map (·.2))) = true
    · simp only [htest, if_true]
      simp only [Bool.and_eq_true, decide_eq_true_eq] at htest
      refine ⟨?_, fun b hsome => ⟨(l, x), rfl, ?_⟩, fun y _ hy => ⟨(l, x), rfl, ?_⟩⟩
      · intro p hp
        obtain rfl := Option.some.inj hp
        exact ⟨htest.1, hl⟩
      · have hlt := htest.2
        rw [hsome] at hlt
        exact F64.le_of_lt (of_decide_eq_true hlt)
      · obtain rfl := Option.some.inj hy
        exact hnum hl
    · simp only [htest, Bool.false_eq_true, if_false]
      refine ⟨hb, fun b hsome => ⟨b, hsome, hbest b hsome⟩, fun y hls hy => ?_⟩
      obtain rfl := Option.some.inj hy
      -- a destination that is passed over is no nearer than the best so far
      have hworse : ¬ ltDist x (best.map (·.2)) = true := by simpa [hls] using htest
      cases hb' : best with
      | none =>
        rw [hb'] at hworse
        exact absurd (hd l x hl).2 hworse
      | some b =>
        rw [hb'] at hworse
        exact ⟨b, rfl, F64.le_of_not_lt (hnum hl) (hbest b hb')
          fun hlt => hworse (decide_eq_true hlt)⟩

/-- The best of a list of destinations is reached, and no dearer than any of them. -/
theorem foldl_keepCloser {d : Distances F k} (hd : d.Proper) (s : Fin k) :
    ∀ (ls : List (Fin k)) (best : Option (Fin k × F)),
    (∀ p, best = some p → p.1 ≠ s ∧ d.distAt p.1 = some p.2) →
      (∀ p, ls.foldl (d.keepCloser s) best = some p → p.1 ≠ s ∧ d.distAt p.1 = some p.2) ∧
      (∀ b, best = some b → ∃ p, ls.foldl (d.keepCloser s) best = some p ∧ p.2 ≤ b.2) ∧
      ∀ l ∈ ls, ∀ y, l ≠ s → d.distAt l = some y →
        ∃ p, ls.foldl (d.keepCloser s) best = some p ∧ p.2 ≤ y := by
  intro ls
  induction ls with
  | nil =>
    exact fun _ hb => ⟨hb, fun b hbest => ⟨b, hbest,
      IsNum.of_le_right (hd _ _ (hb b hbest).2).1⟩, by simp⟩
  | cons l ls ih =>
    intro best hb
    -- what `l` achieves, the destinations after it only improve on
    obtain ⟨hfirst, hfirstKeep, hfirstMin⟩ := keepCloser_spec hd s l hb
    obtain ⟨hsound, hkeep, hmin⟩ := ih _ hfirst
    refine ⟨hsound, fun b hbest => ?_, fun l' hl' y hls hy => ?_⟩
    · obtain ⟨p, hp, hle⟩ := hfirstKeep b hbest
      obtain ⟨q, hq, hqp⟩ := hkeep p hp
      exact ⟨q, hq, F64.le_trans hqp hle⟩
    · rcases List.mem_cons.mp hl' with rfl | hl'
      · obtain ⟨p, hp, hle⟩ := hfirstMin y hls hy
        obtain ⟨q, hq, hqp⟩ := hkeep p hp
        exact ⟨q, hq, F64.le_trans hqp hle⟩
      · exact hmin l' hl' y hls hy

/-- The best destination is a cheapest one, if any but the source was reached. -/
theorem bestDest_spec {d : Distances F k} (hd : d.Proper) (s : Fin k) :
    (d.bestDest s = none → ∀ l, l ≠ s → d.distAt l = none) ∧
      ∀ dest x, d.bestDest s = some (dest, x) → dest ≠ s ∧ d.distAt dest = some x ∧
        ∀ l y, l ≠ s → d.distAt l = some y → x ≤ y := by
  obtain ⟨hsound, -, hmin⟩ := foldl_keepCloser hd s (List.finRange k) none (by simp)
  constructor
  · intro hnone l hls
    cases hl : d.distAt l with
    | none => rfl
    | some y =>
      obtain ⟨p, hp, -⟩ := hmin l (List.mem_finRange l) y hls hl
      rw [← bestDest, hnone] at hp
      cases hp
  · intro dest x hbest
    obtain ⟨hne, hdist⟩ := hsound (dest, x) hbest
    refine ⟨hne, hdist, fun l y hls hy => ?_⟩
    obtain ⟨p, hp, hle⟩ := hmin l (List.mem_finRange l) y hls hy
    rw [← bestDest, hbest] at hp
    obtain rfl := Option.some.inj hp
    exact hle

/-- Labels that are sound, with no walk cheaper, give the path to a destination: simple, and of the
    cost of its label. -/
theorem pathTo_spec {d : Distances F k} {L : Labels (Fin k) (Cost F)} (hd : d.Represents L)
    (hs : L.Sound E s) (hr : L.Reach E s (k - 1)) {dest : Fin k} {x : F} (hne : dest ≠ s)
    (hx : d.distAt dest = some x) :
    ∃ path c, d.pathTo s dest = some path ∧ path.Nodup ∧ Walk E s dest path c ∧
      c.val ≤ x ∧ x ≤ c.val := by
  obtain ⟨x', hLx, rfl⟩ := Option.map_eq_some_iff.mp ((hd.dist dest).symm.trans hx)
  obtain ⟨l, c, hl, hlast, hwalk, hle⟩ := hs.exits hLx hne
  have hnd : (dest :: l).Nodup := hl.nodup hne
  have hk : (dest :: l).length ≤ k := hnd.length_le_card.trans_eq (Fintype.card_fin k)
  -- the label is no dearer than the walk it stands for
  obtain ⟨y, hy, hyc⟩ := hr dest _ c hwalk
    (WalkCost.finite_of_le _ _ hle (hs.finite dest x' hLx)) (by rw [List.length_reverse]; omega)
  obtain rfl : x' = y := Option.some.inj (hLx.symm.trans hy)
  refine ⟨(dest :: l).reverse, c, ?_, List.nodup_reverse.mpr hnd, hwalk, hle, hyc⟩
  have hfound : PredWalk.walk d.predAt s k k [dest] dest = some (dest :: l) := by
    rw [List.length_cons] at hk
    rw [show d.predAt = L.pred from funext hd.pred]
    exact hl.walk_eq hk (by rw [List.length_singleton]; omega)
  simp only [pathTo, hfound, hlast, if_true]

end Distances

/-! ### Over the graph -/

section Single
variable {F : Type} [F64 F] {g : AgentGraph F} {agents : List ℕ} {t : TaskType}
  {w : CostWeights F} {cm : CostModel F} {source : ℕ} {s : Fin agents.length}

/-- An arc between two local indices. -/
def Arc (g : AgentGraph F) (agents : List ℕ) (t : TaskType) (w : CostWeights F) (cm : CostModel F)
    (u v : Fin agents.length) (c : F) : Prop :=
  (u, v, c) ∈ arcs g agents (globalToLocal agents) t w cm

/-- A walk over the graph, in local indices. -/
theorem walk_local (hs : (globalToLocal agents).lookup source = some s) {v : ℕ} {p : List ℕ}
    {c : F} (h : Walk (Hop g agents t w cm) source v p c) (hv : v ≠ source) :
    ∃ l q, l ≠ s ∧ Walk (Arc g agents t w cm) s l q c := by
  obtain ⟨hget, hlisted⟩ := lookup_globalToLocal agents
  have hmap : Walk (Arc g agents t w cm) (((globalToLocal agents).lookup source).getD s)
      (((globalToLocal agents).lookup v).getD s)
      (p.map fun i => ((globalToLocal agents).lookup i).getD s) c := by
    refine h.map (fun i => ((globalToLocal agents).lookup i).getD s) fun i j c hhop => ?_
    obtain ⟨u, v, hu, hv, ha⟩ := mem_arcs_of_hop hhop
    rw [hu, hv]
    exact ha
  have hsource : source ∈ agents := hget source s hs ▸ List.get_mem agents s
  have hvmem : v ∈ agents :=
    h.forall hsource (fun _ _ _ hhop => hhop.2.1) v (List.mem_of_getLast? h.last)
  obtain ⟨l, hl⟩ := Option.isSome_iff_exists.mp (hlisted v hvmem)
  rw [hs, hl] at hmap
  refine ⟨l, _, ?_, hmap⟩
  rintro rfl
  exact hv ((hget v _ hl).symm.trans (hget source _ hs))

/-- A walk in local indices, over the graph. -/
theorem walk_global (hs : (globalToLocal agents).lookup source = some s) {l : Fin agents.length}
    {p : List (Fin agents.length)} {c : F} (h : Walk (Arc g agents t w cm) s l p c) (hl : l ≠ s) :
    Walk (Hop g agents t w cm) source (agents.get l) (p.map agents.get) c ∧
      agents.get l ≠ source ∧ (p.Nodup → (p.map agents.get).Nodup) := by
  have hsg : agents.get s = source := (lookup_globalToLocal agents).1 source s hs
  have hcanon : ∀ x ∈ p, (globalToLocal agents).lookup (agents.get x) = some x :=
    h.forall (by rw [hsg, hs]) fun _ _ _ he => (hop_of_mem_arcs he).2
  refine ⟨hsg ▸ h.map agents.get fun _ _ _ he => (hop_of_mem_arcs he).1, fun heq => hl ?_,
    fun hnd => hnd.map_on fun x hx y hy hxy => ?_⟩
  · have hlast := hcanon l (List.mem_of_getLast? h.last)
    rw [heq, hs] at hlast
    exact (Option.some.inj hlast).symm
  · have hxl := hcanon x hx
    rw [hxy, hcanon y hy] at hxl
    exact (Option.some.inj hxl).symm

theorem bellmanFordSingle_eq (hs : (globalToLocal agents).lookup source = some s) :
    let d := Distances.relaxRounds g agents (globalToLocal agents) t w cm (agents.length - 1)
      (Distances.init s)
    bellmanFordSingle g agents t source w cm = (d.bestDest s).bind fun b =>
      (d.pathTo s b.1).map fun path => (path.map agents.get, b.2) := by
  intro d
  rw [bellmanFordSingle, hs]
  cases hb : d.bestDest s <;> simp [d, hb] at hb ⊢

/-- Another listed agent that the source can reach at a finite cost. -/
def Reachable (g : AgentGraph F) (agents : List ℕ) (t : TaskType) (w : CostWeights F)
    (cm : CostModel F) (source : ℕ) : Prop :=
  ∃ v ∈ agents, v ≠ source ∧
    ∃ p c, Walk (Hop g agents t w cm) source v p c ∧ ltInfinity c = true

variable [RoundedF64 F]

/-- What the rounds leave: the distances represent labels that no walk of finite cost is below. -/
theorem exists_labels (s : Fin agents.length)
    (hcost : ∀ u v c, Hop g agents t w cm u v c → 0 ≤ c) :
    let d := Distances.relaxRounds g agents (globalToLocal agents) t w cm (agents.length - 1)
      (Distances.init s)
    ∃ L, d.Represents L ∧ L.Sound (fun u v c => Arc g agents t w cm u v c.val) s ∧
      L.Reach (fun u v c => Arc g agents t w cm u v c.val) s (agents.length - 1) := by
  have hplain : ∃ bs : List (Fin agents.length × Fin agents.length × Cost F),
      bs.map plain = arcs g agents (globalToLocal agents) t w cm :=
    exists_plain fun a ha => hcost _ _ _ (hop_of_mem_arcs ha).1
  obtain ⟨bs, hbs⟩ := hplain
  have hE : ∀ u v (c : Cost F), Arc g agents t w cm u v c.val ↔ (u, v, c) ∈ bs := by
    intro u v c
    rw [Arc, ← hbs]
    exact ⟨mem_of_plain_mem, fun h => List.mem_map_of_mem h⟩
  have hstart : (Labels.start s : Labels _ (Cost F)).Sound
    (fun u v c => Arc g agents t w cm u v c.val) s := Labels.start_sound
  obtain ⟨L, hd, hsound, hreach⟩ := Distances.relaxRounds_reach hbs hE (agents.length - 1) 0
    (Distances.represents_init s) hstart hstart.reach_zero
  rw [Nat.zero_add] at hreach
  exact ⟨L, hd, hsound, hreach⟩

/-- A run returns a path exactly when another listed agent can be reached at a finite cost. The path
    is simple, its hops are edges of the graph and sum to the cost it returns, and no walk to any
    other listed agent is cheaper. -/
theorem bellmanFordSingle_optimal (hsource : source ∈ agents)
    (hcost : ∀ u v c, Hop g agents t w cm u v c → 0 ≤ c) :
    ((bellmanFordSingle g agents t source w cm).isSome ↔ Reachable g agents t w cm source) ∧
      ∀ path cost, bellmanFordSingle g agents t source w cm = some (path, cost) →
        path.head? = some source ∧ path.Nodup ∧
          (∃ dest ∈ agents, dest ≠ source ∧ ∃ c, Walk (Hop g agents t w cm) source dest path c ∧
            ieeeEq c cost = true) ∧
          ∀ v ∈ agents, v ≠ source → ∀ p c, Walk (Hop g agents t w cm) source v p c → cost ≤ c := by
  obtain ⟨s, hs⟩ := Option.isSome_iff_exists.mp ((lookup_globalToLocal agents).2 source hsource)
  have hrun := @bellmanFordSingle_eq F _ g agents t w cm source s hs
  obtain ⟨L, hd, hsound, hreach⟩ := exists_labels s hcost
  generalize Distances.relaxRounds g agents (globalToLocal agents) t w cm (agents.length - 1)
    (Distances.init s) = d at hrun hd
  -- every walk of finite cost ends in an agent whose distance is no greater
  have hlabel : ∀ v p c, Walk (Hop g agents t w cm) source v p c → v ≠ source →
      ∃ c' : Cost F, c'.val = c ∧ (ltInfinity c = true →
        ∃ l x, l ≠ s ∧ d.distAt l = some x ∧ x ≤ c) := by
    intro v p c hwalk hv
    obtain ⟨l, q, hl, hlocal⟩ := walk_local hs hwalk hv
    have hlift : ∃ c' : Cost F, c'.val = c ∧
        Walk (fun u v (b : Cost F) => Arc g agents t w cm u v b.val) s l q c' :=
      hlocal.liftCost Cost.val rfl (fun _ _ => rfl) fun u v b he =>
        ⟨⟨b, hcost _ _ _ (hop_of_mem_arcs he).1⟩, rfl, he⟩
    obtain ⟨c', rfl, hwalk'⟩ := hlift
    refine ⟨c', rfl, fun hfin => ?_⟩
    obtain ⟨x, hx, hxc⟩ := Labels.Reach.all (by rwa [Fintype.card_fin]) hwalk' hfin
    exact ⟨l, x.val, hl, by rw [hd.dist, hx]; rfl, hxc⟩
  obtain ⟨hnone, hbest⟩ := Distances.bestDest_spec (hd.proper hsound) s
  rw [hrun]
  cases hb : d.bestDest s with
  | none =>
    refine ⟨⟨fun h => by simp at h, ?_⟩, by simp⟩
    rintro ⟨v, -, hv, p, c, hwalk, hfin⟩
    obtain ⟨-, -, hfound⟩ := hlabel v p c hwalk hv
    obtain ⟨l, x, hl, hx, -⟩ := hfound hfin
    rw [hnone hb l hl] at hx
    cases hx
  | some b =>
    obtain ⟨dest, x⟩ := b
    obtain ⟨hne, hx, hmin⟩ := hbest dest x hb
    obtain ⟨hx0, hxfin⟩ := hd.proper hsound dest x hx
    obtain ⟨path, c, hpath, hnd, hlocal, hcx, hxc⟩ := Distances.pathTo_spec hd hsound hreach hne hx
    obtain ⟨hwalk, hne', hnd'⟩ :=
      walk_global hs (hlocal.mapCost Cost.val rfl (fun _ _ => rfl) fun _ _ _ he => he) hne
    rw [Option.bind_some, hpath, Option.map_some]
    refine ⟨⟨fun _ => ⟨_, List.get_mem .., hne', _, c.val, hwalk,
      RoundedF64.ltInfinity_of_le _ _ hcx hxfin⟩, fun _ => rfl⟩, ?_⟩
    intro path' cost h
    obtain ⟨rfl, rfl⟩ := Prod.mk.injEq .. ▸ Option.some.inj h
    refine ⟨hwalk.head, hnd' hnd, ⟨_, List.get_mem .., hne', c.val, hwalk, ?_⟩, ?_⟩
    · rw [ieeeEq, Bool.and_eq_true, decide_eq_true_eq, decide_eq_true_eq]
      exact ⟨hcx, hxc⟩
    · intro v _ hv p c hw
      obtain ⟨c', rfl, hfound⟩ := hlabel v p c hw hv
      by_cases hfin : ltInfinity c'.val = true
      · obtain ⟨l, y, hl, hy, hyc⟩ := hfound hfin
        exact F64.le_trans (hmin l y hl hy) hyc
      · -- an infinite cost is above every finite one
        refine (OrderedF64.le_total _ _ (IsNum.of_le_right hx0)
          (IsNum.of_le_right c'.nonneg)).resolve_right fun hle => hfin ?_
        exact RoundedF64.ltInfinity_of_le _ _ hle hxfin

end Single

section Exact
variable {K : Type} [Field K] [LinearOrder K] [IsStrictOrderedRing K] [FloorRing K]
  {g : AgentGraph K} {agents : List ℕ} {t : TaskType} {w : CostWeights K} {cm : CostModel K}

/-- Weights, a reference and costs that are not negative make no hop negative. -/
theorem hop_nonneg (hw : w.NonNeg) (href : 0 ≤ cm.costRef)
    (hcaps : ∀ i ∈ agents, ∀ cap, (g.node i).bind (·.capabilityFor t) = some cap →
      0 ≤ cap.costPerTask) {u v : ℕ} {c : K} (h : Hop g agents t w cm u v c) : 0 ≤ c := by
  obtain ⟨-, hv, e, -, -, cap, hcap, rfl⟩ := h
  exact CostModel.weighted_nonneg hw href (hcaps v hv cap hcap)

/-- Two connected analysts, by cost alone: from the first the run reaches the second. -/
theorem bellmanFordSingle_optimal_twins :
    let g := EconomicRouter.twins.graph
    ((bellmanFordSingle g [0, 1] .analysis 0 ⟨0, 0, 1⟩ .default).isSome ↔
        Reachable g [0, 1] .analysis ⟨0, 0, 1⟩ .default 0) ∧
      bellmanFordSingle g [0, 1] .analysis 0 ⟨0, 0, 1⟩ .default = some ([0, 1], 3 / 10) := by
  intro g
  have hcaps : ∀ i ∈ [0, 1], ∀ cap, (g.node i).bind (·.capabilityFor .analysis) = some cap →
      0 ≤ cap.costPerTask := by
    intro i hi cap hcap
    simp only [List.mem_cons, List.not_mem_nil, or_false] at hi
    rcases hi with rfl | rfl
    all_goals
      obtain rfl := Option.some.inj hcap
      decide +kernel
  have hall := @bellmanFordSingle_optimal ℚ _ g [0, 1] .analysis ⟨0, 0, 1⟩ .default 0 _
    (by decide) fun u v c h =>
      hop_nonneg ⟨by decide, by decide, by decide⟩ (by decide +kernel) hcaps h
  exact ⟨hall.1, by decide +kernel⟩

end Exact

/-- Two connected analysts, on doubles. -/
def twinDoubles : AgentGraph Double :=
  (EconomicRouter.sample [(lit (8 / 10), ⟨.analysis, lit (7 / 10), Duration.millis 100, lit 1⟩),
    (lit (8 / 10), ⟨.analysis, lit (7 / 10), Duration.millis 100, lit 1⟩)]).graph

/-- Under an infinite weight an agent next to the source is as far away as one that cannot be
    reached. -/
theorem infinite_weight_hides_agent :
    let w : CostWeights Double := ⟨Double.infinity, lit 0, lit 0⟩
    (∀ u v c, Hop twinDoubles [0, 1] .analysis w .default u v c → 0 ≤ c) ∧
      (∃ p c, Walk (Hop twinDoubles [0, 1] .analysis w .default) 0 1 p c) ∧
      (bellmanFordSingle twinDoubles [0, 1] .analysis 0 w .default).isSome = false := by
  intro w
  have hcosts : ∀ u ∈ [0, 1], ∀ e ∈ twinDoubles.edgesFrom u,
      ((twinDoubles.node e.toIdx).bind (·.capabilityFor .analysis)).all (fun cap =>
        decide (0 ≤ CostModel.scalarEdgeCost .default cap e.transferLatency w)) = true := by
    decide +kernel
  have hedge : ∃ e ∈ twinDoubles.edgesFrom 0, e.toIdx = 1 := by decide +kernel
  have hcapable : ((twinDoubles.node 1).bind (·.capabilityFor .analysis)).isSome = true := by
    decide +kernel
  refine ⟨?_, ?_, by decide +kernel⟩
  · rintro u v c ⟨hu, -, e, he, rfl, cap, hcap, rfl⟩
    have hall := hcosts u hu e he
    rw [hcap, Option.all_some] at hall
    exact of_decide_eq_true hall
  · obtain ⟨e, he, hto⟩ := hedge
    obtain ⟨cap, hcap⟩ := Option.isSome_iff_exists.mp hcapable
    exact ⟨_, _, .step .start ⟨by decide, by decide, e, he, hto, cap, hcap, rfl⟩⟩

end ATP
