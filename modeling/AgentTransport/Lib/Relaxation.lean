import AgentTransport.Lib.PredWalk
import Mathlib.Data.Fintype.Card

/-! Shortest walks by relaxation, for any arcs and any non-negative costs. The sums may be rounded:
    all that is asked of them is that an arc makes no walk cheaper, and that a cheaper walk stays
    cheaper over the same arc.

    A label holds the cost of some walk from the source, and the node before the last. Relaxing an
    arc lowers the label at its head when the arc gives a cheaper walk:

        dist u + w < dist v   ─▶   dist v := dist u + w,  pred v := u

    One round relaxes every arc. After `n` rounds no walk of `n` arcs is cheaper than the labels,
    and a simple walk has fewer arcs than there are nodes. Arcs of cost zero are why the
    predecessors need an argument: a label is replaced only by a strictly smaller one, so the new
    predecessor does not come after the node it is set for. A node without a label is at infinity,
    and stays there while its walks cost infinitely much. -/

namespace Relaxation
variable {V C : Type}

/-- What walks may cost: a total order up to ties, with `0` below everything. -/
class WalkCost (C : Type) extends Preorder C, Zero C, Add C where
  /-- Below infinity. -/
  Finite : C → Prop
  decidableFinite : DecidablePred Finite
  decidableLT : DecidableLT C
  le_total : ∀ a b : C, a ≤ b ∨ b ≤ a
  zero_le : ∀ a : C, 0 ≤ a
  le_add : ∀ a w : C, a ≤ a + w
  add_le_add : ∀ a b w : C, a ≤ b → a + w ≤ b + w
  finite_zero : Finite 0
  finite_of_le : ∀ a b : C, a ≤ b → Finite b → Finite a

/-- A walk from `s` along the arcs: its end, the nodes it visits, and what it costs. -/
inductive Walk [Zero C] [Add C] (E : V → V → C → Prop) (s : V) : V → List V → C → Prop
  | start : Walk E s s [s] 0
  | step {u v : V} {p : List V} {c w : C} : Walk E s u p c → E u v w → Walk E s v (p ++ [v]) (c + w)

section Walk
variable [Zero C] [Add C] {E : V → V → C → Prop} {s v : V} {p : List V} {c : C}

theorem Walk.head (h : Walk E s v p c) : p.head? = some s := by
  induction h with
  | start => rfl
  | step _ _ ih => rw [List.head?_append, ih, Option.some_or]

theorem Walk.last (h : Walk E s v p c) : p.getLast? = some v := by
  cases h with
  | start => rfl
  | step _ _ => exact List.getLast?_concat

/-- A map that carries arcs to arcs carries walks to walks. -/
theorem Walk.map {W : Type} {E' : W → W → C → Prop} (f : V → W)
    (hE : ∀ u v w, E u v w → E' (f u) (f v) w) (h : Walk E s v p c) :
    Walk E' (f s) (f v) (p.map f) c := by
  induction h with
  | start => exact .start
  | step _ he ih =>
    rw [List.map_append]
    exact .step ih (hE _ _ _ he)

/-- A map of the costs that keeps their sums carries walks to walks. -/
theorem Walk.mapCost {D : Type} [Zero D] [Add D] {E' : V → V → D → Prop} (f : C → D)
    (hzero : f 0 = 0) (hadd : ∀ a b, f (a + b) = f a + f b)
    (hE : ∀ u v w, E u v w → E' u v (f w)) (h : Walk E s v p c) : Walk E' s v p (f c) := by
  induction h with
  | start =>
    rw [hzero]
    exact .start
  | step _ he ih =>
    rw [hadd]
    exact .step ih (hE _ _ _ he)

/-- Walks whose arcs have costs in the image of such a map come from walks. -/
theorem Walk.liftCost {D : Type} [Zero D] [Add D] {E' : V → V → D → Prop} (f : D → C)
    (hzero : f 0 = 0) (hadd : ∀ a b, f (a + b) = f a + f b)
    (hE : ∀ u v w, E u v w → ∃ w', f w' = w ∧ E' u v w') (h : Walk E s v p c) :
    ∃ c', f c' = c ∧ Walk E' s v p c' := by
  induction h with
  | start => exact ⟨0, hzero, .start⟩
  | step _ he ih =>
    obtain ⟨c', rfl, hwalk⟩ := ih
    obtain ⟨w', rfl, he'⟩ := hE _ _ _ he
    exact ⟨c' + w', hadd c' w', .step hwalk he'⟩

/-- What holds of the source and of the heads of all arcs holds along a walk. -/
theorem Walk.forall {P : V → Prop} (hs : P s) (hE : ∀ u v w, E u v w → P v)
    (h : Walk E s v p c) : ∀ x ∈ p, P x := by
  induction h with
  | start => simpa using hs
  | step _ he ih =>
    intro x hx
    rcases List.mem_append.mp hx with hx | hx
    · exact ih x hx
    · rw [List.mem_singleton.mp hx]
      exact hE _ _ _ he

end Walk

/-- The cost found so far for each node, and the node before it. -/
structure Labels (V C : Type) where
  dist : V → Option C
  pred : V → Option V

section Labels
variable [WalkCost C]

theorem WalkCost.le_of_not_lt {a b : C} (h : ¬ a < b) : b ≤ a := by
  by_contra hba
  exact h (lt_iff_le_not_ge.mpr ⟨(le_total a b).resolve_right hba, hba⟩)

/-- The labels of `d'` are at most those of `d`. -/
def Labels.Le (d' d : Labels V C) : Prop :=
  ∀ v x, d.dist v = some x → ∃ y, d'.dist v = some y ∧ y ≤ x

theorem Labels.Le.refl (d : Labels V C) : d.Le d := fun _ x h => ⟨x, h, le_rfl⟩

theorem Labels.Le.trans {d d' d'' : Labels V C} (h : d''.Le d') (h' : d'.Le d) : d''.Le d := by
  intro v x hx
  obtain ⟨y, hy, hyx⟩ := h' v x hx
  obtain ⟨z, hz, hzy⟩ := h v y hy
  exact ⟨z, hz, hzy.trans hyx⟩

/-- A cost is below a label, which is infinite for a node that was not reached. -/
def Improves (c : C) : Option C → Prop
  | none => WalkCost.Finite c
  | some x => c < x

instance Improves.decidable (c : C) : ∀ d : Option C, Decidable (Improves c d)
  | none => WalkCost.decidableFinite c
  | some x => WalkCost.decidableLT c x

theorem Improves.lt {c x : C} {d : Option C} (h : Improves c d) (hx : d = some x) : c < x := by
  rw [hx] at h
  exact h

/-- What is no improvement of a label, and finite, is not below it. -/
theorem le_of_not_improves {c : C} {d : Option C} (h : ¬ Improves c d) (hc : WalkCost.Finite c) :
    ∃ y, d = some y ∧ y ≤ c := by
  cases d with
  | none => exact absurd hc h
  | some y => exact ⟨y, rfl, WalkCost.le_of_not_lt h⟩

variable [DecidableEq V]

/-- Set the label of a node, and the node before it. -/
def Labels.set (d : Labels V C) (v : V) (c : C) (u : V) : Labels V C :=
  ⟨fun z => if z = v then some c else d.dist z, fun z => if z = v then some u else d.pred z⟩

omit [WalkCost C] in
theorem Labels.set_dist (d : Labels V C) (v : V) (c : C) (u z : V) :
    (d.set v c u).dist z = if z = v then some c else d.dist z := rfl

omit [WalkCost C] in
theorem Labels.set_pred (d : Labels V C) (v : V) (c : C) (u z : V) :
    (d.set v c u).pred z = if z = v then some u else d.pred z := rfl

/-- Only the source is reached, at no cost. -/
def Labels.start (s : V) : Labels V C := ⟨fun z => if z = s then some 0 else none, fun _ => none⟩

theorem Labels.start_dist (s v : V) :
    (start s : Labels V C).dist v = if v = s then some 0 else none := rfl

/-- Relax the arc from `u` to `v` of cost `w`. -/
def Labels.relax (d : Labels V C) (u v : V) (w : C) : Labels V C :=
  match d.dist u with
  | none => d
  | some x => if Improves (x + w) (d.dist v) then d.set v (x + w) u else d

/-- A relaxation does nothing, or finds a cheaper walk to the head of the arc. -/
theorem Labels.relax_cases (d : Labels V C) (u v : V) (w : C) :
    (d.relax u v w = d ∧ ∀ x, d.dist u = some x → WalkCost.Finite (x + w) →
      ∃ y, d.dist v = some y ∧ y ≤ x + w) ∨
    ∃ x, d.dist u = some x ∧ Improves (x + w) (d.dist v) ∧ d.relax u v w = d.set v (x + w) u := by
  cases hu : d.dist u with
  | none => exact Or.inl ⟨by rw [relax, hu], by simp⟩
  | some x =>
    by_cases himp : Improves (x + w) (d.dist v)
    · exact Or.inr ⟨x, rfl, himp, by simp only [relax, hu, if_pos himp]⟩
    · refine Or.inl ⟨by simp only [relax, hu, if_neg himp], ?_⟩
      intro x' hx' hfin
      obtain rfl := Option.some.inj hx'
      exact le_of_not_improves himp hfin

/-! ### Labels only get better -/

/-- Relaxing an arc keeps the labels at most what they were, and leaves no gain on the arc. -/
theorem Labels.relax_le (d : Labels V C) (u v : V) (w : C) : (d.relax u v w).Le d := by
  rcases d.relax_cases u v w with ⟨heq, -⟩ | ⟨x, -, himp, heq⟩
  · rw [heq]
    exact Le.refl d
  · intro z y hy
    rw [heq, set_dist]
    rcases eq_or_ne z v with rfl | hne
    · exact ⟨x + w, if_pos rfl, (himp.lt hy).le⟩
    · exact ⟨y, by rw [if_neg hne, hy], le_rfl⟩

theorem Labels.relax_head {d : Labels V C} {u v : V} {w x : C} (hx : d.dist u = some x)
    (hfin : WalkCost.Finite (x + w)) : ∃ y, (d.relax u v w).dist v = some y ∧ y ≤ x + w := by
  rcases d.relax_cases u v w with ⟨heq, hle⟩ | ⟨x', hx', -, heq⟩
  · rw [heq]
    exact hle x hx hfin
  · obtain rfl := Option.some.inj (hx.symm.trans hx')
    rw [heq, set_dist, if_pos rfl]
    exact ⟨x + w, rfl, le_rfl⟩

/-- Relax arcs one after the other. -/
def Labels.relaxArcs (d : Labels V C) (arcs : List (V × V × C)) : Labels V C :=
  arcs.foldl (fun d a => d.relax a.1 a.2.1 a.2.2) d

theorem Labels.relaxArcs_le (arcs : List (V × V × C)) : ∀ d : Labels V C,
    (d.relaxArcs arcs).Le d := by
  induction arcs with
  | nil => exact Le.refl
  | cons a arcs ih => exact fun d => (ih _).trans (d.relax_le a.1 a.2.1 a.2.2)

/-- Arcs out of a node that was not reached change nothing. -/
theorem Labels.relaxArcs_unreached {d : Labels V C} {u : V} {arcs : List (V × V × C)}
    (harcs : ∀ a ∈ arcs, a.1 = u) (hu : d.dist u = none) : d.relaxArcs arcs = d := by
  induction arcs with
  | nil => rfl
  | cons a arcs ih =>
    have hfirst : d.relax a.1 a.2.1 a.2.2 = d := by
      rw [relax, harcs a List.mem_cons_self, hu]
    rw [relaxArcs, List.foldl_cons, hfirst]
    exact ih fun b hb => harcs b (List.mem_cons_of_mem a hb)

/-- After a round no arc gains anything on the labels before it. -/
theorem Labels.relaxArcs_head {arcs : List (V × V × C)} {u v : V} {w : C}
    (ha : (u, v, w) ∈ arcs) : ∀ {d : Labels V C} {x : C}, d.dist u = some x →
      WalkCost.Finite (x + w) → ∃ y, (d.relaxArcs arcs).dist v = some y ∧ y ≤ x + w := by
  induction arcs with
  | nil => simp at ha
  | cons a arcs ih =>
    intro d x hx hfin
    rcases List.mem_cons.mp ha with rfl | ha
    · obtain ⟨y, hy, hyx⟩ := relax_head hx hfin
      obtain ⟨z, hz, hzy⟩ := relaxArcs_le arcs _ v y hy
      exact ⟨z, hz, hzy.trans hyx⟩
    · obtain ⟨x', hx', hle⟩ := d.relax_le a.1 a.2.1 a.2.2 u x hx
      have hsum : x' + w ≤ x + w := WalkCost.add_le_add x' x w hle
      obtain ⟨y, hy, hyx⟩ := ih ha hx' (WalkCost.finite_of_le _ _ hsum hfin)
      exact ⟨y, hy, hyx.trans hsum⟩

/-! ### What the labels stand for -/

/-- The predecessors lead from a node back to the source. -/
inductive Rooted (pred : V → Option V) (s : V) : V → Prop
  | root : Rooted pred s s
  | step {u v : V} : pred v = some u → Rooted pred s u → Rooted pred s v

/-- What every relaxation keeps, from the start on. -/
structure Labels.Sound (E : V → V → C → Prop) (s : V) (d : Labels V C) : Prop where
  source : d.dist s = some 0
  sourcePred : d.pred s = none
  finite : ∀ v x, d.dist v = some x → WalkCost.Finite x
  unreached : ∀ v, d.dist v = none → d.pred v = none
  tree : ∀ v x, v ≠ s → d.dist v = some x → ∃ u y w, d.pred v = some u ∧ d.dist u = some y ∧
    E u v w ∧ y + w ≤ x
  rooted : ∀ v x, d.dist v = some x → Rooted d.pred s v

variable {E : V → V → C → Prop} {s : V}

theorem Labels.start_sound : (start s : Labels V C).Sound E s where
  source := if_pos rfl
  sourcePred := rfl
  finite v x hx := by
    rw [start_dist] at hx
    split at hx
    · obtain rfl := Option.some.inj hx
      exact WalkCost.finite_zero
    · cases hx
  unreached _ _ := rfl
  tree v x hv hx := by
    rw [start_dist, if_neg hv] at hx
    cases hx
  rooted v x hx := by
    rcases eq_or_ne v s with rfl | hv
    · exact .root
    · rw [start_dist, if_neg hv] at hx
      cases hx

omit [DecidableEq V] in
/-- The arc into a node on its way back to the source. -/
theorem Labels.Sound.step {d : Labels V C} (h : d.Sound E s) {u v : V} (hp : d.pred v = some u) :
    ∃ x y w, d.dist v = some x ∧ d.dist u = some y ∧ E u v w ∧ y + w ≤ x := by
  have hvs : v ≠ s := by
    rintro rfl
    rw [h.sourcePred] at hp
    cases hp
  cases hd : d.dist v with
  | none =>
    rw [h.unreached v hd] at hp
    cases hp
  | some x =>
    obtain ⟨u', y, w, hp', hy, he, hle⟩ := h.tree v x hvs hd
    obtain rfl := Option.some.inj (hp.symm.trans hp')
    exact ⟨x, y, w, rfl, hy, he, hle⟩

section Sound
variable {d : Labels V C}

omit [WalkCost C] [DecidableEq V] in
/-- Nodes stay rooted when one of them gets another way back to the root. -/
theorem Rooted.redirect {pred pred' : V → Option V} {v z : V} (hz : Rooted pred s z)
    (hv : Rooted pred' s v) (hother : ∀ a, a ≠ v → pred' a = pred a) : Rooted pred' s z := by
  induction hz with
  | root => exact .root
  | @step y z hp _ ih =>
    rcases eq_or_ne z v with rfl | hzv
    · exact hv
    · exact .step (by rw [hother z hzv, hp]) ih

/-- Setting the label of a node leaves the way back of every node below its old label. -/
theorem Labels.Sound.rooted_set (h : d.Sound E s) {v z : V} {b : C} (hv : Improves b (d.dist v))
    (hz : Rooted d.pred s z) (hb : ∀ x, d.dist z = some x → x ≤ b) (c : C) (u : V) :
    Rooted (d.set v c u).pred s z := by
  induction hz with
  | root => exact .root
  | @step y z hp _ ih =>
    obtain ⟨x, y', w, hx, hy, he, hle⟩ := h.step hp
    have hzv : z ≠ v := by
      rintro rfl
      exact (hv.lt hx).not_ge (hb x hx)
    refine .step (by rw [set_pred, if_neg hzv, hp]) (ih fun c' hc' => ?_)
    obtain rfl := Option.some.inj (hy.symm.trans hc')
    exact (WalkCost.le_add y' w).trans (hle.trans (hb x hx))

/-- A cheaper walk to a node, over an arc, replaces its label. -/
theorem Labels.Sound.set (h : d.Sound E s) {u v : V} {x w : C} (hx : d.dist u = some x)
    (himp : Improves (x + w) (d.dist v)) (he : E u v w) : (d.set v (x + w) u).Sound E s := by
  have hxw : x ≤ x + w := WalkCost.le_add x w
  have hvs : v ≠ s := by
    rintro rfl
    exact (himp.lt h.source).not_ge (WalkCost.zero_le _)
  have huv : u ≠ v := by
    rintro rfl
    exact (himp.lt hx).not_ge hxw
  have hfin : WalkCost.Finite (x + w) := by
    cases hd : d.dist v with
    | none =>
      rw [hd] at himp
      exact himp
    | some y => exact WalkCost.finite_of_le _ _ (himp.lt hd).le (h.finite v y hd)
  -- the new predecessor is below the new label, so its way back does not pass the node
  have hu : Rooted (d.set v (x + w) u).pred s u :=
    h.rooted_set himp (h.rooted u x hx) (fun y hy => by
      obtain rfl := Option.some.inj (hx.symm.trans hy)
      exact hxw) (x + w) u
  have hv : Rooted (d.set v (x + w) u).pred s v := .step (by rw [set_pred, if_pos rfl]) hu
  refine ⟨?_, ?_, fun z y hy => ?_, fun z hz => ?_, fun z y hzs hy => ?_, fun z y hy => ?_⟩
  · rw [set_dist, if_neg hvs.symm, h.source]
  · rw [set_pred, if_neg hvs.symm, h.sourcePred]
  · rcases eq_or_ne z v with rfl | hzv
    · rw [set_dist, if_pos rfl] at hy
      obtain rfl := Option.some.inj hy
      exact hfin
    · rw [set_dist, if_neg hzv] at hy
      exact h.finite z y hy
  · rcases eq_or_ne z v with rfl | hzv
    · rw [set_dist, if_pos rfl] at hz
      cases hz
    · rw [set_dist, if_neg hzv] at hz
      rw [set_pred, if_neg hzv, h.unreached z hz]
  · rcases eq_or_ne z v with rfl | hzv
    · rw [set_dist, if_pos rfl] at hy
      obtain rfl := Option.some.inj hy
      refine ⟨u, x, w, ?_, ?_, he, le_rfl⟩
      · rw [set_pred, if_pos rfl]
      · rw [set_dist, if_neg huv, hx]
    · rw [set_dist, if_neg hzv] at hy
      obtain ⟨a, c, w', hp, hc, he', hle⟩ := h.tree z y hzs hy
      have hp' : (d.set v (x + w) u).pred z = some a := by rw [set_pred, if_neg hzv, hp]
      rcases eq_or_ne a v with rfl | hav
      · have hlow : x + w + w' ≤ c + w' := WalkCost.add_le_add _ _ w' (himp.lt hc).le
        exact ⟨a, x + w, w', hp', by rw [set_dist, if_pos rfl], he', hlow.trans hle⟩
      · exact ⟨a, c, w', hp', by rw [set_dist, if_neg hav, hc], he', hle⟩
  · rcases eq_or_ne z v with rfl | hzv
    · exact hv
    · rw [set_dist, if_neg hzv] at hy
      exact (h.rooted z y hy).redirect hv fun a ha => by rw [set_pred, if_neg ha]

theorem Labels.Sound.relax (h : d.Sound E s) {u v : V} {w : C} (he : E u v w) :
    (d.relax u v w).Sound E s := by
  rcases d.relax_cases u v w with ⟨heq, -⟩ | ⟨x, hx, himp, heq⟩
  · rw [heq]
    exact h
  · rw [heq]
    exact h.set hx himp he

theorem Labels.Sound.relaxArcs {arcs : List (V × V × C)} (harcs : ∀ a ∈ arcs, E a.1 a.2.1 a.2.2) :
    ∀ {d : Labels V C}, d.Sound E s → (d.relaxArcs arcs).Sound E s := by
  induction arcs with
  | nil => exact fun h => h
  | cons a arcs ih =>
    intro d h
    exact ih (fun b hb => harcs b (List.mem_cons_of_mem a hb))
      (h.relax (harcs a List.mem_cons_self))

omit [DecidableEq V] in
/-- Reading the predecessors back from a node gives a walk to it, no dearer than its label. -/
theorem Labels.Sound.exits (h : d.Sound E s) {v : V} {x : C} (hx : d.dist v = some x)
    (hv : v ≠ s) : ∃ l c, PredWalk.Exits d.pred s v l ∧ (v :: l).getLast? = some s ∧
      Walk E s v (v :: l).reverse c ∧ c ≤ x := by
  have hroot := h.rooted v x hx
  induction hroot generalizing x with
  | root => exact absurd rfl hv
  | @step u v hp _ ih =>
    obtain ⟨x', y, w, hx', hy, he, hle⟩ := h.step hp
    obtain rfl := Option.some.inj (hx.symm.trans hx')
    rcases eq_or_ne u s with rfl | hu
    · refine ⟨[u], 0 + w, .hit hp, rfl, .step .start he, ?_⟩
      obtain rfl := Option.some.inj (h.source.symm.trans hy)
      exact hle
    · obtain ⟨l, c, hl, hlast, hwalk, hc⟩ := ih hy hu
      refine ⟨u :: l, c + w, .push hp hu hl, ?_, ?_, (WalkCost.add_le_add c y w hc).trans hle⟩
      · rw [List.getLast?_cons_cons]
        exact hlast
      · rw [List.reverse_cons]
        exact .step hwalk he

end Sound

/-! ### How many rounds it takes -/

section Rounds
variable {d d' : Labels V C}

/-- No walk of at most `n` arcs is cheaper than the labels. -/
def Labels.Reach (E : V → V → C → Prop) (s : V) (n : ℕ) (d : Labels V C) : Prop :=
  ∀ v p c, Walk E s v p c → WalkCost.Finite c → p.length ≤ n + 1 →
    ∃ x, d.dist v = some x ∧ x ≤ c

omit [DecidableEq V] in
theorem Labels.Sound.reach_zero (h : d.Sound E s) : d.Reach E s 0 := by
  intro v p c hwalk _ hlen
  cases hwalk with
  | start => exact ⟨0, h.source, le_rfl⟩
  | @step u _ p _ _ hp _ =>
    have hne : p ≠ [] := by
      rintro rfl
      have := hp.head
      cases this
    have := List.length_pos_of_ne_nil hne
    rw [List.length_append, List.length_singleton] at hlen
    omega

/-- A round that relaxes every arc makes good one more arc. -/
theorem Labels.Reach.round {n : ℕ} {arcs : List (V × V × C)}
    (harcs : ∀ u v w, E u v w → (u, v, w) ∈ arcs) (hs : d.dist s = some 0) (h : d.Reach E s n) :
    (d.relaxArcs arcs).Reach E s (n + 1) := by
  intro v p c hwalk hfin hlen
  cases hwalk with
  | start => exact relaxArcs_le arcs d s 0 hs
  | @step u _ p c w hp he =>
    rw [List.length_append, List.length_singleton] at hlen
    have hc : WalkCost.Finite c := WalkCost.finite_of_le _ _ (WalkCost.le_add c w) hfin
    obtain ⟨x, hx, hxc⟩ := h u p c hp hc (by omega)
    have hsum : x + w ≤ c + w := WalkCost.add_le_add x c w hxc
    obtain ⟨y, hy, hyx⟩ := relaxArcs_head (harcs u v w he) hx
      (WalkCost.finite_of_le _ _ hsum hfin)
    exact ⟨y, hy, hyx.trans hsum⟩

/-- After a round that changed nothing no walk at all is cheaper. -/
theorem Labels.reach_of_fixed {arcs : List (V × V × C)}
    (harcs : ∀ u v w, E u v w → (u, v, w) ∈ arcs) (hs : d.Sound E s)
    (hfix : d.relaxArcs arcs = d) (n : ℕ) : d.Reach E s n := by
  induction n with
  | zero => exact hs.reach_zero
  | succ n ih =>
    rw [← hfix]
    exact ih.round harcs hs.source

omit [DecidableEq V] in
/-- The part of a walk that ends in a node on it. -/
theorem Walk.upTo {v : V} {p : List V} {c : C} (h : Walk E s v p c) :
    ∀ x ∈ p, ∃ q b, Walk E s x q b ∧ q.Sublist p ∧ b ≤ c := by
  induction h with
  | start =>
    intro x hx
    rw [List.mem_singleton.mp hx]
    exact ⟨[s], 0, .start, List.Sublist.refl _, le_rfl⟩
  | @step u v p c w hp he ih =>
    intro x hx
    rcases List.mem_append.mp hx with hx | hx
    · obtain ⟨q, b, hq, hsub, hle⟩ := ih x hx
      exact ⟨q, b, hq, hsub.trans (List.sublist_append_left _ _),
        hle.trans (WalkCost.le_add c w)⟩
    · rw [List.mem_singleton.mp hx]
      exact ⟨p ++ [v], c + w, .step hp he, List.Sublist.refl _, le_rfl⟩

omit [DecidableEq V] in
/-- Cutting its loops out makes a walk simple, and no dearer. -/
theorem Walk.exists_nodup {v : V} {p : List V} {c : C} (h : Walk E s v p c) :
    ∃ q b, Walk E s v q b ∧ q.Nodup ∧ b ≤ c := by
  classical
  induction h with
  | start => exact ⟨[s], 0, .start, List.nodup_singleton s, le_rfl⟩
  | @step u v p c w hp he ih =>
    obtain ⟨q, b, hq, hnd, hle⟩ := ih
    by_cases hv : v ∈ q
    · obtain ⟨q', b', hq', hsub, hle'⟩ := hq.upTo v hv
      exact ⟨q', b', hq', hsub.nodup hnd, (hle'.trans hle).trans (WalkCost.le_add c w)⟩
    · refine ⟨q ++ [v], b + w, .step hq he, ?_, WalkCost.add_le_add b c w hle⟩
      rw [List.nodup_append]
      refine ⟨hnd, List.nodup_singleton v, ?_⟩
      rintro a ha b hb rfl
      exact hv (List.mem_singleton.mp hb ▸ ha)

omit [DecidableEq V] in
/-- With fewer rounds than nodes, no walk is cheaper than the labels. -/
theorem Labels.Reach.all [Fintype V] (h : d.Reach E s (Fintype.card V - 1)) {v : V} {p : List V}
    {c : C} (hwalk : Walk E s v p c) (hfin : WalkCost.Finite c) :
    ∃ x, d.dist v = some x ∧ x ≤ c := by
  obtain ⟨q, b, hq, hnd, hle⟩ := hwalk.exists_nodup
  have hlen : q.length ≤ Fintype.card V := hnd.length_le_card
  obtain ⟨x, hx, hxb⟩ := h v q b hq (WalkCost.finite_of_le b c hle hfin) (by omega)
  exact ⟨x, hx, hxb.trans hle⟩

end Rounds
end Labels
end Relaxation
