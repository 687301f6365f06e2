import AgentTransport.Lib.Collections
import AgentTransport.Lib.StableSort
import Mathlib.Data.List.Sort

/-! Lists sorted by a cost, up to the order of ties. A sorted list is its groups of equal cost, one
    after the other:

        elements below c ++ the group of c ++ elements above c

    so two sorted lists of the same elements differ only within a group, and keeping the first
    element of each key takes as many elements from a group in one as in the other. -/

namespace Collections
variable {α κ C : Type} [LinearOrder C] {cost : α → C}

/-- The list is sorted by cost. -/
def Sorted (cost : α → C) (l : List α) : Prop := l.Pairwise fun a b => cost a ≤ cost b

/-- The elements of one cost, in their order. -/
def group (cost : α → C) (c : C) (l : List α) : List α := l.filter fun a => cost a = c

/-- The elements below a cost, in their order. -/
def below (cost : α → C) (c : C) (l : List α) : List α := l.filter fun a => cost a < c

/-- The elements above a cost, in their order. -/
def above (cost : α → C) (c : C) (l : List α) : List α := l.filter fun a => c < cost a

section Group

@[simp] theorem mem_group {c : C} {l : List α} {a : α} :
    a ∈ group cost c l ↔ a ∈ l ∧ cost a = c := by
  simp [group]

@[simp] theorem mem_below {c : C} {l : List α} {a : α} :
    a ∈ below cost c l ↔ a ∈ l ∧ cost a < c := by
  simp [below]

@[simp] theorem mem_above {c : C} {l : List α} {a : α} :
    a ∈ above cost c l ↔ a ∈ l ∧ c < cost a := by
  simp [above]

theorem group_append (c : C) (l l' : List α) :
    group cost c (l ++ l') = group cost c l ++ group cost c l' := List.filter_append ..

theorem group_eq_nil {c : C} {l : List α} (h : ∀ a ∈ l, cost a ≠ c) : group cost c l = [] :=
  List.filter_eq_nil_iff.mpr fun a ha hc => h a ha (of_decide_eq_true hc)

/-- A stable sort keeps the order of elements that may stay as they are. -/
theorem filter_insertionSort {r : α → α → Prop} [DecidableRel r] {p : α → Bool}
    (h : ∀ a b, p a = true → p b = true → r a b) (l : List α) :
    (l.insertionSort r).filter p = l.filter p := by
  have hinsert : ∀ (a : α) (s : List α), (s.orderedInsert r a).filter p = (a :: s).filter p := by
    intro a s
    induction s with
    | nil => rfl
    | cons b s ih =>
      by_cases hab : r a b
      · rw [List.orderedInsert_cons_of_le _ _ hab]
      · rw [List.orderedInsert_of_not_le _ _ hab]
        -- the element goes behind `b`, which is of another kind
        have hkind : p a = false ∨ p b = false := by
          by_contra hboth
          simp only [not_or, Bool.not_eq_false] at hboth
          exact hab (h a b hboth.1 hboth.2)
        rw [List.filter_cons, ih]
        rcases hkind with hk | hk
        · simp [List.filter_cons, hk]
        · simp [List.filter_cons, hk]
  induction l with
  | nil => rfl
  | cons a l ih => rw [List.insertionSort_cons, hinsert, List.filter_cons, List.filter_cons, ih]

/-- A sorted list falls into what is below a cost, its group, and what is above. -/
theorem Sorted.split {l : List α} (h : Sorted cost l) (c : C) :
    l = below cost c l ++ group cost c l ++ above cost c l := by
  induction l with
  | nil => rfl
  | cons a l ih =>
    obtain ⟨hle, hsorted⟩ := List.pairwise_cons.mp h
    have ih := ih hsorted
    simp only [below, group, above] at ih ⊢
    rcases lt_trichotomy (cost a) c with hlt | heq | hgt
    · simpa [List.filter_cons, hlt, hlt.ne, hlt.not_gt] using ih
    · have hnone : l.filter (fun b => cost b < c) = [] :=
        List.filter_eq_nil_iff.mpr fun b hb => by simpa [heq] using hle b hb
      rw [hnone] at ih
      simpa [List.filter_cons, heq, hnone] using ih
    · have hnone : l.filter (fun b => cost b < c) = [] :=
        List.filter_eq_nil_iff.mpr fun b hb => by simpa using (hgt.trans_le (hle b hb)).le
      have hnone' : l.filter (fun b => cost b = c) = [] :=
        List.filter_eq_nil_iff.mpr fun b hb => by simpa using (hgt.trans_le (hle b hb)).ne'
      rw [hnone, hnone'] at ih
      simpa [List.filter_cons, hgt, hgt.ne', hgt.not_gt, hnone, hnone'] using ih

/-- Sorted lists of the same costs have them at the same places. -/
theorem Sorted.map_eq {β : Type} {cost' : β → C} {l : List α} {l' : List β} (h : Sorted cost l)
    (h' : Sorted cost' l') (hperm : (l.map cost).Perm (l'.map cost')) :
    l.map cost = l'.map cost' :=
  List.Perm.eq_of_pairwise (fun _ _ _ _ hab hba => le_antisymm hab hba)
    (List.pairwise_map.mpr h) (List.pairwise_map.mpr h') hperm

/-- Lists with the same costs place by place have the same elements where the groups agree. -/
theorem forall₂_of_groups {T : C → Prop} : ∀ {l l' : List α}, l.map cost = l'.map cost →
    (∀ c, ¬ T c → group cost c l = group cost c l') →
    List.Forall₂ (fun a b => cost a = cost b ∧ (¬ T (cost a) → a = b)) l l'
  | [], [], _, _ => .nil
  | [], b :: l', hcost, _ => by simp at hcost
  | a :: l, [], hcost, _ => by simp at hcost
  | a :: l, b :: l', hcost, hgroup => by
    simp only [List.map_cons, List.cons.injEq] at hcost
    obtain ⟨hab, hcost⟩ := hcost
    have hhead : ∀ c, ¬ T c → (cost a = c → a = b) ∧ group cost c l = group cost c l' := by
      intro c hc
      have hfilter := hgroup c hc
      simp only [group, List.filter_cons, ← hab] at hfilter
      by_cases hac : cost a = c
      · simp only [hac, decide_true, if_true, List.cons.injEq] at hfilter
        exact ⟨fun _ => hfilter.1, hfilter.2⟩
      · simp only [hac, decide_false, Bool.false_eq_true, if_false] at hfilter
        exact ⟨fun h => absurd h hac, hfilter⟩
    exact .cons ⟨hab, fun hT => (hhead _ hT).1 rfl⟩
      (forall₂_of_groups hcost fun c hc => (hhead c hc).2)

/-- A sorted list is determined by its groups. -/
theorem Sorted.eq_of_groups {l l' : List α} (h : Sorted cost l) (h' : Sorted cost l')
    (hgroup : ∀ c, group cost c l = group cost c l') : l = l' := by
  have hperm : l.Perm l' := perm_of_filter_eq cost hgroup
  have hall := forall₂_of_groups (T := fun _ => False) (h.map_eq h' (hperm.map cost))
    fun c _ => hgroup c
  exact List.forall₂_eq_eq_eq ▸ hall.imp fun a b hab => hab.2 not_false

end Group

section Retain
variable [DecidableEq κ] {key : α → κ}

/-- What was seen matters only as a set. -/
theorem retainNew_congr : ∀ (l : List α) {seen seen' : List κ}, (∀ k, k ∈ seen ↔ k ∈ seen') →
    retainNew key seen l = retainNew key seen' l
  | [], _, _, _ => rfl
  | a :: l, seen, seen', h => by
    have hnext : ∀ k, k ∈ key a :: seen ↔ k ∈ key a :: seen' := by simp [h]
    simp only [retainNew, h]
    rw [retainNew_congr l h, retainNew_congr l hnext]

theorem retainNew_append : ∀ (l l' : List α) (seen : List κ), retainNew key seen (l ++ l') =
    retainNew key seen l ++ retainNew key (l.map key ++ seen) l'
  | [], _, _ => rfl
  | a :: l, l', seen => by
    by_cases ha : key a ∈ seen
    · simp only [List.cons_append, retainNew, ha, if_true, retainNew_append l l' seen]
      congr 1
      refine retainNew_congr l' fun k => ?_
      simp only [List.map_cons, List.mem_append, List.mem_cons]
      constructor
      · rintro (h | h)
        · exact Or.inl (Or.inr h)
        · exact Or.inr h
      · rintro ((rfl | h) | h)
        · exact Or.inr ha
        · exact Or.inl h
        · exact Or.inr h
    · simp only [List.cons_append, retainNew, ha, if_false, retainNew_append l l']
      congr 2
      refine retainNew_congr l' fun k => ?_
      simp only [List.map_cons, List.mem_append, List.mem_cons]
      tauto

/-- With different keys, none of them seen, everything is kept. -/
theorem retainNew_eq_self : ∀ (l : List α) {seen : List κ}, (l.map key).Nodup →
    (∀ a ∈ l, key a ∉ seen) → retainNew key seen l = l
  | [], _, _, _ => rfl
  | a :: l, seen, hnodup, hnew => by
    obtain ⟨ha, hnodup⟩ := List.nodup_cons.mp hnodup
    rw [retainNew, if_neg (hnew a List.mem_cons_self), retainNew_eq_self l hnodup]
    intro b hb hseen
    rcases List.mem_cons.mp hseen with hk | hseen
    · exact ha (hk ▸ List.mem_map_of_mem hb)
    · exact hnew b (List.mem_cons_of_mem _ hb) hseen

theorem map_retainNew {β : Type} (key' : β → κ) (f : α → β) : ∀ (l : List α) (seen : List κ),
    (retainNew (fun a => key' (f a)) seen l).map f = retainNew key' seen (l.map f)
  | [], _ => rfl
  | a :: l, seen => by
    by_cases ha : key' (f a) ∈ seen
    · simp only [retainNew, ha, if_true, List.map_cons, map_retainNew key' f l]
    · simp only [retainNew, ha, if_false, List.map_cons, map_retainNew key' f l]

/-- Of a sorted list, the elements kept from a group are those that are new after everything below
    it. -/
theorem group_retainNew {l : List α} (h : Sorted cost l) (c : C) : group cost c
    (retainNew key [] l) = retainNew key ((below cost c l).map key) (group cost c l) := by
  have hlow : ∀ seen, group cost c (retainNew key seen (below cost c l)) = [] := fun seen =>
    group_eq_nil fun a ha => (mem_below.mp (mem_of_mem_retainNew _ ha)).2.ne
  have hhigh : ∀ seen, group cost c (retainNew key seen (above cost c l)) = [] := fun seen =>
    group_eq_nil fun a ha => (mem_above.mp (mem_of_mem_retainNew _ ha)).2.ne'
  have hmid : ∀ seen, group cost c (retainNew key seen (group cost c l)) =
      retainNew key seen (group cost c l) := fun seen =>
    List.filter_eq_self.mpr fun a ha =>
      decide_eq_true (mem_group.mp (mem_of_mem_retainNew _ ha)).2
  conv_lhs => rw [h.split c]
  simp only [retainNew_append, group_append, hlow, hmid, hhigh, List.nil_append, List.append_nil]

theorem sorted_retainNew {l : List α} (h : Sorted cost l) (seen : List κ) :
    Sorted cost (retainNew key seen l) := List.Pairwise.sublist (retainNew_sublist key seen l) h

/-- Of a sorted list, the cheapest element of each key is kept. -/
theorem retainNew_le : ∀ {l : List α} {seen : List κ}, Sorted cost l →
    ∀ a ∈ retainNew key seen l, ∀ b ∈ l, key b = key a → cost a ≤ cost b
  | [], _, _, a, ha, _, _, _ => by simp [retainNew] at ha
  | x :: l, seen, h, a, ha, b, hb, hkey => by
    obtain ⟨hle, hsorted⟩ := List.pairwise_cons.mp h
    have hfirst : x ∈ retainNew key (key x :: seen) l → False := fun hx =>
      (nodup_map_retainNew key (key x :: seen) l).2 x hx List.mem_cons_self
    by_cases hx : key x ∈ seen
    · simp only [retainNew, hx, if_true] at ha
      rcases List.mem_cons.mp hb with rfl | hb
      · exact absurd (hkey ▸ hx) ((nodup_map_retainNew key seen l).2 a ha)
      · exact retainNew_le hsorted a ha b hb hkey
    · simp only [retainNew, hx, if_false, List.mem_cons] at ha
      rcases ha with rfl | ha
      · rcases List.mem_cons.mp hb with rfl | hb
        · exact le_rfl
        · exact hle b hb
      · rcases List.mem_cons.mp hb with rfl | hb
        · exact absurd (by simp [hkey]) ((nodup_map_retainNew key _ l).2 a ha)
        · exact retainNew_le hsorted a ha b hb hkey

/-- Sorted lists of the same elements keep the same costs. -/
theorem map_cost_retainNew {l l' : List α} (h : Sorted cost l) (h' : Sorted cost l')
    (hperm : l.Perm l') :
    (retainNew key [] l).map cost = (retainNew key [] l').map cost := by
  -- the keys, each with its least cost
  have hpairs : ∀ {l l' : List α}, Sorted cost l → Sorted cost l' → (∀ a, a ∈ l ↔ a ∈ l') →
      ∀ p ∈ (retainNew key [] l).map (fun a => (key a, cost a)),
        p ∈ (retainNew key [] l').map (fun a => (key a, cost a)) := by
    intro l l' h h' hmem p hp
    obtain ⟨a, ha, rfl⟩ := List.mem_map.mp hp
    have hal' : a ∈ l' := (hmem a).mp (mem_of_mem_retainNew _ ha)
    obtain ⟨b, hb, hkey⟩ := exists_mem_retainNew key [] l' a hal' (by simp)
    have hbl : b ∈ l := (hmem b).mpr (mem_of_mem_retainNew _ hb)
    refine List.mem_map.mpr ⟨b, hb, Prod.ext hkey (le_antisymm ?_ ?_)⟩
    · exact retainNew_le h' b hb a hal' hkey.symm
    · exact retainNew_le h a ha b hbl hkey
  have hnodup : ∀ l : List α,
      ((retainNew key [] l).map fun a => (key a, cost a)).Nodup := by
    intro l
    refine List.Nodup.of_map Prod.fst ?_
    rw [List.map_map]
    exact (nodup_map_retainNew key [] l).1
  have hsame : ((retainNew key [] l).map fun a => (key a, cost a)).Perm
      ((retainNew key [] l').map fun a => (key a, cost a)) :=
    (List.perm_ext_iff_of_nodup (hnodup l) (hnodup l')).mpr fun p =>
      ⟨hpairs h h' (fun a => hperm.mem_iff) p, hpairs h' h (fun a => hperm.symm.mem_iff) p⟩
  refine (sorted_retainNew h []).map_eq (sorted_retainNew h' []) ?_
  have hcosts := hsame.map Prod.snd
  rw [List.map_map, List.map_map] at hcosts
  exact hcosts

/-- Two sorted lists of the same elements keep the same costs place by place, and the same elements
    in the groups on which they agree. -/
theorem retainNew_alike (key : α → κ) {T : C → Prop} {l l' : List α} (h : Sorted cost l)
    (h' : Sorted cost l')
    (hperm : l.Perm l') (hgroup : ∀ c, ¬ T c → group cost c l = group cost c l') :
    List.Forall₂ (fun a b => cost a = cost b ∧ (¬ T (cost a) → a = b))
      (retainNew key [] l) (retainNew key [] l') := by
  refine forall₂_of_groups (map_cost_retainNew h h' hperm) fun c hc => ?_
  rw [group_retainNew h, group_retainNew h', hgroup c hc]
  refine retainNew_congr _ fun k => ?_
  simp only [List.mem_map, mem_below, hperm.mem_iff]

/-- Adding elements to a sorted list behind `n` different keys changes nothing in the first `n`
    elements kept. -/
theorem take_retainNew_eq {l l' : List α} (low : List α) (c : C) {n : ℕ} (h : Sorted cost l)
    (h' : Sorted cost l') (hbelow : ∀ d < c, group cost d l = group cost d l')
    (hstart : group cost c l <+: group cost c l') (hnodup : (low.map key).Nodup)
    (hlow : ∀ a ∈ low, a ∈ l ∧ cost a ≤ c) (hn : n ≤ low.length) :
    (retainNew key [] l).take n = (retainNew key [] l').take n := by
  have hsame : below cost c l = below cost c l' := by
    refine Sorted.eq_of_groups (List.Pairwise.filter _ h) (List.Pairwise.filter _ h') fun d => ?_
    rcases lt_or_ge d c with hd | hd
    · have hinner : ∀ xs : List α, group cost d (below cost c xs) = group cost d xs := by
        intro xs
        rw [group, group, below, List.filter_filter]
        refine List.filter_congr fun a _ => ?_
        by_cases had : cost a = d <;> simp [had, hd]
      rw [hinner, hinner, hbelow d hd]
    · rw [group_eq_nil fun a ha => ((mem_below.mp ha).2.trans_le hd).ne,
        group_eq_nil fun a ha => ((mem_below.mp ha).2.trans_le hd).ne]
  obtain ⟨more, hmore⟩ := hstart
  have hl' := h'.split c
  rw [← hmore, ← hsame, ← List.append_assoc, List.append_assoc] at hl'
  -- both lists start with what is at most `c` in the first
  have hlen : n ≤ (retainNew key [] (below cost c l ++ group cost c l)).length := by
    have hsub : low.map key ⊆
        (retainNew key [] (below cost c l ++ group cost c l)).map key := by
      intro k hk
      obtain ⟨a, ha, rfl⟩ := List.mem_map.mp hk
      obtain ⟨hal, hle⟩ := hlow a ha
      have hmem : a ∈ below cost c l ++ group cost c l := by
        rcases hle.lt_or_eq with hlt | heq
        · exact List.mem_append_left _ (mem_below.mpr ⟨hal, hlt⟩)
        · exact List.mem_append_right _ (mem_group.mpr ⟨hal, heq⟩)
      obtain ⟨b, hb, hkey⟩ := exists_mem_retainNew key [] _ a hmem (by simp)
      exact hkey ▸ List.mem_map_of_mem hb
    have hle := (List.subperm_of_subset hnodup hsub).length_le
    simp only [List.length_map] at hle
    exact hn.trans hle
  rw [h.split c, hl', retainNew_append (below cost c l ++ group cost c l) (above cost c l),
    retainNew_append (below cost c l ++ group cost c l) (more ++ above cost c l'),
    List.take_append_of_le_length hlen, List.take_append_of_le_length hlen]

end Retain

section Field
variable {K : Type} [Field K] [LinearOrder K] [FloorRing K]

theorem sorted_sortAsc (cost : α → K) (l : List α) : Sorted cost (F64.sortAsc cost l) :=
  F64.pairwise_sortAsc cost l

/-- Sorting is stable: each group keeps its order. -/
theorem group_sortAsc (cost : α → K) (c : K) (l : List α) :
    group cost c (F64.sortAsc cost l) = group cost c l := by
  refine filter_insertionSort (fun a b ha hb => ?_) l
  rw [of_decide_eq_true ha, of_decide_eq_true hb]
  exact lt_irrefl c

/-- Of a sorted list, only the first elements matter to as many elements kept after it is sorted in
    behind another list, provided that their keys differ. -/
theorem take_retainNew_sortAsc [DecidableEq κ] {key : α → κ} {cost : α → K} (first : List α)
    {low high : List α} (h : Sorted cost (low ++ high)) (hnodup : (low.map key).Nodup) :
    (retainNew key [] (F64.sortAsc cost (first ++ low))).take low.length =
      (retainNew key [] (F64.sortAsc cost (first ++ (low ++ high)))).take low.length := by
  rcases List.eq_nil_or_concat' low with rfl | ⟨init, x, hlow⟩
  · simp
  · obtain ⟨hsorted, -, hcross⟩ := List.pairwise_append.mp h
    have hx : x ∈ low := by rw [hlow]; simp
    have hle : ∀ a ∈ low, cost a ≤ cost x := by
      intro a ha
      rw [hlow] at ha hsorted
      rcases List.mem_append.mp ha with ha | ha
      · exact (List.pairwise_append.mp hsorted).2.2 a ha x (by simp)
      · rw [List.mem_singleton.mp ha]
    -- `x` costs most of `low`, and `high` has nothing below that cost
    refine take_retainNew_eq low (cost x) (sorted_sortAsc cost _)
      (sorted_sortAsc cost _) (fun d hd => ?_) ?_ hnodup
      (fun a ha => ⟨F64.mem_sortAsc.mpr (List.mem_append_right _ ha), hle a ha⟩) le_rfl
    · have hnone : group cost d high = [] :=
        group_eq_nil fun b hb => (hd.trans_le (hcross x hx b hb)).ne'
      rw [group_sortAsc, group_sortAsc, ← List.append_assoc, group_append d (first ++ low), hnone,
        List.append_nil]
    · rw [group_sortAsc, group_sortAsc, ← List.append_assoc, group_append _ (first ++ low)]
      exact List.prefix_append _ _

end Field

end Collections
