import AgentTransport.Lib.Exact

/-! Stable sorting by a floating-point key, and what two such sorts in a row leave in front:
    the first of the elements with the greatest second key, ties decided by the first key and
    then by the original order. -/

namespace F64
variable {F : Type} [F64 F] {α β : Type}

/-- Sorting commutes with a map that carries the key. -/
theorem map_sortDesc (f : α → β) (key : β → F) (l : List α) :
    (sortDesc (fun a => key (f a)) l).map f = sortDesc key (l.map f) :=
  List.map_insertionSort _ _ f l fun _ _ _ _ => Iff.rfl

/-- An element that comes first and has no smaller key stays first. -/
theorem sortDesc_stable {key : α → F} {l : List α} {a b : α} (hl : [a, b].Sublist l)
    (hk : ¬ key a < key b) : [a, b].Sublist (sortDesc key l) :=
  List.pair_sublist_insertionSort hk hl

/-- In a list without duplicates, two elements stand in one order only. -/
theorem not_sublist_swap {l : List α} (hl : l.Nodup) {a b : α} (hab : [a, b].Sublist l) :
    ¬ [b, a].Sublist l := by
  induction l with
  | nil => simp at hab
  | cons c l ih =>
    obtain ⟨hc, hl⟩ := List.nodup_cons.mp hl
    intro hba
    cases hab with
    | cons _ hab =>
      cases hba with
      | cons _ hba => exact ih hl hab hba
      | cons_cons _ _ => exact hc (hab.subset (by simp))
    | cons_cons _ hb =>
      cases hba with
      | cons _ hba => exact hc (hba.subset (by simp))
      | cons_cons _ _ => exact hc (hb.subset (by simp))

/-- Two elements of a list stand in one order or the other. -/
theorem pair_sublist_or {l : List α} {a b : α} (ha : a ∈ l) (hb : b ∈ l) (hne : a ≠ b) :
    [a, b].Sublist l ∨ [b, a].Sublist l := by
  induction l with
  | nil => simp at ha
  | cons c l ih =>
    rcases List.mem_cons.mp ha with rfl | hal
    · have hbl : b ∈ l := (List.mem_cons.mp hb).resolve_left hne.symm
      exact Or.inl ((List.singleton_sublist.mpr hbl).cons_cons a)
    · rcases List.mem_cons.mp hb with rfl | hbl
      · exact Or.inr ((List.singleton_sublist.mpr hal).cons_cons b)
      · exact (ih hal hbl).imp (·.cons c) (·.cons c)

section Order
variable [OrderedF64 F]

protected theorem not_lt_of_le {a b : F} (h : a ≤ b) : ¬ b < a :=
  fun hlt => ((OrderedF64.lt_iff b a).mp hlt).2 h

/-- The head of a stable sort: nothing before it in the list has as great a key, nothing after
    it has a greater one. -/
theorem sortDesc_head {key : α → F} : ∀ {l : List α} {w : α} {rest : List α},
    (∀ a ∈ l, IsNum (key a)) → sortDesc key l = w :: rest →
    ∃ pre post, l = pre ++ w :: post ∧ (∀ e ∈ pre, key e < key w) ∧ ∀ e ∈ post, key e ≤ key w
  | [], w, rest, _, h => by simp [sortDesc] at h
  | a :: l, w, rest, hnum, h => by
    have hnum' : ∀ b ∈ l, IsNum (key b) := fun b hb => hnum b (List.mem_cons_of_mem _ hb)
    have ha : IsNum (key a) := hnum a List.mem_cons_self
    rw [sortDesc, List.insertionSort_cons] at h
    cases hs : sortDesc key l with
    | nil =>
      have hl : l = [] := (hs ▸ sortDesc_perm key l).nil_eq.symm
      subst hl
      obtain ⟨rfl, rfl⟩ : w = a ∧ rest = [] := by simpa [eq_comm] using h
      exact ⟨[], [], rfl, by simp, by simp⟩
    | cons b m =>
      obtain ⟨pre, post, hl, hpre, hpost⟩ := sortDesc_head hnum' hs
      have hb : IsNum (key b) := hnum' b (by rw [hl]; simp)
      rw [sortDesc] at hs
      rw [hs] at h
      by_cases hab : key a < key b
      · -- the new element goes behind the old head
        rw [List.orderedInsert_of_not_le _ _ (not_not.mpr hab)] at h
        obtain ⟨rfl, -⟩ := List.cons.inj h
        refine ⟨a :: pre, post, by rw [hl]; rfl, ?_, hpost⟩
        intro e he
        rcases List.mem_cons.mp he with rfl | he
        · exact hab
        · exact hpre e he
      · rw [List.orderedInsert_cons_of_le _ _ hab] at h
        obtain ⟨rfl, -⟩ := List.cons.inj h
        have hba : key b ≤ key a := F64.le_of_not_lt ha hb hab
        refine ⟨[], l, rfl, by simp, ?_⟩
        intro e he
        rw [hl] at he
        rcases List.mem_append.mp he with he | he
        · exact F64.le_trans (F64.le_of_lt (hpre e he)) hba
        · rcases List.mem_cons.mp he with rfl | he
          · exact hba
          · exact F64.le_trans (hpost e he) hba

/-- A sorted list is decreasing, and elements of equal key keep the order they had. -/
theorem pairwise_sortDesc_stable {key : α → F} {r : α → α → Prop} : ∀ {l : List α},
    (∀ a ∈ l, IsNum (key a)) → l.Pairwise r →
    (sortDesc key l).Pairwise fun a b => key b ≤ key a ∧ (key a ≤ key b → r a b)
  | [], _, _ => List.Pairwise.nil
  | a :: l, hnum, hl => by
    obtain ⟨har, hl⟩ := List.pairwise_cons.mp hl
    have hnum' : ∀ b ∈ l, IsNum (key b) := fun b hb => hnum b (List.mem_cons_of_mem _ hb)
    have ha : IsNum (key a) := hnum a List.mem_cons_self
    have ih := pairwise_sortDesc_stable hnum' hl
    have hmem : ∀ b ∈ sortDesc key l, IsNum (key b) ∧ r a b :=
      fun b hb => ⟨hnum' b (mem_sortDesc.mp hb), har b (mem_sortDesc.mp hb)⟩
    rw [sortDesc, List.insertionSort_cons, ← sortDesc]
    -- insert `a` into the sorted rest: past what has a greater key, and before its equals
    generalize sortDesc key l = s at ih hmem
    induction s with
    | nil => simp
    | cons b s ihs =>
      have hb : IsNum (key b) := (hmem b List.mem_cons_self).1
      obtain ⟨hbs, hs⟩ := List.pairwise_cons.mp ih
      by_cases hab : key a < key b
      · rw [List.orderedInsert_of_not_le _ _ (not_not.mpr hab), List.pairwise_cons]
        refine ⟨?_, ihs hs fun c hc => hmem c (List.mem_cons_of_mem _ hc)⟩
        intro c hc
        rcases (List.mem_orderedInsert _).mp hc with rfl | hc
        · exact ⟨F64.le_of_lt hab, fun hle => absurd hab (F64.not_lt_of_le hle)⟩
        · exact hbs c hc
      · rw [List.orderedInsert_cons_of_le _ _ hab, List.pairwise_cons]
        refine ⟨?_, ih⟩
        intro c hc
        have hba : key b ≤ key a := F64.le_of_not_lt ha hb hab
        refine ⟨?_, fun _ => (hmem c hc).2⟩
        rcases List.mem_cons.mp hc with rfl | hc
        · exact hba
        · exact F64.le_trans (hbs c hc).1 hba

/-- A sorted list is decreasing. -/
theorem pairwise_sortDesc {key : α → F} {l : List α} (hnum : ∀ a ∈ l, IsNum (key a)) :
    (sortDesc key l).Pairwise (fun a b => key b ≤ key a) := by
  have hany : l.Pairwise fun _ _ => True := List.pairwise_of_forall fun _ _ => trivial
  exact (pairwise_sortDesc_stable hnum hany).imp And.left

/-- Neighbours in a sorted list are in order, numbers or not. -/
theorem isChain_sortDesc (key : α → F) : ∀ l : List α,
    (sortDesc key l).IsChain fun a b => ¬ key a < key b
  | [] => List.IsChain.nil
  | a :: l => by
    have ih := isChain_sortDesc key l
    rw [sortDesc, List.insertionSort_cons, ← sortDesc]
    generalize sortDesc key l = s at ih
    induction s with
    | nil => exact List.IsChain.singleton a
    | cons b s ihs =>
      by_cases hab : key a < key b
      · have hba : ¬ key b < key a := F64.not_lt_of_le (F64.le_of_lt hab)
        have htail := ihs ih.tail
        rw [List.orderedInsert_of_not_le _ _ (not_not.mpr hab)]
        refine List.isChain_cons.mpr ⟨fun c hc => ?_, htail⟩
        -- the head of the rest is the new element or the old neighbour
        cases s with
        | nil =>
          obtain rfl := Option.some.inj hc
          exact hba
        | cons d s =>
          by_cases had : key a < key d
          · rw [List.orderedInsert_of_not_le _ _ (not_not.mpr had)] at hc
            obtain rfl := Option.some.inj hc
            exact ih.rel
          · rw [List.orderedInsert_cons_of_le _ _ had] at hc
            obtain rfl := Option.some.inj hc
            exact hba
      · rw [List.orderedInsert_cons_of_le _ _ hab]
        exact List.IsChain.cons_cons hab ih

omit [OrderedF64 F] in
theorem sortDesc_of_isChain {key : α → F} : ∀ {l : List α},
    (l.IsChain fun a b => ¬ key a < key b) → sortDesc key l = l
  | [], _ => rfl
  | [_], _ => rfl
  | a :: b :: l, h => by
    have ih : sortDesc key (b :: l) = b :: l := sortDesc_of_isChain h.tail
    rw [sortDesc, List.insertionSort_cons, ← sortDesc, ih,
      List.orderedInsert_cons_of_le _ _ h.rel]

/-- Sorting a sorted list changes nothing. -/
theorem sortDesc_sortDesc (key : α → F) (l : List α) :
    sortDesc key (sortDesc key l) = sortDesc key l :=
  sortDesc_of_isChain (isChain_sortDesc key l)

/-- `a` comes before `b` by the key `k₂`, ties decided by `k₁`. -/
def Beats (k₁ k₂ : α → F) (a b : α) : Prop :=
  k₂ b < k₂ a ∨ ¬ k₂ a < k₂ b ∧ k₁ b < k₁ a

/-- The winner of two stable sorts, by `k₁` and then by `k₂`, beats everything that stands
    before it in the list and is beaten by nothing that stands after it. -/
theorem sortDesc_sortDesc_head {k₁ k₂ : α → F} {l : List α} {w : α} {rest : List α}
    (hl : l.Nodup) (h₁ : ∀ a ∈ l, IsNum (k₁ a)) (h₂ : ∀ a ∈ l, IsNum (k₂ a))
    (h : sortDesc k₂ (sortDesc k₁ l) = w :: rest) :
    (∀ e ∈ l, k₂ e ≤ k₂ w) ∧
    ∃ pre post, l = pre ++ w :: post ∧ (∀ e ∈ pre, Beats k₁ k₂ w e) ∧
      ∀ e ∈ post, ¬ Beats k₁ k₂ e w := by
  obtain ⟨fore, aft, hs, hfore, haft⟩ :=
    sortDesc_head (fun a ha => h₂ a (mem_sortDesc.mp ha)) h
  have hnd : (sortDesc k₁ l).Nodup := (sortDesc_perm k₁ l).nodup_iff.mpr hl
  -- what stands behind the winner after the first sort has no greater `k₁`
  have hback : ∀ e ∈ aft, k₁ e ≤ k₁ w ∧ [w, e].Sublist (sortDesc k₁ l) := by
    intro e he
    have hsub : [w, e].Sublist (sortDesc k₁ l) := by
      rw [hs]
      exact ((List.singleton_sublist.mpr he).cons_cons w).trans (List.sublist_append_right _ _)
    have hpair := (pairwise_sortDesc h₁).sublist hsub
    exact ⟨List.rel_of_pairwise_cons hpair (by simp), hsub⟩
  have hw : w ∈ l := mem_sortDesc.mp (by rw [hs]; simp)
  have hwn : k₂ w ≤ k₂ w := h₂ w hw
  have hsplit : ∀ e ∈ l, e ≠ w → e ∈ fore ∨ e ∈ aft := by
    intro e he hew
    have he' : e ∈ fore ++ w :: aft := by rw [← hs]; exact mem_sortDesc.mpr he
    simpa [hew] using he'
  obtain ⟨pre, post, hpost⟩ := List.append_of_mem hw
  have hne : ∀ e, e ∈ pre ∨ e ∈ post → e ≠ w := by
    rw [hpost] at hl
    rintro e he rfl
    have := (List.nodup_middle.mp hl)
    simp only [List.nodup_cons, List.mem_append] at this
    exact this.1 he
  refine ⟨?_, pre, post, hpost, ?_, ?_⟩
  · intro e he
    by_cases hew : e = w
    · rw [hew]; exact hwn
    · rcases hsplit e he hew with he | he
      · exact F64.le_of_lt (hfore e he)
      · exact haft e he
  · intro e he
    have hel : e ∈ l := by rw [hpost]; simp [he]
    rcases hsplit e hel (hne e (Or.inl he)) with hf | ha
    · exact Or.inl (hfore e hf)
    · refine Or.inr ⟨F64.not_lt_of_le (haft e ha), ?_⟩
      -- otherwise the first sort would have left `e` in front of `w`
      by_contra hlt
      have hsub : [e, w].Sublist l := by
        rw [hpost]
        exact (List.singleton_sublist.mpr he).append (List.singleton_sublist.mpr (by simp))
      exact not_sublist_swap hnd (hback e ha).2 (sortDesc_stable hsub hlt)
  · intro e he hbeats
    have hel : e ∈ l := by rw [hpost]; simp [he]
    rcases hsplit e hel (hne e (Or.inr he)) with hf | ha
    · rcases hbeats with hlt | ⟨hnlt, -⟩
      · exact F64.not_lt_of_le (F64.le_of_lt (hfore e hf)) hlt
      · exact hnlt (hfore e hf)
    · rcases hbeats with hlt | ⟨-, hlt⟩
      · exact F64.not_lt_of_le (haft e ha) hlt
      · exact F64.not_lt_of_le (hback e ha).1 hlt

/-- A list is sorted by a relation that is total and transitive on its elements. -/
theorem pairwise_insertionSort_of {r : α → α → Prop} [DecidableRel r] {l : List α}
    (htotal : ∀ a ∈ l, ∀ b ∈ l, r a b ∨ r b a)
    (htrans : ∀ a ∈ l, ∀ b ∈ l, ∀ c ∈ l, r a b → r b c → r a c) :
    (l.insertionSort r).Pairwise r := by
  let onList : {a // a ∈ l} → {a // a ∈ l} → Prop := fun a b => r a b
  have : Std.Total onList := ⟨fun a b => htotal a a.2 b b.2⟩
  have : IsTrans _ onList := ⟨fun a b c => htrans a a.2 b b.2 c c.2⟩
  have hsorted := List.pairwise_insertionSort onList l.attach
  have hmap := List.map_insertionSort onList r Subtype.val l.attach fun _ _ _ _ => Iff.rfl
  rw [List.attach_map_subtype_val] at hmap
  rw [← hmap]
  exact List.pairwise_map.mpr hsorted

/-- A list sorted by numbers is increasing. -/
theorem pairwise_sortAsc_of_isNum {key : α → F} {l : List α} (hnum : ∀ a ∈ l, IsNum (key a)) :
    (sortAsc key l).Pairwise (fun a b => key a ≤ key b) := by
  have hsorted : (sortAsc key l).Pairwise fun a b => ¬ key b < key a := by
    refine pairwise_insertionSort_of (fun a ha b hb => ?_) fun a ha b hb c hc hab hbc => ?_
    · rcases OrderedF64.le_total _ _ (hnum a ha) (hnum b hb) with h | h
      · exact Or.inl (F64.not_lt_of_le h)
      · exact Or.inr (F64.not_lt_of_le h)
    · exact F64.not_lt_of_le (F64.le_trans (F64.le_of_not_lt (hnum b hb) (hnum a ha) hab)
        (F64.le_of_not_lt (hnum c hc) (hnum b hb) hbc))
  exact hsorted.imp_of_mem fun {a b} ha hb h =>
    F64.le_of_not_lt (hnum b (mem_sortAsc.mp hb)) (hnum a (mem_sortAsc.mp ha)) h

end Order

section Field
variable {K : Type} [Field K] [LinearOrder K] [FloorRing K]

/-- In exact arithmetic a sorted list is increasing. -/
theorem pairwise_sortAsc (key : α → K) (l : List α) :
    (sortAsc key l).Pairwise (fun a b => key a ≤ key b) :=
  pairwise_sortAsc_of_isNum fun a _ => isNum_field (key a)

/-- The first of a sorted list with some property is the least with it, and of several the one that
    was listed first. -/
theorem find?_sortAsc {key : α → K} {l : List α} (hl : l.Nodup) {P : α → Bool} {p : α}
    (h : (sortAsc key l).find? P = some p) : p ∈ l ∧ P p = true ∧
      ∀ b ∈ l, P b = true → b ≠ p → key p ≤ key b ∧ (key b = key p → [p, b].Sublist l) := by
  obtain ⟨hp, pre, post, hsplit, hpre⟩ := List.find?_eq_some_iff_append.mp h
  have hmem : ∀ {b}, b ∈ l ↔ b ∈ pre ++ p :: post := fun {b} => by
    rw [← hsplit, mem_sortAsc]
  refine ⟨hmem.mpr (by simp), hp, fun b hb hPb hne => ?_⟩
  have hpost : b ∈ post := by
    rcases List.mem_append.mp (hmem.mp hb) with hb | hb
    · exact absurd hPb (by simpa using hpre b hb)
    · exact (List.mem_cons.mp hb).resolve_left hne
  have hsorted := pairwise_sortAsc key l
  rw [hsplit] at hsorted
  refine ⟨(List.pairwise_cons.mp (List.pairwise_append.mp hsorted).2.1).1 b hpost, fun heq => ?_⟩
  have hpb : [p, b].Sublist (sortAsc key l) := by
    rw [hsplit]
    exact ((List.singleton_sublist.mpr hpost).cons_cons p).trans (List.sublist_append_right _ _)
  -- were the other listed first, a stable sort would keep it first
  refine (pair_sublist_or (hmem.mpr (by simp)) hb hne.symm).resolve_right fun hbp => ?_
  have hbp' : [b, p].Sublist (sortAsc key l) :=
    List.pair_sublist_insertionSort (r := fun a b => ¬ key b < key a) (by simp [heq]) hbp
  exact not_sublist_swap ((sortAsc_perm key l).nodup_iff.mpr hl) hpb hbp'

end Field

end F64
