import Mathlib.Data.List.Forall2
import Mathlib.Data.List.Perm.Subperm
import Mathlib.Data.List.Sort

/-! The first elements of a sorted list against any other choice of as many: place by place they
    come no later. Nothing is asked of the order but that it can be chained, so that ties, and
    elements that are not in any order with themselves, may be there.

        l  sorted   a₁ a₂ a₃ a₄ a₅ ...
        s  sorted   a₂ a₃ a₅               a₁ before a₂, a₂ before a₃, a₃ before a₅ -/

namespace TopN
variable {α : Type} {r : α → α → Prop}

/-- Where an element of a sorted list is not before `x`, none of the later ones is. -/
theorem not_before_of_le (htrans : ∀ a b c, r a b → r b c → r a c) {l : List α}
    (hl : l.Pairwise r) {x : α} {i j : ℕ} (hij : i < j) (hj : j < l.length)
    (hi : ¬ r (l.get ⟨i, hij.trans hj⟩) x) : ¬ r l[j] x := by
  intro h
  exact hi (htrans _ _ _ (List.pairwise_iff_getElem.mp hl i j (hij.trans hj) hj hij) h)

/-- The first elements of a sorted list, place by place against any sorted choice of its elements.
    Were the one at place `i` not before its opponent, then no more than `i` elements of the list
    would be, but the choice has `i + 1` that are. -/
theorem forall₂_take (htrans : ∀ a b c, r a b → r b c → r a c) {l s : List α}
    (hl : l.Pairwise r) (hsorted : s.Pairwise r) (hrefl : ∀ a ∈ s, r a a) (hs : s.Subperm l) :
    List.Forall₂ r (l.take s.length) s := by
  classical
  refine List.forall₂_iff_get.mpr ⟨?_, fun i hi his => ?_⟩
  · rw [List.length_take, Nat.min_eq_left hs.length_le]
  have hil : i < l.length := his.trans_le hs.length_le
  show r (l.take s.length)[i] s[i]
  rw [List.getElem_take]
  by_contra hnot
  let before : α → Bool := fun a => decide (r a s[i])
  -- the first `i + 1` of the choice come before its element at place `i`
  have hchoice : i + 1 ≤ s.countP before := by
    have htake : (s.take (i + 1)).countP before = (s.take (i + 1)).length := by
      refine List.countP_eq_length.mpr fun a ha => decide_eq_true ?_
      obtain ⟨j, hj, rfl⟩ := List.mem_take_iff_getElem.mp ha
      rcases (show j ≤ i by omega).lt_or_eq with hlt | rfl
      · exact List.pairwise_iff_getElem.mp hsorted j i _ _ hlt
      · exact hrefl _ (List.getElem_mem _)
    have hle := (List.take_sublist (i + 1) s).countP_le (p := before)
    rw [htake, List.length_take] at hle
    omega
  -- in the list nothing from place `i` on does
  have hlist : l.countP before ≤ i := by
    have hdrop : (l.drop i).countP before = 0 := by
      refine List.countP_eq_zero.mpr fun a ha => ?_
      obtain ⟨j, hj, rfl⟩ := List.mem_drop_iff_getElem.mp ha
      rw [decide_eq_true_eq]
      rcases (Nat.zero_le j).lt_or_eq with hlt | rfl
      · exact not_before_of_le htrans hl (by omega) _ hnot
      · simpa using hnot
    calc l.countP before = (l.take i ++ l.drop i).countP before := by rw [List.take_append_drop]
      _ = (l.take i).countP before := by rw [List.countP_append, hdrop, Nat.add_zero]
      _ ≤ (l.take i).length := List.countP_le_length
      _ ≤ i := List.length_take_le i l
  exact absurd (hchoice.trans (hs.countP_le before)) (by omega)

/-- Two sorted arrangements of the same elements agree place by place, up to ties. -/
theorem forall₂_of_perm (htrans : ∀ a b c, r a b → r b c → r a c) {l s : List α}
    (hl : l.Pairwise r) (hsorted : s.Pairwise r) (hrefl : ∀ a ∈ s, r a a) (hs : s.Perm l) :
    List.Forall₂ r l s := by
  have h := forall₂_take htrans hl hsorted hrefl hs.subperm
  rwa [hs.length_eq, List.take_length] at h

end TopN
