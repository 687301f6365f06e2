import Mathlib.Algebra.BigOperators.Group.List.Basic
import Mathlib.Algebra.BigOperators.Group.Multiset.Basic
import Mathlib.Algebra.Order.Group.Defs
import Mathlib.Tactic.Abel

/-! Sums in which a place in the list counts: what an entry adds depends on its rank. Striking
    entries out takes away what they added, and moves the entries behind them up.

        ranked f (kept) - ranked f l = what the kept entries gain - what the struck ones added -/

namespace Ranks
variable {α K : Type} [AddCommGroup K]

/-- The sum of `f i a` over the entries `a` at place `i`. -/
def ranked (f : ℕ → α → K) (l : List α) : K := (l.zipIdx.map fun x => f x.2 x.1).sum

theorem foldl_add_map {β : Type} (f : β → K) (l : List β) (z : K) :
    l.foldl (fun sum x => sum + f x) z = z + (l.map f).sum := by
  induction l generalizing z with
  | nil => simp
  | cons a l ih => rw [List.foldl_cons, ih, List.map_cons, List.sum_cons, add_assoc]

theorem sum_map_sub (f g : α → K) (l : List α) :
    (l.map fun x => f x - g x).sum = (l.map f).sum - (l.map g).sum := by
  have h : (Multiset.map (fun x => f x - g x) (l : Multiset α)).sum = _ := Multiset.sum_map_sub
  simpa only [Multiset.map_coe, Multiset.sum_coe] using h

theorem sum_zipIdx (f : α → K) (l : List α) (k : ℕ) :
    ((l.zipIdx k).map fun x => f x.1).sum = (l.map f).sum := by
  induction l generalizing k with
  | nil => rfl
  | cons a l ih => rw [List.zipIdx_cons, List.map_cons, List.map_cons, List.sum_cons, List.sum_cons,
      ih (k + 1)]

/-- What lies beyond the cut counts as nothing. -/
theorem sum_zipIdx_take (f : ℕ → α → K) (l : List α) (n k : ℕ) :
    (((l.take n).zipIdx k).map fun x => f x.2 x.1).sum =
      ((l.zipIdx k).map fun x => if x.2 < k + n then f x.2 x.1 else 0).sum := by
  induction l generalizing n k with
  | nil => simp
  | cons a l ih =>
    cases n with
    | zero =>
      have hzero : ∀ x ∈ (a :: l).zipIdx k, (if x.2 < k + 0 then f x.2 x.1 else 0) = 0 := by
        intro x hx
        have hle : k ≤ x.2 := (List.mem_zipIdx (x := x.1) (i := x.2) hx).1
        rw [if_neg (by omega)]
      rw [List.map_congr_left hzero]
      simp
    | succ n =>
      rw [List.take_succ_cons, List.zipIdx_cons, List.zipIdx_cons, List.map_cons, List.map_cons,
        List.sum_cons, List.sum_cons, ih n (k + 1), if_pos (by dsimp only; omega)]
      congr 3
      funext x
      rw [show k + 1 + n = k + (n + 1) by omega]

theorem ranked_take (f : ℕ → α → K) (l : List α) (n : ℕ) :
    ranked f (l.take n) = ranked (fun i a => if i < n then f i a else 0) l := by
  rw [ranked, ranked, sum_zipIdx_take, Nat.zero_add]

theorem ranked_cons (f : ℕ → α → K) (a : α) (l : List α) :
    ranked f (a :: l) = f 0 a + ranked (fun i => f (i + 1)) l := by
  have hshift : ((l.zipIdx 1).map fun x => f x.2 x.1).sum =
      (l.zipIdx.map fun x => f (x.2 + 1) x.1).sum := by
    rw [List.zipIdx_succ, List.map_map]
    rfl
  rw [ranked, List.zipIdx_cons, List.map_cons, List.sum_cons, Nat.zero_add, hshift, ranked]

theorem ranked_concat (f : ℕ → α → K) (l : List α) (a : α) :
    ranked f (l ++ [a]) = ranked f l + f l.length a := by
  simp [ranked, List.zipIdx_append]

theorem ranked_eq_zero {f : ℕ → α → K} {l : List α} (h : ∀ i, ∀ a ∈ l, f i a = 0) :
    ranked f l = 0 := by
  refine List.sum_eq_zero fun x hx => ?_
  obtain ⟨⟨a, i⟩, hmem, rfl⟩ := List.mem_map.mp hx
  exact h i a (List.fst_mem_of_mem_zipIdx hmem)

section Keep
variable (f : ℕ → α → K) (p : α × ℕ → Prop) [DecidablePred p] (l : List α)

/-- The entries that pass, in their order. -/
def keep : List α := (l.zipIdx.filter p).map (·.1)

/-- What the kept entries gain from their new places. -/
def gained : K := ((l.zipIdx.filter p).zipIdx.map fun x => f x.2 x.1.1 - f x.1.2 x.1.1).sum

/-- What the other entries added. -/
def lost : K := ((l.zipIdx.filter fun x => ¬ p x).map fun x => f x.2 x.1).sum

theorem ranked_keep : ranked f (keep p l) - ranked f l = gained f p l - lost f p l := by
  have hkept : ranked f (keep p l) =
      ((l.zipIdx.filter p).zipIdx.map fun x => f x.2 x.1.1).sum := by
    rw [ranked, keep, List.zipIdx_map, List.map_map]
    rfl
  have hsplit : ((l.zipIdx.filter p).map fun x => f x.2 x.1).sum + lost f p l = ranked f l :=
    List.sum_map_filter_add_sum_map_filter_not p _ _
  have hplaces : ((l.zipIdx.filter p).zipIdx.map fun x => f x.1.2 x.1.1).sum =
      ((l.zipIdx.filter p).map fun x => f x.2 x.1).sum :=
    sum_zipIdx (fun x : α × ℕ => f x.2 x.1) _ 0
  rw [hkept, gained, sum_map_sub, hplaces, ← hsplit]
  abel

theorem ranked_le_keep_iff [LinearOrder K] [IsOrderedAddMonoid K] :
    ranked f l ≤ ranked f (keep p l) ↔ lost f p l ≤ gained f p l := by
  rw [← sub_nonneg, ranked_keep, sub_nonneg]

end Keep

end Ranks
