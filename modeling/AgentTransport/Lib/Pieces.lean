import Mathlib.Data.List.Sort

/-! A list cut into pieces of one size, and pieces put back in order by their keys. -/

namespace Pieces
variable {α : Type}

/-- The first `n` pieces of size `k`; the last one may be short. -/
def pieces (k n : ℕ) (l : List α) : List (List α) :=
  (List.range n).map fun i => (l.drop (i * k)).take k

theorem flatten_pieces (k n : ℕ) (l : List α) : (pieces k n l).flatten = l.take (n * k) := by
  induction n with
  | zero => simp [pieces]
  | succ n ih =>
    rw [pieces, List.range_succ, List.map_append, List.flatten_append, ← pieces, ih,
      Nat.succ_mul, List.take_add]
    simp

/-- Enough pieces hold the whole list. -/
theorem flatten_pieces_of_le {k n : ℕ} {l : List α} (h : l.length ≤ n * k) :
    (pieces k n l).flatten = l := by
  rw [flatten_pieces, List.take_of_length_le h]

/-- Rounding the number of pieces up is enough. -/
theorem length_le_ceil {k : ℕ} (hk : 0 < k) (n : ℕ) : n ≤ (n + k - 1) / k * k := by
  have hdiv := Nat.div_add_mod (n + k - 1) k
  have hmod := Nat.mod_lt (n + k - 1) hk
  rw [Nat.mul_comm] at hdiv
  omega

/-- No more pieces than needed: none of them is empty. -/
theorem ne_nil_of_mem_pieces {k n : ℕ} {l : List α} (hk : 0 < k) (h : n * k < l.length + k)
    {p : List α} (hp : p ∈ pieces k n l) : p ≠ [] := by
  obtain ⟨i, hi, rfl⟩ := List.mem_map.mp hp
  have hmul : (i + 1) * k ≤ n * k := Nat.mul_le_mul_right k (List.mem_range.mp hi)
  rw [Nat.succ_mul] at hmul
  rw [← List.length_pos_iff, List.length_take, List.length_drop]
  omega

section Keys
variable {κ : Type} [LinearOrder κ] {key : α → κ} {r : α → α → Prop} [DecidableRel r]

/-- Sorting elements of a table by their keys puts them in the order of the table. -/
theorem insertionSort_eq_filter (hr : ∀ a b, r a b ↔ key a ≤ key b) {table l : List α}
    (htable : table.Pairwise fun a b => key a < key b) (hl : (l.map key).Nodup)
    (hsub : ∀ a ∈ l, a ∈ table) {p : α → Bool} (hp : ∀ a ∈ table, p a = true ↔ a ∈ l) :
    l.insertionSort r = table.filter p := by
  have : Std.Total r := ⟨fun a b => by rw [hr, hr]; exact le_total _ _⟩
  have : IsTrans α r := ⟨fun a b c => by rw [hr, hr, hr]; exact le_trans⟩
  have : Std.Irrefl fun a b : α => key a < key b := ⟨fun a => lt_irrefl _⟩
  have : Std.Antisymm fun a b : α => key a < key b := ⟨fun a b h h' => absurd h' h.not_gt⟩
  have hnodup : ((l.insertionSort r).map key).Nodup :=
    ((List.perm_insertionSort r l).map key).nodup_iff.mpr hl
  have hsorted : (l.insertionSort r).Pairwise fun a b => key a < key b := by
    refine (List.pairwise_insertionSort r l).imp₂ ?_ (List.pairwise_map.mp hnodup)
    intro a b hab hne
    exact lt_of_le_of_ne ((hr a b).mp hab) hne
  refine hsorted.eq_of_mem_iff (htable.sublist List.filter_sublist) fun a => ?_
  rw [List.mem_insertionSort, List.mem_filter]
  constructor
  · intro h
    exact ⟨hsub a h, (hp a (hsub a h)).mpr h⟩
  · rintro ⟨htab, h⟩
    exact (hp a htab).mp h

end Keys

end Pieces
