import AgentTransport.Lib.Ranks
import Mathlib.Algebra.Order.Field.Basic
import Mathlib.Algebra.BigOperators.Ring.List
import Mathlib.Tactic.Linarith
import Mathlib.Tactic.Ring

/-! Exponential moving averages: the latest value counts its share, and everything before it the
    rest, so that a value that was followed by `i` others counts `share · (1 - share)^i`. -/

namespace MovingAverage
open Ranks
variable {K : Type} [Field K]

/-- The average of some values, the latest last, when it was `x₀` before them. -/
def average (share x₀ : K) (xs : List K) : K :=
  (1 - share) ^ xs.length * x₀ + share * ranked (fun i x => (1 - share) ^ i * x) xs.reverse

variable {share x₀ : K} {xs : List K}

@[simp] theorem average_nil : average share x₀ [] = x₀ := by simp [average, ranked]

theorem average_concat (x : K) :
    average share x₀ (xs ++ [x]) = (1 - share) * average share x₀ xs + share * x := by
  have hshift : ranked (fun i x => (1 - share) ^ (i + 1) * x) xs.reverse =
      (1 - share) * ranked (fun i x => (1 - share) ^ i * x) xs.reverse := by
    rw [ranked, ranked, ← List.sum_map_mul_left]
    simp only [pow_succ', mul_assoc]
  rw [average, List.reverse_concat, ranked_cons, hshift, average, List.length_append,
    List.length_singleton, pow_succ, pow_zero]
  ring

variable [LinearOrder K] [IsStrictOrderedRing K]

/-- What is below all values, the first included, is below the average. -/
theorem le_average {c : K} (h0 : 0 ≤ share) (h1 : share ≤ 1) (hfirst : c ≤ x₀)
    (h : ∀ x ∈ xs, c ≤ x) : c ≤ average share x₀ xs := by
  induction xs using List.reverseRecOn with
  | nil => rwa [average_nil]
  | append_singleton xs x ih =>
    have hrest : (1 - share) * c ≤ (1 - share) * average share x₀ xs :=
      mul_le_mul_of_nonneg_left (ih fun y hy => h y (by simp [hy])) (sub_nonneg.mpr h1)
    have hlast : share * c ≤ share * x := mul_le_mul_of_nonneg_left (h x (by simp)) h0
    rw [average_concat]
    linarith

end MovingAverage
