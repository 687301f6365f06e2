import AgentTransport.Lib.Collections
import AgentTransport.Lib.Ranks
import Mathlib.Algebra.BigOperators.Ring.List
import Mathlib.Algebra.Order.BigOperators.Group.List
import Mathlib.Algebra.Order.Field.Basic
import Mathlib.Tactic.Ring

/-! Weighted means of a list of values, `Σ q · w / Σ w`. Over the parts of a list, each with the
    weight and the mean of its own, the mean is the same as over the list. -/

namespace WeightedMean
open Collections
variable {α κ K : Type} [Field K]

/-- The total weight. -/
def mass (w : α → K) (l : List α) : K := (l.map w).sum

/-- The sum of the values by their weights. -/
def moment (w q : α → K) (l : List α) : K := (l.map fun a => q a * w a).sum

def mean (w q : α → K) (l : List α) : K := moment w q l / mass w l

variable {w q q' : α → K} {l l' : List α}

theorem mass_perm (h : l.Perm l') : mass w l = mass w l' := (h.map w).sum_eq

theorem moment_perm (h : l.Perm l') : moment w q l = moment w q l' :=
  (h.map fun a => q a * w a).sum_eq

theorem mean_map {β : Type} (f : β → α) (l : List β) :
    mean w q (l.map f) = mean (w ∘ f) (q ∘ f) l := by
  rw [mean, mean, mass, mass, moment, moment, List.map_map, List.map_map]
  rfl

/-- Values without a weight do not count. -/
theorem moment_congr (h : ∀ a ∈ l, w a ≠ 0 → q a = q' a) : moment w q l = moment w q' l := by
  refine congrArg List.sum (List.map_congr_left fun a ha => ?_)
  rcases eq_or_ne (w a) 0 with h0 | h0
  · rw [h0, mul_zero, mul_zero]
  · rw [h a ha h0]

theorem mean_congr (h : ∀ a ∈ l, w a ≠ 0 → q a = q' a) : mean w q l = mean w q' l := by
  rw [mean, mean, moment_congr h]

/-- A factor of all weights is a factor of the sums. -/
theorem sums_scale {w' : α → K} {c : K} (h : ∀ a ∈ l, w' a = c * w a) :
    moment w' q l = c * moment w q l ∧ mass w' l = c * mass w l := by
  constructor
  · rw [moment, moment, ← List.sum_map_mul_left]
    exact congrArg List.sum (List.map_congr_left fun a ha => by rw [h a ha, mul_left_comm])
  · rw [mass, mass, ← List.sum_map_mul_left]
    exact congrArg List.sum (List.map_congr_left h)

theorem mean_mul_mass (h : mass w l ≠ 0) : mean w q l * mass w l = moment w q l :=
  div_mul_cancel₀ _ h

theorem moment_const (c : K) : moment w (fun _ => c) l = c * mass w l :=
  List.sum_map_mul_left l w c

theorem moment_sub : moment w (fun a => q a - q' a) l = moment w q l - moment w q' l := by
  simp only [moment, sub_mul]
  exact Ranks.sum_map_sub (fun a => q a * w a) (fun a => q' a * w a) l

section Parts
variable [DecidableEq κ] (key : α → κ) {keys : List κ}

/-- The elements of one key. -/
def part (l : List α) (k : κ) : List α := l.filter fun a => key a = k

theorem mass_parts (hnd : keys.Nodup) (hkeys : ∀ a ∈ l, key a ∈ keys) :
    mass w l = mass (fun k => mass w (part key l k)) keys := by
  rw [mass, sum_map_eq_sum_filter key w l fun a ha => List.mem_toFinset.mpr (hkeys a ha)]
  exact List.sum_toFinset _ hnd

end Parts

section Order
variable [LinearOrder K] [IsStrictOrderedRing K]

theorem mass_nonneg (h : ∀ a ∈ l, 0 ≤ w a) : 0 ≤ mass w l :=
  List.sum_nonneg (by simpa using h)

theorem mass_pos (h : ∀ a ∈ l, 0 < w a) (hne : l ≠ []) : 0 < mass w l :=
  List.sum_pos _ (by simpa using h) (by simpa using hne)

theorem moment_mono (h : ∀ a ∈ l, 0 ≤ w a) (hq : ∀ a ∈ l, w a ≠ 0 → q a ≤ q' a) :
    moment w q l ≤ moment w q' l := by
  refine List.sum_le_sum fun a ha => ?_
  rcases eq_or_ne (w a) 0 with h0 | h0
  · rw [h0, mul_zero, mul_zero]
  · exact mul_le_mul_of_nonneg_right (hq a ha h0) (h a ha)

/-- A bound on the values that count is a bound on the mean. -/
theorem le_mean {c : K} (h : ∀ a ∈ l, 0 ≤ w a) (hpos : 0 < mass w l)
    (hq : ∀ a ∈ l, w a ≠ 0 → c ≤ q a) : c ≤ mean w q l := by
  rw [mean, le_div_iff₀ hpos, ← moment_const]
  exact moment_mono h hq

theorem mean_le {c : K} (h : ∀ a ∈ l, 0 ≤ w a) (hpos : 0 < mass w l)
    (hq : ∀ a ∈ l, w a ≠ 0 → q a ≤ c) : mean w q l ≤ c := by
  rw [mean, div_le_iff₀ hpos, ← moment_const]
  exact moment_mono h hq

/-- Values that are not negative sum up to zero only where all of them are zero. -/
theorem moment_eq_zero_iff (h : ∀ a ∈ l, 0 < w a) (hq : ∀ a ∈ l, 0 ≤ q a) :
    moment w q l = 0 ↔ ∀ a ∈ l, q a = 0 := by
  constructor
  · intro hsum a ha
    have hnonneg : ∀ x ∈ l.map fun a => q a * w a, 0 ≤ x := by
      intro x hx
      obtain ⟨b, hb, rfl⟩ := List.mem_map.mp hx
      exact mul_nonneg (hq b hb) (h b hb).le
    have hzero := List.all_zero_of_le_zero_le_of_sum_eq_zero hnonneg hsum (List.mem_map_of_mem ha)
    exact (mul_eq_zero.mp hzero).resolve_right (h a ha).ne'
  · intro hzero
    refine List.sum_eq_zero fun x hx => ?_
    obtain ⟨a, ha, rfl⟩ := List.mem_map.mp hx
    rw [hzero a ha, zero_mul]

section Positive
variable (h : ∀ a ∈ l, 0 < w a) (hne : l ≠ [])
include h hne

theorem mean_eq_iff : mean w q l = mean w q' l ↔ moment w (fun a => q a - q' a) l = 0 := by
  rw [mean, mean, div_left_inj' (mass_pos h hne).ne', moment_sub, sub_eq_zero]

theorem mean_const (c : K) : mean w (fun _ => c) l = c := by
  rw [mean, moment_const, mul_div_cancel_right₀ _ (mass_pos h hne).ne']

/-- A mean reaches a lower bound of its values only where all values do. -/
theorem mean_eq_bot_iff {c : K} (hq : ∀ a ∈ l, c ≤ q a) :
    mean w q l = c ↔ ∀ a ∈ l, q a = c := by
  rw [← mean_const h hne c, mean_eq_iff h hne,
    moment_eq_zero_iff h fun a ha => sub_nonneg.mpr (hq a ha), mean_const h hne c]
  simp only [sub_eq_zero]

theorem mean_eq_top_iff {c : K} (hq : ∀ a ∈ l, q a ≤ c) :
    mean w q l = c ↔ ∀ a ∈ l, q a = c := by
  rw [← mean_const h hne c, eq_comm, mean_eq_iff h hne,
    moment_eq_zero_iff h fun a ha => sub_nonneg.mpr (hq a ha), mean_const h hne c]
  simp only [sub_eq_zero, eq_comm]

end Positive

/-- The mean of the means of the parts. -/
theorem mean_parts [DecidableEq κ] (key : α → κ) {keys : List κ} (h : ∀ a ∈ l, 0 < w a)
    (hnd : keys.Nodup) (hkeys : ∀ a ∈ l, key a ∈ keys) :
    mean w q l = mean (fun k => mass w (part key l k)) (fun k => mean w q (part key l k)) keys := by
  have hpart : ∀ k, mean w q (part key l k) * mass w (part key l k) =
      moment w q (part key l k) := by
    intro k
    rcases eq_or_ne (part key l k) [] with hnil | hne
    · simp [hnil, mass, moment]
    · exact mean_mul_mass (mass_pos (fun a ha => h a (List.mem_of_mem_filter ha)) hne).ne'
  have hmoment : moment w q l =
      moment (fun k => mass w (part key l k)) (fun k => mean w q (part key l k)) keys := by
    simp only [moment, hpart]
    exact mass_parts key hnd hkeys
  rw [mean, hmoment, mass_parts key hnd hkeys, ← mean]

end Order

end WeightedMean
