import Mathlib.Algebra.Order.Ring.Defs
import Mathlib.Algebra.Order.Field.Basic
import Mathlib.Algebra.BigOperators.Group.List.Basic
import Mathlib.Data.List.MinMax
import Mathlib.Tactic.Linarith
import Mathlib.Tactic.Ring

/-! Finite distributions, and the one of a process that escalates: each stage ends it with some
    probability once it is reached, and what passes all stages is left for the end.

        reach ─▶ stage 1 ──1 - p₁──▶ stage 2 ──1 - p₂──▶ … ──▶ left
                   │ p₁                │ p₂
                   ▼                   ▼
                 stop                stop -/

namespace Escalation
variable {K α : Type} [Field K]

/-- The probabilities of stopping at each stage, from the probability of reaching the first and each
    stage's own probability of stopping once it is reached. -/
def stopping : K → List (K × α) → List (K × α)
  | _, [] => []
  | reach, (p, a) :: rest => (reach * p, a) :: stopping (reach * (1 - p)) rest

/-- The probabilities of reaching each stage. -/
def reaching : K → List (K × α) → List (K × α)
  | _, [] => []
  | reach, (p, a) :: rest => (reach, a) :: reaching (reach * (1 - p)) rest

/-- The probability of passing all stages. -/
def left : K → List (K × α) → K
  | reach, [] => reach
  | reach, (p, _) :: rest => left (reach * (1 - p)) rest

theorem map_stopping : ∀ (reach : K) (stages : List (K × α)),
    (stopping reach stages).map (·.2) = stages.map (·.2)
  | _, [] => rfl
  | reach, (p, a) :: rest => congrArg (a :: ·) (map_stopping (reach * (1 - p)) rest)

/-- Each stage stops with its share of what reaches it, and passes the rest on. -/
theorem sum_stopping : ∀ (reach : K) (stages : List (K × α)),
    ((stopping reach stages).map (·.1)).sum + left reach stages = reach
  | reach, [] => by simp [stopping, left]
  | reach, (p, a) :: rest => by
    have ih := sum_stopping (reach * (1 - p)) rest
    rw [stopping, left, List.map_cons, List.sum_cons, add_assoc, ih]
    ring

variable [LinearOrder K]

/-- Finitely many outcomes, with probabilities that sum to one. -/
structure Distribution (K α : Type) [Field K] [LinearOrder K] where
  atoms : List (K × α)
  nonneg : ∀ p ∈ atoms, 0 ≤ p.1
  total : (atoms.map (·.1)).sum = 1

namespace Distribution
variable (d : Distribution K α) (f : α → K)

/-- The expected value. -/
def mean : K := (d.atoms.map fun p => p.1 * f p.2).sum

variable {d f}

theorem mean_neg : d.mean (fun a => -f a) = -d.mean f := by
  rw [mean, mean, List.sum_neg, List.map_map]
  simp only [Function.comp_def, mul_neg]

variable [IsStrictOrderedRing K]

theorem mean_le {c : K} (h : ∀ p ∈ d.atoms, f p.2 ≤ c) : d.mean f ≤ c := by
  have hsum : ∀ l : List (K × α), (∀ p ∈ l, 0 ≤ p.1) → (∀ p ∈ l, f p.2 ≤ c) →
      (l.map fun p => p.1 * f p.2).sum ≤ (l.map (·.1)).sum * c := by
    intro l
    induction l with
    | nil => simp
    | cons p l ih =>
      intro h0 hc
      have hp : p.1 * f p.2 ≤ p.1 * c :=
        mul_le_mul_of_nonneg_left (hc p List.mem_cons_self) (h0 p List.mem_cons_self)
      have hl := ih (fun q hq => h0 q (List.mem_cons_of_mem _ hq))
        fun q hq => hc q (List.mem_cons_of_mem _ hq)
      rw [List.map_cons, List.sum_cons, List.map_cons, List.sum_cons, add_mul]
      linarith
  have hd := hsum d.atoms d.nonneg h
  rw [d.total, one_mul] at hd
  exact hd

theorem le_mean {c : K} (h : ∀ p ∈ d.atoms, c ≤ f p.2) : c ≤ d.mean f := by
  have hneg : d.mean (fun a => -f a) ≤ -c := mean_le fun p hp => neg_le_neg (h p hp)
  rw [mean_neg] at hneg
  exact neg_le_neg_iff.mp hneg

/-- Some outcome is at least as large as the expected value. -/
theorem exists_mean_le : ∃ p ∈ d.atoms, d.mean f ≤ f p.2 := by
  cases hmax : d.atoms.argmax (fun p => f p.2) with
  | none =>
    have htotal := d.total
    rw [List.argmax_eq_none.mp hmax] at htotal
    exact absurd htotal (by simp)
  | some p =>
    have hbest : ∀ q ∈ d.atoms, f q.2 ≤ f p.2 := fun q hq =>
      List.le_of_mem_argmax (f := fun p : K × α => f p.2) hq hmax
    exact ⟨p, List.argmax_mem hmax, mean_le hbest⟩

/-- Some outcome is at most as large as the expected value. -/
theorem exists_le_mean : ∃ p ∈ d.atoms, f p.2 ≤ d.mean f := by
  obtain ⟨p, hp, hle⟩ := exists_mean_le (d := d) (f := fun a => -f a)
  rw [mean_neg] at hle
  exact ⟨p, hp, neg_le_neg_iff.mp hle⟩

end Distribution

variable [IsStrictOrderedRing K]

theorem nonneg_stopping : ∀ {reach : K} {stages : List (K × α)}, 0 ≤ reach →
    (∀ p ∈ stages, 0 ≤ p.1 ∧ p.1 ≤ 1) →
      (∀ p ∈ stopping reach stages, 0 ≤ p.1) ∧ 0 ≤ left reach stages
  | reach, [], h, _ => ⟨by simp [stopping], h⟩
  | reach, (p, a) :: rest, h, hstages => by
    obtain ⟨hp0, hp1⟩ := hstages (p, a) List.mem_cons_self
    obtain ⟨hstop, hleft⟩ := nonneg_stopping (mul_nonneg h (sub_nonneg.mpr hp1))
      fun q hq => hstages q (List.mem_cons_of_mem _ hq)
    refine ⟨fun q hq => ?_, hleft⟩
    rcases List.mem_cons.mp hq with rfl | hq
    · exact mul_nonneg h hp0
    · exact hstop q hq

/-- Where an escalation ends: at the stage that stops it, or at the end. -/
def law (stages : List (K × α)) (final : α) (h : ∀ p ∈ stages, 0 ≤ p.1 ∧ p.1 ≤ 1) :
    Distribution K α where
  atoms := stopping 1 stages ++ [(left 1 stages, final)]
  nonneg p hp := by
    obtain ⟨hstop, hleft⟩ := nonneg_stopping zero_le_one h
    rcases List.mem_append.mp hp with hp | hp
    · exact hstop p hp
    · rw [List.mem_singleton.mp hp]
      exact hleft
  total := by
    rw [List.map_append, List.sum_append, List.map_singleton, List.sum_singleton]
    exact sum_stopping 1 stages

end Escalation
