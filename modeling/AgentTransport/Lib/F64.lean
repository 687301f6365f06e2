import Mathlib.Data.Rat.Floor
import Mathlib.Data.List.Sort
import Mathlib.Tactic.Linarith
import Mathlib.Tactic.Positivity
import Mathlib.Tactic.Ring

/-! Floating-point arithmetic as a program uses it, behind one interface.

    `F64 F` collects the operations: arithmetic, the two IEEE comparisons, literals, and the
    conversion of a number of seconds to a duration. Everything else of the standard library is
    defined from them the way Rust defines it (`min` and `max` skip a NaN, `clamp` keeps one,
    `sort_by` with `partial_cmp` treats an incomparable pair as equal).
    The laws come in two layers: `OrderedF64` (what IEEE comparisons satisfy, NaN included) and
    `LawfulF64` (monotonicity of the rounded operations). -/

/-- The operations of `f64`. Durations are counted in nanoseconds. -/
class F64 (F : Type) extends
    Zero F, One F, Add F, Sub F, Mul F, Div F, Neg F, LE F, LT F where
  decLe : DecidableLE F
  decLt : DecidableLT F
  /-- `x < f64::INFINITY`. -/
  ltInfinity : F → Bool
  /-- The value of a literal, or of an integer cast with `as f64`. -/
  lit : ℚ → F
  /-- `Duration::from_secs_f64`; `none` is its panic (negative, NaN or too large). -/
  fromSecs : F → Option ℕ
  /-- The saturating cast `as u64`. -/
  toU64 : F → UInt64

namespace F64
variable {F : Type} [F64 F]

instance : DecidableLE F := decLe
instance : DecidableLT F := decLt

/-- `x` is not a NaN. -/
def IsNum (x : F) : Prop := x ≤ x

instance (x : F) : Decidable (IsNum x) := inferInstanceAs (Decidable (x ≤ x))

/-- `f64::min`: the lesser of two numbers, the other argument when one is a NaN. -/
def min (a b : F) : F := if a < b ∨ ¬ IsNum b then a else b

/-- `f64::max`. -/
def max (a b : F) : F := if b < a ∨ ¬ IsNum b then a else b

/-- `f64::clamp`. -/
def clamp (x lo hi : F) : F :=
  let y := if x < lo then lo else x
  if hi < y then hi else y

/-- `==`: false on a NaN. -/
def ieeeEq (a b : F) : Bool := decide (a ≤ b) && decide (b ≤ a)

/-- `iter().sum::<f64>()`. -/
def sum (xs : List F) : F := xs.foldl (· + ·) 0

/-- `iter().product::<f64>()`. -/
def product (xs : List F) : F := xs.foldl (· * ·) 1

/-- `f64::powi`. -/
def powi (x : F) (n : ℤ) : F :=
  if 0 ≤ n then product (List.replicate n.toNat x) else 1 / product (List.replicate (-n).toNat x)

/-- `f64::is_finite`. -/
def isFinite (x : F) : Bool := ltInfinity x && ltInfinity (-x)

/-- `Duration::as_secs_f64`. -/
def asSecs (d : ℕ) : F := lit ((d / 10 ^ 9 : ℕ) : ℚ) + lit ((d % 10 ^ 9 : ℕ) : ℚ) / lit (10 ^ 9)

/-- `Duration::MAX`: a `u64` of seconds and the nanoseconds below one more. -/
def maxDuration : ℕ := 2 ^ 64 * 10 ^ 9 - 1

/-- The duration `Duration::from_secs_f64` returns when it returns. -/
def secsOf (x : F) : ℕ := (fromSecs x).getD 0

/-- `sort_by(|a, b| key(a).partial_cmp(&key(b)).unwrap_or(Equal))`: a stable sort. -/
def sortAsc {α : Type} (key : α → F) (l : List α) : List α :=
  l.insertionSort (fun a b => ¬ key b < key a)

/-- `sort_by(|a, b| key(b).partial_cmp(&key(a)).unwrap_or(Equal))`. -/
def sortDesc {α : Type} (key : α → F) (l : List α) : List α :=
  l.insertionSort (fun a b => ¬ key a < key b)

theorem sortAsc_perm {α : Type} (key : α → F) (l : List α) : (sortAsc key l).Perm l :=
  List.perm_insertionSort _ l

theorem sortDesc_perm {α : Type} (key : α → F) (l : List α) : (sortDesc key l).Perm l :=
  List.perm_insertionSort _ l

@[simp] theorem mem_sortAsc {α : Type} {key : α → F} {l : List α} {a : α} :
    a ∈ sortAsc key l ↔ a ∈ l := (sortAsc_perm key l).mem_iff

@[simp] theorem mem_sortDesc {α : Type} {key : α → F} {l : List α} {a : α} :
    a ∈ sortDesc key l ↔ a ∈ l := (sortDesc_perm key l).mem_iff

@[simp] theorem length_sortAsc {α : Type} (key : α → F) (l : List α) :
    (sortAsc key l).length = l.length := (sortAsc_perm key l).length_eq

end F64

/-- What the IEEE comparisons satisfy. A NaN is below nothing, itself included. -/
class OrderedF64 (F : Type) [F64 F] : Prop where
  le_trans : ∀ a b c : F, a ≤ b → b ≤ c → a ≤ c
  lt_iff : ∀ a b : F, a < b ↔ a ≤ b ∧ ¬ b ≤ a
  le_total : ∀ a b : F, F64.IsNum a → F64.IsNum b → a ≤ b ∨ b ≤ a
  isNum_of_le : ∀ a b : F, a ≤ b → F64.IsNum a ∧ F64.IsNum b

/-- What the rounded operations satisfy: rounding is monotone and keeps `0`, `1` and its inputs. It
    may give two durations the same seconds, unless one is twice the other. -/
class LawfulF64 (F : Type) [F64 F] : Prop extends OrderedF64 F where
  zero_le_one : (0 : F) ≤ 1
  le_one_mul : ∀ a : F, F64.IsNum a → a ≤ 1 * a
  zero_add_le : ∀ a : F, F64.IsNum a → 0 + a ≤ a
  mul_unit : ∀ a b : F, 0 ≤ a → a ≤ 1 → 0 ≤ b → b ≤ 1 → 0 ≤ a * b ∧ a * b ≤ a ∧ a * b ≤ b
  isNum_of_mul : ∀ a b : F, F64.IsNum (a * b) → F64.IsNum a ∧ F64.IsNum b
  le_add : ∀ a b : F, 0 ≤ a → 0 ≤ b → a ≤ a + b ∧ b ≤ a + b
  isNum_one_sub : ∀ a : F, F64.IsNum a → F64.IsNum (1 - a)
  lit_unit : ∀ q : ℚ, 0 ≤ q → q ≤ 1 → (0 : F) ≤ F64.lit q ∧ (F64.lit q : F) ≤ 1
  isNum_asSecs_div : ∀ d e : ℕ, (0 : F) < F64.asSecs e → F64.IsNum (F64.asSecs d / F64.asSecs e : F)
  asSecs_le : ∀ d e : ℕ, d ≤ e → (F64.asSecs d : F) ≤ F64.asSecs e
  asSecs_lt : ∀ d e : ℕ, 0 < d → 2 * d ≤ e → e ≤ F64.maxDuration →
    (F64.asSecs d : F) < F64.asSecs e

/-- Exact arithmetic: there is no NaN, and different durations have different seconds. -/
structure F64.Exact (F : Type) [F64 F] : Prop where
  isNum : ∀ a : F, F64.IsNum a
  asSecs_lt : ∀ d e : ℕ, d < e → (F64.asSecs d : F) < F64.asSecs e

namespace F64
variable {F : Type} [F64 F]

section Order
variable [OrderedF64 F] {a b c : F}

protected theorem le_trans (hab : a ≤ b) (hbc : b ≤ c) : a ≤ c :=
  OrderedF64.le_trans a b c hab hbc

protected theorem lt_irrefl (a : F) : ¬ a < a := by
  intro h
  obtain ⟨h₁, h₂⟩ := (OrderedF64.lt_iff a a).mp h
  exact h₂ h₁

protected theorem le_of_lt (h : a < b) : a ≤ b := ((OrderedF64.lt_iff a b).mp h).1

protected theorem lt_of_lt_of_le (hab : a < b) (hbc : b ≤ c) : a < c := by
  obtain ⟨h₁, h₂⟩ := (OrderedF64.lt_iff a b).mp hab
  exact (OrderedF64.lt_iff a c).mpr ⟨F64.le_trans h₁ hbc, fun h => h₂ (F64.le_trans hbc h)⟩

protected theorem lt_of_le_of_lt (hab : a ≤ b) (hbc : b < c) : a < c := by
  obtain ⟨h₁, h₂⟩ := (OrderedF64.lt_iff b c).mp hbc
  exact (OrderedF64.lt_iff a c).mpr ⟨F64.le_trans hab h₁, fun h => h₂ (F64.le_trans h hab)⟩

theorem IsNum.of_le_left (h : a ≤ b) : IsNum a := (OrderedF64.isNum_of_le a b h).1

theorem IsNum.of_le_right (h : a ≤ b) : IsNum b := (OrderedF64.isNum_of_le a b h).2

/-- Between numbers, the failure of `<` is the converse `≤`. -/
protected theorem le_of_not_lt (ha : IsNum a) (hb : IsNum b) (h : ¬ a < b) : b ≤ a := by
  by_contra hba
  have hab := (OrderedF64.le_total a b ha hb).resolve_right hba
  exact h ((OrderedF64.lt_iff a b).mpr ⟨hab, hba⟩)

end Order

section Arithmetic
variable [LawfulF64 F]

/-- A clamped number lies in the unit interval. -/
theorem clamp_unit {x : F} (h : IsNum x) : 0 ≤ clamp x 0 1 ∧ clamp x 0 1 ≤ 1 := by
  have h01 : (0 : F) ≤ 1 := LawfulF64.zero_le_one
  have h0 : IsNum (0 : F) := IsNum.of_le_left h01
  have h1 : IsNum (1 : F) := IsNum.of_le_right h01
  simp only [clamp]
  by_cases hlo : x < 0
  · have hc : ¬ (1 : F) < 0 := fun hc => ((OrderedF64.lt_iff _ _).mp hc).2 h01
    rw [if_pos hlo, if_neg hc]
    exact ⟨h0, h01⟩
  · rw [if_neg hlo]
    by_cases hhi : (1 : F) < x
    · rw [if_pos hhi]; exact ⟨h01, h1⟩
    · rw [if_neg hhi]; exact ⟨F64.le_of_not_lt h h0 hlo, F64.le_of_not_lt h1 h hhi⟩

/-- A share of the unit interval, weighted by a literal of it, is not negative. -/
theorem weighted_nonneg {w : ℚ} (h0 : 0 ≤ w) (h1 : w ≤ 1) {x : F} (hx : 0 ≤ x ∧ x ≤ 1) :
    0 ≤ lit w * x := by
  obtain ⟨hw0, hw1⟩ := LawfulF64.lit_unit (F := F) w h0 h1
  exact (LawfulF64.mul_unit _ _ hw0 hw1 hx.1 hx.2).1

theorem add_nonneg {a b : F} (ha : 0 ≤ a) (hb : 0 ≤ b) : 0 ≤ a + b :=
  F64.le_trans ha (LawfulF64.le_add a b ha hb).1

/-- `clamp` returns a number only from a number. -/
theorem isNum_of_clamp {x : F} (h : IsNum (clamp x 0 1)) : IsNum x := by
  simp only [clamp] at h
  by_cases hlo : x < 0
  · exact IsNum.of_le_left (F64.le_of_lt hlo)
  · rw [if_neg hlo] at h
    by_cases hhi : (1 : F) < x
    · exact IsNum.of_le_right (F64.le_of_lt hhi)
    · rwa [if_neg hhi] at h

/-- A product of numbers of the unit interval stays there and is below each factor. -/
theorem foldl_mul_unit : ∀ (xs : List F) (z : F), 0 ≤ z → z ≤ 1 → (∀ x ∈ xs, 0 ≤ x ∧ x ≤ 1) →
    0 ≤ xs.foldl (· * ·) z ∧ xs.foldl (· * ·) z ≤ z ∧ ∀ x ∈ xs, xs.foldl (· * ·) z ≤ x
  | [], z, h0, h1, _ => ⟨h0, IsNum.of_le_left h1, by simp⟩
  | x :: xs, z, h0, h1, h => by
    obtain ⟨hx0, hx1⟩ := h x List.mem_cons_self
    obtain ⟨hm0, hmz, hmx⟩ := LawfulF64.mul_unit z x h0 h1 hx0 hx1
    obtain ⟨hp0, hpz, hpx⟩ := foldl_mul_unit xs (z * x) hm0 (F64.le_trans hmz h1)
      (fun y hy => h y (List.mem_cons_of_mem _ hy))
    refine ⟨hp0, F64.le_trans hpz hmz, ?_⟩
    intro y hy
    rcases List.mem_cons.mp hy with rfl | hy
    · exact F64.le_trans hpz hmx
    · exact hpx y hy

/-- Every factor of a product that is a number is one. -/
theorem isNum_of_foldl_mul : ∀ (xs : List F) (z : F), IsNum (xs.foldl (· * ·) z) →
    IsNum z ∧ ∀ x ∈ xs, IsNum x
  | [], _, h => ⟨h, by simp⟩
  | x :: xs, z, h => by
    obtain ⟨hzx, hxs⟩ := isNum_of_foldl_mul xs (z * x) h
    obtain ⟨hz, hx⟩ := LawfulF64.isNum_of_mul z x hzx
    refine ⟨hz, ?_⟩
    intro y hy
    rcases List.mem_cons.mp hy with rfl | hy
    · exact hx
    · exact hxs y hy

/-- A sum of non-negative terms is above each term. -/
theorem foldl_add_nonneg : ∀ (xs : List F) (z : F), 0 ≤ z → (∀ x ∈ xs, 0 ≤ x) →
    z ≤ xs.foldl (· + ·) z ∧ ∀ x ∈ xs, x ≤ xs.foldl (· + ·) z
  | [], z, h0, _ => ⟨IsNum.of_le_right h0, by simp⟩
  | x :: xs, z, h0, h => by
    obtain ⟨hz, hx⟩ := LawfulF64.le_add z x h0 (h x List.mem_cons_self)
    obtain ⟨hs, hxs⟩ := foldl_add_nonneg xs (z + x) (F64.le_trans h0 hz)
      (fun y hy => h y (List.mem_cons_of_mem _ hy))
    refine ⟨F64.le_trans hz hs, ?_⟩
    intro y hy
    rcases List.mem_cons.mp hy with rfl | hy
    · exact F64.le_trans hx hs
    · exact hxs y hy

end Arithmetic

end F64
