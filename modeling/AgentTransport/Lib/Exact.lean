import AgentTransport.Lib.F64
import Mathlib.Algebra.Order.Round
import Mathlib.Algebra.Order.Floor.Ring
import Mathlib.Tactic.NormNum

/-! Exact arithmetic: the numbers of any ordered field with a floor, the rational and the real
    numbers among them, with no rounding, no infinity and no NaN. -/

namespace F64

section Field
variable {K : Type} [Field K] [LinearOrder K] [FloorRing K]

/-- Rounding to the nearest integer, halves to even. -/
def roundHalfEven (x : K) : ℤ :=
  let r := x - ⌊x⌋
  if r < 1 / 2 then ⌊x⌋
  else if 1 / 2 < r then ⌊x⌋ + 1
  else if ⌊x⌋ % 2 = 0 then ⌊x⌋ else ⌊x⌋ + 1

/-- `Duration::from_secs_f64` of an exact number of seconds. -/
def exactFromSecs (x : K) : Option ℕ :=
  if x < 0 then none
  else
    let n := (roundHalfEven (x * 10 ^ 9)).toNat
    if n ≤ maxDuration then some n else none

/-- The cast `as u64` of an exact number: truncated, and clamped to the range. -/
def exactToU64 (x : K) : UInt64 := UInt64.ofNat (Min.min ⌊x⌋.toNat (2 ^ 64 - 1))

variable (K) in
/-- The operations of an ordered field. -/
@[reducible] def ofField : F64 K where
  decLe := inferInstance
  decLt := inferInstance
  ltInfinity _ := true
  lit q := (q : K)
  fromSecs := exactFromSecs
  toU64 := exactToU64

instance (priority := low) : F64 K := ofField K

@[simp] theorem lit_field (q : ℚ) : (lit q : K) = q := rfl

@[simp] theorem isNum_field (x : K) : IsNum x := le_refl x

theorem asSecs_field (d : ℕ) : (asSecs d : K) = d / 10 ^ 9 := by
  have h : ((10 ^ 9 * (d / 10 ^ 9) + d % 10 ^ 9 : ℕ) : K) = d := by rw [Nat.div_add_mod]
  simp only [asSecs, lit_field]
  rw [← h]
  push_cast
  ring

theorem max_field (a b : K) : F64.max a b = Max.max a b := by
  simp only [F64.max, isNum_field, not_true_eq_false, or_false]
  rcases lt_or_ge b a with h | h
  · rw [if_pos h, max_eq_left h.le]
  · rw [if_neg h.not_gt, max_eq_right h]

theorem min_field (a b : K) : F64.min a b = Min.min a b := by
  simp only [F64.min, isNum_field, not_true_eq_false, or_false]
  rcases lt_or_ge a b with h | h
  · rw [if_pos h, min_eq_left h.le]
  · rw [if_neg h.not_gt, min_eq_right h]

theorem ieeeEq_field (a b : K) : ieeeEq a b = decide (a = b) := by
  rw [ieeeEq, ← Bool.decide_and, decide_eq_decide, le_antisymm_iff]

theorem clamp_field (x : K) {lo hi : K} (h : lo ≤ hi) :
    clamp x lo hi = Max.max lo (Min.min x hi) := by
  rw [clamp]
  rcases lt_or_ge x lo with hlo | hlo
  · rw [if_pos hlo, if_neg h.not_gt, max_eq_left ((min_le_left x hi).trans hlo.le)]
  · rw [if_neg hlo.not_gt]
    rcases lt_or_ge hi x with hhi | hhi
    · rw [if_pos hhi, min_eq_right hhi.le, max_eq_right h]
    · rw [if_neg hhi.not_gt, min_eq_left hhi, max_eq_right hlo]

theorem product_replicate (x : K) (n : ℕ) : product (List.replicate n x) = x ^ n := by
  rw [product, ← List.prod_eq_foldl, List.prod_replicate]

theorem powi_natCast (x : K) (n : ℕ) : powi x n = x ^ n := by
  rw [powi, if_pos (Int.natCast_nonneg n), Int.toNat_natCast, product_replicate]

theorem powi_neg_natCast (x : K) {n : ℕ} (h : 0 < n) : powi x (-(n : ℤ)) = 1 / x ^ n := by
  rw [powi, if_neg (by omega), neg_neg, Int.toNat_natCast, product_replicate]

theorem one_powi (n : ℤ) : powi (1 : K) n = 1 := by
  rw [powi, product_replicate, product_replicate, one_pow, one_pow, div_one, ite_self]

/-- A dot product of two vectors divided by numbers. -/
theorem sum_zipWith_div (x y : K) : ∀ u v : List K,
    (List.zipWith (· * ·) (u.map (· / x)) (v.map (· / y))).sum =
      (List.zipWith (· * ·) u v).sum / (x * y)
  | [], v => by simp
  | a :: u, [] => by simp
  | a :: u, b :: v => by
    simp only [List.map_cons, List.zipWith_cons_cons, List.sum_cons, sum_zipWith_div x y u v]
    rw [add_div, div_mul_div_comm]

theorem clamp_le_iff {x y lo hi : K} (h : lo ≤ hi) :
    clamp x lo hi ≤ y ↔ lo ≤ y ∧ (x ≤ y ∨ hi ≤ y) := by
  rw [clamp_field x h, max_le_iff, min_le_iff]

/-- Clamping keeps the order, except that it hides what is beyond an end. -/
theorem clamp_le_clamp_iff {x y lo hi : K} (h : lo < hi) :
    clamp x lo hi ≤ clamp y lo hi ↔ x ≤ y ∨ hi ≤ y ∨ x ≤ lo := by
  rw [clamp_field x h.le, clamp_field y h.le, max_le_iff, and_iff_right (le_max_left _ _),
    le_max_iff, le_min_iff, and_iff_left (min_le_right x hi), min_le_iff, min_le_iff,
    or_iff_left h.not_ge]
  tauto

theorem clamp_mono {x y lo hi : K} (h : lo < hi) (hxy : x ≤ y) : clamp x lo hi ≤ clamp y lo hi :=
  (clamp_le_clamp_iff h).mpr (Or.inl hxy)

theorem clamp_of_unit {x : K} (h : 0 ≤ x ∧ x ≤ 1) : clamp x 0 1 = x := by
  rw [clamp_field x (h.1.trans h.2), min_eq_left h.2, max_eq_right h.1]

theorem clamp_eq_one_iff {x : K} : clamp x 0 1 = 1 ↔ 1 ≤ x := by
  rw [clamp_field x zero_le_one]
  constructor
  · intro h
    by_contra! hx
    have hlt : Max.max 0 (Min.min x 1) < 1 := max_lt zero_lt_one (min_lt_of_left_lt hx)
    exact hlt.ne h
  · intro h
    rw [min_eq_right h, max_eq_right zero_le_one]

theorem clamp_eq_zero_iff {x : K} : clamp x 0 1 = 0 ↔ x ≤ 0 := by
  rw [clamp_field x zero_le_one, max_eq_left_iff, min_le_iff]
  exact or_iff_left zero_lt_one.not_ge

/-- Equal numbers, or numbers beyond the same end. -/
theorem clamp_eq_unit_iff {x y : K} (hy : 0 ≤ y ∧ y ≤ 1) :
    clamp x 0 1 = y ↔ x = y ∨ (1 ≤ x ∧ y = 1) ∨ (x ≤ 0 ∧ y = 0) := by
  constructor
  · intro h
    rcases le_or_gt x 0 with h0 | h0
    · exact Or.inr (Or.inr ⟨h0, h ▸ clamp_eq_zero_iff.mpr h0⟩)
    · rcases le_or_gt 1 x with h1 | h1
      · exact Or.inr (Or.inl ⟨h1, h ▸ clamp_eq_one_iff.mpr h1⟩)
      · exact Or.inl (h ▸ (clamp_of_unit ⟨h0.le, h1.le⟩).symm)
  · rintro (rfl | ⟨hx, rfl⟩ | ⟨hx, rfl⟩)
    · exact clamp_of_unit hy
    · exact clamp_eq_one_iff.mpr hx
    · exact clamp_eq_zero_iff.mpr hx

/-- Strictly inside the interval `clamp` is the identity. -/
theorem clamp_eq_iff {x c : K} (h0 : 0 < c) (h1 : c < 1) : clamp x 0 1 = c ↔ x = c := by
  rw [clamp_field x zero_le_one]
  rcases lt_or_ge 0 x with hlo | hlo
  · rcases lt_or_ge x 1 with hhi | hhi
    · rw [min_eq_left hhi.le, max_eq_right hlo.le]
    · rw [min_eq_right hhi, max_eq_right zero_le_one]
      exact ⟨fun h => absurd h h1.ne', fun h => absurd (h ▸ h1) hhi.not_gt⟩
  · rw [max_eq_left ((min_le_left x 1).trans hlo)]
    exact ⟨fun h => absurd h h0.ne, fun h => absurd (h ▸ h0) hlo.not_gt⟩

variable [IsStrictOrderedRing K]

instance : OrderedF64 K where
  le_trans _ _ _ := le_trans
  lt_iff _ _ := lt_iff_le_not_ge
  le_total a b _ _ := le_total a b
  isNum_of_le a b _ := ⟨le_refl a, le_refl b⟩

/-- Around zero `clamp` keeps the sign. -/
theorem clamp_one_eq_zero_iff {x : K} : clamp x (-1) 1 = 0 ↔ x = 0 := by
  have hle : (-1 : K) ≤ 1 := neg_le_self zero_le_one
  rw [clamp_field x hle]
  constructor
  · intro h
    rcases lt_trichotomy x 0 with hneg | rfl | hpos
    · have hlt : Max.max (-1) (Min.min x 1) < 0 :=
        max_lt neg_one_lt_zero (min_lt_of_left_lt hneg)
      exact absurd h hlt.ne
    · rfl
    · have hgt : 0 < Max.max (-1) (Min.min x 1) := lt_max_of_lt_right (lt_min hpos zero_lt_one)
      exact absurd h hgt.ne'
  · rintro rfl
    rw [min_eq_left zero_le_one, max_eq_right neg_one_lt_zero.le]

/-- Clamping brings numbers closer together. -/
theorem clamp_sub_le {x y : K} (h : x ≤ y) : clamp y 0 1 - clamp x 0 1 ≤ y - x := by
  rw [clamp_field x zero_le_one, clamp_field y zero_le_one]
  have hmin : Min.min y 1 ≤ Min.min x 1 + (y - x) := by
    rcases le_total x 1 with hx | hx
    · rw [min_eq_left hx, add_sub_cancel]
      exact min_le_left y 1
    · rw [min_eq_right hx]
      linarith [min_le_right y 1]
  have hmax : Max.max 0 (Min.min y 1) ≤ Max.max 0 (Min.min x 1) + (y - x) :=
    max_le (by linarith [le_max_left 0 (Min.min x 1)])
      (hmin.trans (by linarith [le_max_right 0 (Min.min x 1)]))
  linarith

/-- What `clamp` takes off: what is above one, less what is below zero. -/
theorem sub_clamp (x : K) : x - clamp x 0 1 = Max.max (x - 1) 0 - Max.max (-x) 0 := by
  rw [clamp_field x zero_le_one]
  rcases le_total x 0 with h0 | h0
  · rw [min_eq_left (h0.trans zero_le_one), max_eq_left h0, max_eq_right (by linarith),
      max_eq_left (by linarith)]
    ring
  · rw [max_eq_right (neg_nonpos.mpr h0), max_eq_right (le_min h0 zero_le_one)]
    rcases le_total x 1 with h1 | h1
    · rw [min_eq_left h1, max_eq_right (by linarith)]
      ring
    · rw [min_eq_right h1, max_eq_left (by linarith)]
      ring

theorem asSecs_field_lt {d e : ℕ} (h : d < e) : (asSecs d : K) < asSecs e := by
  rw [asSecs_field, asSecs_field]
  gcongr

instance : LawfulF64 K where
  zero_le_one := zero_le_one
  le_one_mul a _ := (one_mul a).ge
  zero_add_le a _ := (zero_add a).le
  mul_unit a b ha ha1 hb hb1 := by
    refine ⟨mul_nonneg ha hb, ?_, ?_⟩
    · calc a * b ≤ a * 1 := by gcongr
        _ = a := mul_one a
    · calc a * b ≤ 1 * b := by gcongr
        _ = b := one_mul b
  isNum_of_mul a b _ := ⟨le_refl a, le_refl b⟩
  le_add a b ha hb := ⟨le_add_of_nonneg_right hb, le_add_of_nonneg_left ha⟩
  isNum_one_sub a _ := isNum_field (1 - a)
  lit_unit q h0 h1 := by
    rw [lit_field]
    exact ⟨by exact_mod_cast h0, by exact_mod_cast h1⟩
  isNum_asSecs_div d e _ := isNum_field _
  asSecs_le d e h := by
    rw [asSecs_field, asSecs_field]
    gcongr
  asSecs_lt d e hd h _ := asSecs_field_lt (by omega)

/-- Rounding does not go beyond an integer. -/
theorem roundHalfEven_le {x : K} {n : ℤ} (h : x ≤ n) : roundHalfEven x ≤ n := by
  have hfloor : ⌊x⌋ ≤ n := Int.floor_le_iff.mpr (h.trans_lt (lt_add_one _))
  rcases hfloor.lt_or_eq with hlt | heq
  · have hsucc : ⌊x⌋ + 1 ≤ n := hlt
    simp only [roundHalfEven]
    split_ifs <;> omega
  · -- the number is the integer itself
    have hx : x = n := le_antisymm h (heq ▸ Int.floor_le x)
    have hfrac : x - ⌊x⌋ < 1 / 2 := by
      rw [heq, hx, sub_self]
      norm_num
    simp only [roundHalfEven]
    rw [if_pos hfrac, heq]

omit [IsStrictOrderedRing K] in
theorem le_roundHalfEven {x : K} {n : ℤ} (h : n ≤ x) : n ≤ roundHalfEven x := by
  have hfloor : n ≤ ⌊x⌋ := Int.le_floor.mpr h
  simp only [roundHalfEven]
  split_ifs <;> omega

/-- A number is rounded to at most an odd integer when it is nearer to it than to the next. -/
theorem roundHalfEven_le_iff {x : K} {n : ℤ} (hn : n % 2 = 1) :
    roundHalfEven x ≤ n ↔ x < n + 1 / 2 := by
  rcases lt_trichotomy ⌊x⌋ n with hlt | heq | hgt
  · have hx : x < n := Int.floor_lt.mp hlt
    refine iff_of_true (roundHalfEven_le hx.le) (hx.trans (by norm_num))
  · rw [← heq] at hn ⊢
    simp only [roundHalfEven]
    split_ifs with h₁ h₂ h₃
    · exact iff_of_true le_rfl (by linarith)
    · exact iff_of_false (by omega) (by linarith)
    · omega
    · exact iff_of_false (by omega) (by linarith)
  · have hx : ((n + 1 : ℤ) : K) ≤ x := Int.le_floor.mp hgt
    have hle := le_roundHalfEven hx
    push_cast at hx
    exact iff_of_false (by omega) (by linarith)

theorem roundHalfEven_intCast (n : ℤ) : roundHalfEven (n : K) = n := by
  simp [roundHalfEven]

/-- When `Duration::from_secs_f64` returns. -/
theorem fromSecs_isSome_iff {x : K} :
    (fromSecs x).isSome ↔ 0 ≤ x ∧ x * 10 ^ 9 < 2 ^ 64 * 10 ^ 9 - 1 / 2 := by
  change (exactFromSecs x).isSome ↔ _
  have hodd : ((maxDuration : ℕ) : ℤ) % 2 = 1 := by decide
  have hcast : (((maxDuration : ℕ) : ℤ) : K) + 1 / 2 = 2 ^ 64 * 10 ^ 9 - 1 / 2 := by
    norm_num [maxDuration]
  rw [← hcast, ← roundHalfEven_le_iff hodd]
  simp only [exactFromSecs]
  split_ifs with hneg hle
  · exact iff_of_false (by simp) fun h => absurd hneg h.1.not_gt
  · exact iff_of_true rfl ⟨not_lt.mp hneg, by omega⟩
  · exact iff_of_false (by simp) fun h => hle (by omega)

/-- A multiple of a duration is no shorter than the duration. -/
theorem le_of_fromSecs_mul {p : K} (hp : 1 ≤ p) {d d' : ℕ}
    (h : fromSecs (asSecs d * p) = some d') : d ≤ d' := by
  change exactFromSecs (asSecs d * p) = some d' at h
  have hle : ((d : ℤ) : K) ≤ asSecs d * p * 10 ^ 9 := by
    rw [asSecs_field, mul_right_comm, div_mul_cancel₀ _ (by norm_num), Int.cast_natCast]
    exact le_mul_of_one_le_right (Nat.cast_nonneg d) hp
  have hround := le_roundHalfEven hle
  simp only [exactFromSecs] at h
  split_ifs at h
  obtain rfl := Option.some.inj h
  omega

/-- A fraction of a duration is no longer than the duration. -/
theorem secsOf_mul_asSecs_le {p : K} (hp : p ≤ 1) (d : ℕ) : secsOf (p * asSecs d) ≤ d := by
  have hround : (roundHalfEven (p * asSecs d * 10 ^ 9)).toNat ≤ d := by
    have hle : p * asSecs d * 10 ^ 9 ≤ ((d : ℤ) : K) := by
      rw [asSecs_field, mul_assoc, div_mul_cancel₀ _ (by norm_num), Int.cast_natCast]
      calc p * d ≤ 1 * d := by gcongr
        _ = d := one_mul _
    have := roundHalfEven_le hle
    omega
  change (exactFromSecs (p * asSecs d)).getD 0 ≤ d
  simp only [exactFromSecs]
  split_ifs
  · exact Nat.zero_le d
  · exact hround
  · exact Nat.zero_le d

/-- A duration is that of its seconds. -/
theorem secsOf_asSecs {d : ℕ} (h : d ≤ maxDuration) : secsOf (asSecs d : K) = d := by
  have hnonneg : ¬ (asSecs d : K) < 0 := by
    rw [asSecs_field, not_lt]
    positivity
  have hround : (roundHalfEven ((asSecs d : K) * 10 ^ 9)).toNat = d := by
    rw [asSecs_field, div_mul_cancel₀ _ (by norm_num), ← Int.cast_natCast (R := K),
      roundHalfEven_intCast]
    rfl
  change (exactFromSecs (asSecs d : K)).getD 0 = d
  simp only [exactFromSecs, hround]
  rw [if_neg hnonneg, if_pos h]
  rfl

theorem exact_field : Exact K := ⟨isNum_field, fun _ _ => asSecs_field_lt⟩

end Field

/-- Rational numbers, where everything can be evaluated. -/
instance : F64 ℚ := ofField ℚ

end F64
