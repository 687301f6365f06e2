import AgentTransport.Lib.Exact
import Mathlib.Data.List.Forall2

/-! Rounded arithmetic: every operation returns the exact result rounded, so that it keeps the
    order of its arguments wherever it returns a number at all. Exact arithmetic is the case in
    which nothing is rounded and everything is a number.

    What rounding may lose is a difference: two durations can have the same seconds. `TellsApart`
    says up to which duration none does. -/

/-- The operations keep the order of their arguments, as long as no NaN comes out. -/
class RoundedF64 (F : Type) [F64 F] : Prop extends LawfulF64 F where
  isNum_lit : ∀ q : ℚ, F64.IsNum (F64.lit q : F)
  isNum_of_add : ∀ a b : F, F64.IsNum (a + b) → F64.IsNum a ∧ F64.IsNum b
  add_le_add : ∀ a b c d : F, a ≤ b → c ≤ d → F64.IsNum (a + c) → F64.IsNum (b + d) →
    a + c ≤ b + d
  one_sub_unit : ∀ a : F, 0 ≤ a → a ≤ 1 → 0 ≤ 1 - a ∧ 1 - a ≤ 1
  sub_le_sub_left : ∀ a b c : F, a ≤ b → F64.IsNum (c - a) → F64.IsNum (c - b) → c - b ≤ c - a
  mul_le_mul_left : ∀ a b c : F, a ≤ b → 0 ≤ c → F64.IsNum (c * a) → F64.IsNum (c * b) →
    c * a ≤ c * b
  mul_le_mul_right : ∀ a b c : F, a ≤ b → 0 ≤ c → F64.IsNum (a * c) → F64.IsNum (b * c) →
    a * c ≤ b * c
  div_le_div_right : ∀ a b c : F, a ≤ b → 0 < c → F64.IsNum (a / c) → F64.IsNum (b / c) →
    a / c ≤ b / c
  asSecs_pos : ∀ d : ℕ, 0 < d → (0 : F) < F64.asSecs d
  ltInfinity_zero : F64.ltInfinity (0 : F) = true
  ltInfinity_of_le : ∀ a b : F, a ≤ b → F64.ltInfinity b = true → F64.ltInfinity a = true

namespace F64

/-- The seconds of a duration up to the limit differ from those of every longer one. -/
def TellsApart (F : Type) [F64 F] (limit : ℕ) : Prop :=
  ∀ d e : ℕ, d ≤ limit → d < e → (asSecs d : F) < asSecs e

section Rounded
variable {F : Type} [F64 F]

theorem Exact.tellsApart (h : Exact F) (limit : ℕ) : TellsApart F limit :=
  fun d e _ hlt => h.asSecs_lt d e hlt

section Order
variable [OrderedF64 F] {x y : F}

theorem TellsApart.le_of_le {limit d e : ℕ} (h : TellsApart F limit) (he : e ≤ limit)
    (hle : (asSecs d : F) ≤ asSecs e) : d ≤ e := by
  by_contra! hlt
  exact ((OrderedF64.lt_iff _ _).mp (h e d he hlt)).2 hle

/-- `min` against a number keeps the order of numbers. -/
theorem min_mono {b : F} (hb : IsNum b) (h : x ≤ y) : F64.min x b ≤ F64.min y b := by
  have hnum : ¬ ¬ IsNum b := not_not.mpr hb
  simp only [F64.min, hnum, or_false]
  by_cases hx : x < b
  · rw [if_pos hx]
    by_cases hy : y < b
    · rwa [if_pos hy]
    · rw [if_neg hy]
      exact F64.le_of_lt hx
  · have hbx : b ≤ x := F64.le_of_not_lt (IsNum.of_le_left h) hb hx
    have hy : ¬ y < b := fun hy =>
      ((OrderedF64.lt_iff _ _).mp hy).2 (F64.le_trans hbx h)
    rwa [if_neg hx, if_neg hy]

end Order

section Arithmetic
variable [RoundedF64 F] {x y : F}

/-- Clamping to the unit interval keeps the order. -/
theorem clamp_unit_mono (h : x ≤ y) : clamp x 0 1 ≤ clamp y 0 1 := by
  have hx := clamp_unit (IsNum.of_le_left h)
  have hy := clamp_unit (IsNum.of_le_right h)
  have h0 : IsNum (0 : F) := IsNum.of_le_left LawfulF64.zero_le_one
  have h1 : IsNum (1 : F) := IsNum.of_le_right LawfulF64.zero_le_one
  -- below the interval, above it, or both inside
  by_cases hx0 : x < 0
  · have hc : clamp x 0 1 = 0 := by
      have hno : ¬ (1 : F) < 0 := fun hc =>
        ((OrderedF64.lt_iff _ _).mp hc).2 LawfulF64.zero_le_one
      rw [clamp, if_pos hx0]
      exact if_neg hno
    rw [hc]
    exact hy.1
  · have hy0 : ¬ y < 0 := fun hlt => hx0 (F64.lt_of_le_of_lt h hlt)
    by_cases hy1 : 1 < y
    · have hc : clamp y 0 1 = 1 := by
        rw [clamp, if_neg hy0]
        exact if_pos hy1
      rw [hc]
      exact hx.2
    · have hx1 : ¬ 1 < x := fun hlt => hy1 (F64.lt_of_lt_of_le hlt h)
      have hcx : clamp x 0 1 = x := by
        rw [clamp, if_neg hx0]
        exact if_neg hx1
      have hcy : clamp y 0 1 = y := by
        rw [clamp, if_neg hy0]
        exact if_neg hy1
      rwa [hcx, hcy]

/-- The complement of a share is a number, and the smaller the greater the share. -/
theorem one_sub_anti (h : x ≤ y) : 1 - y ≤ 1 - x :=
  RoundedF64.sub_le_sub_left x y 1 h (LawfulF64.isNum_one_sub x (IsNum.of_le_left h))
    (LawfulF64.isNum_one_sub y (IsNum.of_le_right h))

/-- Place by place smaller factors of the unit interval have a smaller product. -/
theorem foldl_mul_mono : ∀ {xs ys : List F} {a b : F}, List.Forall₂ (· ≤ ·) xs ys →
    (∀ x ∈ xs, 0 ≤ x ∧ x ≤ 1) → (∀ y ∈ ys, 0 ≤ y ∧ y ≤ 1) → 0 ≤ a → a ≤ b → b ≤ 1 →
    xs.foldl (· * ·) a ≤ ys.foldl (· * ·) b
  | [], [], _, _, _, _, _, _, hab, _ => hab
  | x :: xs, y :: ys, a, b, .cons hxy h, hxs, hys, ha, hab, hb => by
    obtain ⟨hx0, hx1⟩ := hxs x List.mem_cons_self
    obtain ⟨hy0, hy1⟩ := hys y List.mem_cons_self
    have hb0 : 0 ≤ b := F64.le_trans ha hab
    have hax := LawfulF64.mul_unit a x ha (F64.le_trans hab hb) hx0 hx1
    have hbx := LawfulF64.mul_unit b x hb0 hb hx0 hx1
    have hby := LawfulF64.mul_unit b y hb0 hb hy0 hy1
    have hleft : a * x ≤ b * x := RoundedF64.mul_le_mul_right a b x hab hx0
      (IsNum.of_le_right hax.1) (IsNum.of_le_right hbx.1)
    have hright : b * x ≤ b * y := RoundedF64.mul_le_mul_left x y b hxy hb0
      (IsNum.of_le_right hbx.1) (IsNum.of_le_right hby.1)
    rw [List.foldl_cons, List.foldl_cons]
    exact foldl_mul_mono h (fun z hz => hxs z (List.mem_cons_of_mem _ hz))
      (fun z hz => hys z (List.mem_cons_of_mem _ hz)) hax.1 (F64.le_trans hleft hright)
      (F64.le_trans hby.2.1 hb)

theorem product_mono {xs ys : List F} (h : List.Forall₂ (· ≤ ·) xs ys)
    (hxs : ∀ x ∈ xs, 0 ≤ x ∧ x ≤ 1) (hys : ∀ y ∈ ys, 0 ≤ y ∧ y ≤ 1) : product xs ≤ product ys :=
  foldl_mul_mono h hxs hys LawfulF64.zero_le_one
    (IsNum.of_le_right (LawfulF64.zero_le_one (F := F)))
    (IsNum.of_le_right (LawfulF64.zero_le_one (F := F)))

end Arithmetic
end Rounded

/-! ### Exact arithmetic rounds nothing -/

section Field
variable {K : Type} [Field K] [LinearOrder K] [IsStrictOrderedRing K] [FloorRing K]

instance : RoundedF64 K where
  isNum_lit q := isNum_field _
  isNum_of_add a b _ := ⟨le_refl a, le_refl b⟩
  add_le_add a b c d hab hcd _ _ := by gcongr
  one_sub_unit a h0 h1 := ⟨sub_nonneg.mpr h1, sub_le_self 1 h0⟩
  sub_le_sub_left a b c h _ _ := sub_le_sub_left h c
  mul_le_mul_left a b c h hc _ _ := mul_le_mul_of_nonneg_left h hc
  mul_le_mul_right a b c h hc _ _ := mul_le_mul_of_nonneg_right h hc
  div_le_div_right a b c h hc _ _ := div_le_div_of_nonneg_right h hc.le
  asSecs_pos d hd := by
    rw [asSecs_field]
    positivity
  ltInfinity_zero := rfl
  ltInfinity_of_le _ _ _ _ := rfl

variable (K) in
theorem tellsApart_field (limit : ℕ) : TellsApart K limit := exact_field.tellsApart limit

end Field
end F64
