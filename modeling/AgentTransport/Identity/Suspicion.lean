import AgentTransport.Identity.Sybil

/-! What one more voucher does to the suspicion. The code asks how many evaluators there are for
    each record, and forgives the answer as the records grow:

        1                        one or two records, each by an evaluator of its own
        10 · v / (d · (d + 10))  otherwise, for d records by v evaluators

    A fresh evaluator raises `v` and `d` alike, so that the suspicion rises only while there are
    about twice as many records as evaluators. -/

namespace ATP
open F64

namespace SybilGuard

section Counts
variable {F : Type} {subject : AgentId} {records records' : List (InteractionRecord F)}
  {r : InteractionRecord F}

theorem voucherCount_le : voucherCount subject records ≤ directCount subject records := by
  refine (List.toFinset_card_le _).trans ?_
  rw [List.length_map, directCount]

theorem voucherCount_eq_zero_iff :
    voucherCount subject records = 0 ↔ directCount subject records = 0 := by
  simp [voucherCount, directCount]

/-- A record by a fresh evaluator, wherever it is stored, counts as one of each. -/
theorem counts_fresh (hadd : records'.Perm (r :: records)) (hsub : r.subject = subject)
    (hfresh : ∀ x ∈ records, x.subject = subject → x.evaluator ≠ r.evaluator) :
    directCount subject records' = directCount subject records + 1 ∧
      voucherCount subject records' = voucherCount subject records + 1 := by
  have hrel : (records'.filter fun x => x.subject = subject).Perm
      (r :: records.filter fun x => x.subject = subject) := by
    have hfilter := hadd.filter fun x => x.subject = subject
    rwa [List.filter_cons, if_pos (decide_eq_true hsub)] at hfilter
  have hnew : r.evaluator ∉
      ((records.filter fun x => x.subject = subject).map (·.evaluator)).toFinset := by
    rw [List.mem_toFinset, List.mem_map]
    rintro ⟨x, hx, heq⟩
    obtain ⟨hmem, hx⟩ := List.mem_filter.mp hx
    exact hfresh x hmem (of_decide_eq_true hx) heq
  refine ⟨hrel.length_eq, ?_⟩
  rw [voucherCount, List.toFinset_eq_of_perm _ _ (hrel.map _), List.map_cons, List.toFinset_cons,
    Finset.card_insert_of_notMem hnew, voucherCount]

end Counts

section Exact
variable {K : Type} [Field K] [LinearOrder K] [IsStrictOrderedRing K] [FloorRing K]
  {subject : AgentId} {records records' : List (InteractionRecord K)} {r : InteractionRecord K}

/-- The suspicion from `d` records by `v` evaluators. -/
def suspicion (d v : ℕ) : K :=
  if d < 3 ∧ v = d then if d = 0 then 0 else 1 else (10 * v : ℕ) / (d * (d + 10) : ℕ)

theorem sybilSuspicion_eq : (sybilSuspicion subject records : K) =
    suspicion (directCount subject records) (voucherCount subject records) := by
  have hle : voucherCount subject records ≤ directCount subject records := voucherCount_le
  have hzero : voucherCount subject records = 0 ↔ directCount subject records = 0 :=
    voucherCount_eq_zero_iff
  simp only [sybilSuspicion, suspicion]
  generalize directCount subject records = d at hle hzero ⊢
  generalize voucherCount subject records = v at hle hzero ⊢
  rcases Nat.eq_zero_or_pos v with hv | hv
  · rw [if_pos hv, hzero.mp hv, hv, if_pos ⟨by omega, rfl⟩, if_pos rfl]
  have hd : 0 < d := hv.trans_le hle
  have hdK : (0 : K) < d := by exact_mod_cast hd
  have hvK : (v : K) ≤ d := by exact_mod_cast hle
  rw [if_neg hv.ne', if_neg hd.ne', if_neg hd.ne']
  simp only [lit_field, Rat.cast_natCast]
  by_cases hfew : d < 3 ∧ v = d
  · -- each evaluator gave one record
    obtain ⟨hd3, rfl⟩ := hfew
    have hratio : (v / v : K) = 1 := div_self hdK.ne'
    rw [hratio, if_pos ⟨hd3, by norm_num⟩, if_pos ⟨hd3, rfl⟩]
    exact clamp_of_unit ⟨zero_le_one, le_refl 1⟩
  · have hlow : ¬ (d < 3 ∧ (v / d : K) > ((8 / 10 : ℚ) : K)) := by
      rintro ⟨hd3, hratio⟩
      -- two records by one evaluator
      obtain rfl : d = 2 := by omega
      obtain rfl : v = 1 := by omega
      norm_num at hratio
    rw [if_neg hlow, if_neg hfew, clamp_of_unit]
    · push_cast
      field_simp
      ring
    · have hshare : (v / d : K) ≤ 1 := (div_le_one hdK).mpr hvK
      have hdecay : (1 : K) ≤ 1 + d * ((1 / 10 : ℚ) : K) := by
        push_cast
        linarith [hdK]
      exact ⟨by positivity, (div_le_one (zero_lt_one.trans_le hdecay)).mpr (hshare.trans hdecay)⟩

/-- When one more record, by one more evaluator, makes the suspicion no less. -/
theorem suspicion_succ_iff {d v : ℕ} (hle : v ≤ d) (hzero : v = 0 ↔ d = 0) :
    (suspicion d v : K) ≤ suspicion (d + 1) (v + 1) ↔ d ≤ 1 ∨ v * (2 * d + 11) ≤ d * (d + 10) := by
  have hcases : d ≤ 1 ∨ d = 2 ∧ v = 2 ∨ 2 ≤ d ∧ ¬ (d < 3 ∧ v = d) := by omega
  rcases hcases with hone | ⟨rfl, rfl⟩ | ⟨htwo, hmany⟩
  · -- the first two records make the subject as suspicious as can be
    obtain rfl : v = d := by omega
    have hone' : (suspicion (v + 1) (v + 1) : K) = 1 := by
      rw [suspicion, if_pos ⟨by omega, rfl⟩, if_neg (Nat.succ_ne_zero v)]
    refine iff_of_true ?_ (Or.inl hone)
    rw [hone', suspicion, if_pos ⟨by omega, rfl⟩]
    split_ifs
    · exact zero_le_one
    · exact le_refl 1
  · -- a third evaluator gives the doubts up
    norm_num [suspicion]
  · have hmany' : ¬ (d + 1 < 3 ∧ v + 1 = d + 1) := by omega
    have hd : (0 : K) < d := by exact_mod_cast (by omega : 0 < d)
    rw [suspicion, suspicion, if_neg hmany, if_neg hmany',
      div_le_div_iff₀ (by positivity) (by positivity), or_iff_right (by omega)]
    norm_cast
    constructor
    · intro h
      linarith
    · intro h
      linarith

/-- When a record by a fresh evaluator makes the subject no less suspicious. -/
theorem fresh_evaluator_iff (hadd : records'.Perm (r :: records)) (hsub : r.subject = subject)
    (hfresh : ∀ x ∈ records, x.subject = subject → x.evaluator ≠ r.evaluator) :
    sybilSuspicion subject records ≤ sybilSuspicion subject records' ↔
      directCount subject records ≤ 1 ∨
        voucherCount subject records * (2 * directCount subject records + 11) ≤
          directCount subject records * (directCount subject records + 10) := by
  obtain ⟨hd, hv⟩ := counts_fresh hadd hsub hfresh
  rw [sybilSuspicion_eq, sybilSuspicion_eq, hd, hv]
  exact suspicion_succ_iff voucherCount_le voucherCount_eq_zero_iff

end Exact

/-- Three records by one evaluator, and a fourth by another. -/
theorem fresh_evaluator_raises :
    let old : InteractionRecord ℚ := ⟨⟨2⟩, ⟨1⟩, .analysis, 1, 50, 0, 0, []⟩
    let fresh := { old with evaluator := ⟨3⟩ }
    sybilSuspicion ⟨1⟩ [old, old, old] ≤ sybilSuspicion ⟨1⟩ [fresh, old, old, old] := by
  intro old fresh
  have hsub : fresh.subject = ⟨1⟩ := rfl
  have hnew : ∀ x ∈ [old, old, old], x.subject = ⟨1⟩ → x.evaluator ≠ fresh.evaluator := by
    decide +kernel
  have hmany : voucherCount ⟨1⟩ [old, old, old] * (2 * directCount ⟨1⟩ [old, old, old] + 11) ≤
      directCount ⟨1⟩ [old, old, old] * (directCount ⟨1⟩ [old, old, old] + 10) := by
    decide +kernel
  exact (fresh_evaluator_iff (List.Perm.refl _) hsub hnew).mpr (Or.inr hmany)

/-- The third evaluator in a row lowers the suspicion from 1 to 10/13. -/
theorem third_evaluator_lowers :
    let old : InteractionRecord ℚ := ⟨⟨2⟩, ⟨1⟩, .analysis, 1, 50, 0, 0, []⟩
    let second := { old with evaluator := ⟨3⟩ }
    let third := { old with evaluator := ⟨4⟩ }
    ¬ sybilSuspicion ⟨1⟩ [old, second] ≤ sybilSuspicion ⟨1⟩ [old, second, third] := by
  decide +kernel

end SybilGuard

end ATP
