import Mathlib.Data.Nat.Digits.Lemmas
import Mathlib.Tactic.LinearCombination

/-! Conversion of a big number from base `m` to base `r` in machine words, one digit at a time.

    The number is kept as its base-`r` digits, lowest first. Reading one more base-`m` digit
    multiplies it by `m` and adds the digit: a carry passes over all digits, and what is left of
    it is pushed as new digits.

        carry ─▶ d₀ ─▶ d₁ ─▶ … ─▶ dₙ ─▶ pushed digits      dᵢ * m + carry  =  r * carry' + dᵢ'

    In words large enough for `r * m` nothing overflows, and the digits are always the shortest
    ones of the number read so far. -/

namespace Radix

/-- The result of a word operation; `none` is an overflow. -/
def checked (bound n : ℕ) : Option ℕ := if n < bound then some n else none

theorem checked_of_lt {bound n : ℕ} (h : n < bound) : checked bound n = some n := if_pos h

/-- One pass of the carry over the digits: `carry += d * m; d = carry % r; carry /= r`. -/
def carryPass (bound m r : ℕ) : List ℕ → ℕ → Option (List ℕ × ℕ)
  | [], carry => some ([], carry)
  | d :: ds, carry => do
    let product ← checked bound (d * m)
    let sum ← checked bound (carry + product)
    let (ds, carry) ← carryPass bound m r ds (sum / r)
    pure (sum % r :: ds, carry)

/-- `while carry > 0 { push(carry % r); carry /= r }`, in a base of at least two. -/
def pushCarry (r carry : ℕ) : List ℕ :=
  if _h : 0 < carry ∧ 1 < r then carry % r :: pushCarry r (carry / r) else []
termination_by carry
decreasing_by exact Nat.div_lt_self _h.1 _h.2

/-- Read one more digit. -/
def readDigit (bound m r : ℕ) (num : List ℕ) (v : ℕ) : Option (List ℕ) := do
  let (num, carry) ← carryPass bound m r num v
  pure (num ++ pushCarry r carry)

/-- The shortest digits of a number, a single zero for zero. -/
def numeral (r n : ℕ) : List ℕ := if n = 0 then [0] else Nat.digits r n

/-! ### Numerals -/

section Numeral
variable {r : ℕ}

theorem numeral_of_pos {n : ℕ} (hn : 0 < n) : numeral r n = Nat.digits r n :=
  if_neg (Nat.ne_of_gt hn)

theorem numeral_ne_nil (r n : ℕ) : numeral r n ≠ [] := by
  rcases Nat.eq_zero_or_pos n with rfl | hn
  · simp [numeral]
  · rw [numeral_of_pos hn]
    exact Nat.digits_ne_nil_iff_ne_zero.mpr (Nat.ne_of_gt hn)

theorem lt_of_mem_numeral (hr : 1 < r) {n d : ℕ} (h : d ∈ numeral r n) : d < r := by
  rcases Nat.eq_zero_or_pos n with rfl | hn
  · rw [List.mem_singleton.mp h]
    omega
  · rw [numeral_of_pos hn] at h
    exact Nat.digits_lt_base hr h

theorem ofDigits_numeral (r n : ℕ) : Nat.ofDigits r (numeral r n) = n := by
  rcases Nat.eq_zero_or_pos n with rfl | hn
  · simp [numeral]
  · rw [numeral_of_pos hn, Nat.ofDigits_digits]

/-- A number is not below the power of its highest digit. -/
theorem pow_length_digits_le (hr : 1 < r) {n : ℕ} (hn : 0 < n) :
    r ^ ((Nat.digits r n).length - 1) ≤ n := by
  have hle := Nat.base_pow_length_digits_le r n hr (Nat.ne_of_gt hn)
  have hpos := List.length_pos_iff.mpr (Nat.digits_ne_nil_iff_ne_zero (b := r).mpr hn.ne')
  obtain ⟨k, hk⟩ := Nat.exists_eq_succ_of_ne_zero hpos.ne'
  rw [hk, Nat.pow_succ'] at hle
  rw [hk, Nat.succ_sub_one]
  exact Nat.le_of_mul_le_mul_left hle (by omega)

/-- Digits that are no longer than their number needs are its numeral. -/
theorem eq_numeral (hr : 1 < r) {l : List ℕ} (hlt : ∀ d ∈ l, d < r)
    (hlen : l.length = 1 ∨ l ≠ [] ∧ r ^ (l.length - 1) ≤ Nat.ofDigits r l) :
    l = numeral r (Nat.ofDigits r l) := by
  rcases hlen with hlen | ⟨hne, hle⟩
  · obtain ⟨d, rfl⟩ := List.length_eq_one_iff.mp hlen
    rw [Nat.ofDigits_singleton]
    rcases Nat.eq_zero_or_pos d with rfl | hd
    · rfl
    · rw [numeral_of_pos hd, Nat.digits_of_lt r d (Nat.ne_of_gt hd) (hlt d (by simp))]
  · have hpos : 0 < Nat.ofDigits r l := (Nat.pow_pos (by omega)).trans_le hle
    rw [numeral_of_pos hpos, Nat.digits_ofDigits r hr l hlt]
    -- a last digit of zero would leave the number below that power
    intro _ hlast
    have hsplit := List.dropLast_append_getLast hne
    rw [hlast] at hsplit
    rw [← hsplit, Nat.ofDigits_append_zero] at hle
    have hbelow := Nat.ofDigits_lt_base_pow_length hr (l := l.dropLast)
      fun d hd => hlt d (List.mem_of_mem_dropLast hd)
    simp only [List.length_append, List.length_singleton, Nat.add_sub_cancel] at hle
    omega

end Numeral

/-! ### The carry -/

section Carry
variable {bound m r : ℕ}

theorem pushCarry_eq_digits (hr : 1 < r) (carry : ℕ) :
    pushCarry r carry = Nat.digits r carry := by
  induction carry using Nat.strong_induction_on with
  | _ carry ih =>
    rw [pushCarry]
    rcases Nat.eq_zero_or_pos carry with rfl | hpos
    · simp
    · rw [dif_pos ⟨hpos, hr⟩, ih _ (Nat.div_lt_self hpos hr), Nat.digits_def' hr hpos]

/-- A digit times `m` plus a carry below `m` leaves a carry below `m`. -/
theorem carry_lt {d carry : ℕ} (hd : d < r) (hc : carry < m) : carry + d * m < r * m := by
  calc carry + d * m < m + d * m := by omega
    _ = (d + 1) * m := by ring
    _ ≤ r * m := Nat.mul_le_mul_right m hd

/-- A pass over digits of base `r` keeps them digits, and with the carry that is left they denote
    `m` times the number plus the carry that came in. -/
theorem carryPass_spec (hb : r * m ≤ bound) : ∀ (ds : List ℕ) (carry : ℕ),
    (∀ d ∈ ds, d < r) → carry < m → ∃ ds' carry',
      carryPass bound m r ds carry = some (ds', carry') ∧ carry' < m ∧
      ds'.length = ds.length ∧ (∀ d ∈ ds', d < r) ∧
      Nat.ofDigits r ds' + r ^ ds.length * carry' = carry + m * Nat.ofDigits r ds
  | [], carry, _, hc => ⟨[], carry, rfl, hc, rfl, by simp, by simp⟩
  | d :: ds, carry, hds, hc => by
    have hd : d < r := hds d List.mem_cons_self
    have hsum := carry_lt hd hc
    have hdiv : (carry + d * m) / r < m :=
      Nat.div_lt_of_lt_mul (by rwa [Nat.mul_comm] at hsum ⊢)
    obtain ⟨ds', carry', hpass, hc', hlen, hds', hval⟩ := carryPass_spec hb ds
      ((carry + d * m) / r) (fun x hx => hds x (List.mem_cons_of_mem _ hx)) hdiv
    refine ⟨(carry + d * m) % r :: ds', carry', ?_, hc', by simp [hlen], ?_, ?_⟩
    · simp only [carryPass, checked_of_lt (show d * m < bound by omega),
        checked_of_lt (show carry + d * m < bound by omega), Option.bind_eq_bind,
        Option.bind_some, hpass, Option.pure_def]
    · intro x hx
      rcases List.mem_cons.mp hx with rfl | hx
      · exact Nat.mod_lt _ (by omega)
      · exact hds' x hx
    · have hmod := Nat.mod_add_div (carry + d * m) r
      rw [Nat.ofDigits_cons, Nat.ofDigits_cons, List.length_cons, pow_succ]
      linear_combination r * hval + hmod

/-- Reading a digit takes the numeral of a number to the numeral of the number read. -/
theorem readDigit_numeral (hr : 1 < r) (hb : r * m ≤ bound) {v : ℕ} (hv : v < m) (n : ℕ) :
    readDigit bound m r (numeral r n) v = some (numeral r (v + m * n)) := by
  obtain ⟨ds, carry, hpass, -, hlen, hds, hval⟩ := carryPass_spec hb (numeral r n) v
    (fun d hd => lt_of_mem_numeral hr hd) hv
  rw [ofDigits_numeral] at hval
  rw [readDigit, hpass]
  simp only [Option.bind_eq_bind, Option.bind_some, Option.pure_def, Option.some.injEq]
  have hdigits : ∀ d ∈ ds ++ pushCarry r carry, d < r := by
    intro d hd
    rw [pushCarry_eq_digits hr] at hd
    rcases List.mem_append.mp hd with hd | hd
    · exact hds d hd
    · exact Nat.digits_lt_base hr hd
  have hvalue : Nat.ofDigits r (ds ++ pushCarry r carry) = v + m * n := by
    rw [Nat.ofDigits_append, pushCarry_eq_digits hr, Nat.ofDigits_digits, hlen, hval]
  rw [← hvalue]
  refine eq_numeral hr hdigits ?_
  have hpos := List.length_pos_iff.mpr (numeral_ne_nil r n)
  rw [hvalue, pushCarry_eq_digits hr, List.length_append, hlen, ← List.length_pos_iff,
    List.length_append, hlen]
  rcases Nat.eq_zero_or_pos carry with rfl | hcarry
  · rcases Nat.eq_zero_or_pos n with rfl | hn
    · left
      simp [numeral]
    · -- nothing pushed: the number did not get smaller
      right
      have hle := pow_length_digits_le hr hn
      rw [← numeral_of_pos hn] at hle
      have hmn : n ≤ m * n := Nat.le_mul_of_pos_left n (by omega)
      rw [Nat.digits_zero, List.length_nil, Nat.add_zero]
      omega
  · -- the digits pushed count for the carry that was left
    right
    have hlenc := List.length_pos_iff.mpr
      (Nat.digits_ne_nil_iff_ne_zero.mpr (Nat.ne_of_gt hcarry) : Nat.digits r carry ≠ [])
    have hsplit : (numeral r n).length + (Nat.digits r carry).length - 1 =
        (numeral r n).length + ((Nat.digits r carry).length - 1) := by omega
    refine ⟨by omega, ?_⟩
    calc r ^ ((numeral r n).length + (Nat.digits r carry).length - 1)
        = r ^ (numeral r n).length * r ^ ((Nat.digits r carry).length - 1) := by
          rw [hsplit, pow_add]
      _ ≤ r ^ (numeral r n).length * carry :=
          Nat.mul_le_mul_left _ (pow_length_digits_le hr hcarry)
      _ ≤ v + m * n := by rw [← hval]; exact Nat.le_add_left _ _

/-- Reading the digits of a number, highest first, ends with its numeral. -/
theorem foldlM_readDigit (hr : 1 < r) (hb : r * m ≤ bound) : ∀ (vs : List ℕ) (n : ℕ),
    (∀ v ∈ vs, v < m) → vs.foldlM (readDigit bound m r) (numeral r n) =
      some (numeral r (Nat.ofDigits m vs.reverse + m ^ vs.length * n))
  | [], n, _ => by simp
  | v :: vs, n, h => by
    rw [List.foldlM_cons, readDigit_numeral hr hb (h v List.mem_cons_self)]
    refine (foldlM_readDigit hr hb vs _ fun x hx => h x (List.mem_cons_of_mem _ hx)).trans ?_
    rw [Nat.ofDigits_reverse_cons, List.length_cons]
    congr 2
    ring

end Carry

end Radix
