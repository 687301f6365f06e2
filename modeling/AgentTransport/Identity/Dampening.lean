import AgentTransport.Identity.Sybil
import AgentTransport.Identity.TrustMean
import Mathlib.Algebra.Order.Archimedean.Basic

/-! Dampening along a chain of vouchers: hop `k` adds at most `α^k`, for as long as the exponent
    fits an `i32`. The cast of the hop count wraps, so that from hop `2^31` on the exponents are
    negative: a trusted voucher there adds all the trust there is. -/

namespace ATP
open F64 Ranks WeightedMean

namespace SybilGuard
variable {K : Type} [Field K] [LinearOrder K] [IsStrictOrderedRing K] [FloorRing K]
  {lib : External K} {g : SybilGuard K} {subject : AgentId} {records : List (InteractionRecord K)}
  {now : DateTime} {chain : List AgentId}

/-- What the voucher at place `n` of a chain adds, counted from zero. -/
def gain (lib : External K) (g : SybilGuard K) (subject : AgentId)
    (records : List (InteractionRecord K)) (now : DateTime) (chain : List AgentId) (n : ℕ) : K :=
  g.chainTrust lib subject (chain.take (n + 1)) records now -
    g.chainTrust lib subject (chain.take n) records now

/-- Each hop adds between nothing and its power of `α`, and nothing beyond the maximum depth; all of
    them add at most the powers together; and one voucher is the single-hop formula. -/
structure Dampened (lib : External K) (g : SybilGuard K) (subject : AgentId)
    (records : List (InteractionRecord K)) (now : DateTime) (chain : List AgentId) : Prop where
  hop : ∀ n, 0 ≤ gain lib g subject records now chain n ∧
    gain lib g subject records now chain n ≤ g.alpha ^ (n + 1)
  beyond : ∀ n, g.maxDepth ≤ n → gain lib g subject records now chain n = 0
  total : g.chainTrust lib subject chain records now ≤ g.directTrust lib subject records now +
    ∑ k ∈ Finset.range (Min.min chain.length g.maxDepth), g.alpha ^ (k + 1)
  single : 1 ≤ g.maxDepth → ∀ voucher, g.chainTrust lib subject [voucher] records now =
    g.transitiveTrust lib subject voucher records now

/-! ### What a hop adds -/

theorem aggregateTrust_unit {e : TrustEngine K} (hprior : 0 ≤ e.prior ∧ e.prior ≤ 1) :
    0 ≤ e.computeAggregateTrust lib subject records now ∧
      e.computeAggregateTrust lib subject records now ≤ 1 := by
  simp only [TrustEngine.computeAggregateTrust]
  split_ifs
  · exact hprior
  · exact hprior
  · exact clamp_unit (isNum_field _)

theorem alpha_unit (alpha : K) (maxDepth : ℕ) (e : TrustEngine K) :
    0 ≤ (new alpha maxDepth e).alpha ∧ (new alpha maxDepth e).alpha ≤ 1 :=
  clamp_unit (isNum_field alpha)

omit [IsStrictOrderedRing K] in
/-- The exponent as it was meant: while it fits, or where it does not matter. -/
theorem dampening_eq {i : ℕ} (hdepth : i < g.maxDepth) (h : i + 1 < 2 ^ 31 ∨ g.alpha = 1) :
    dampening g i = g.alpha ^ (i + 1) := by
  rw [dampening, if_pos hdepth]
  rcases h with hi | hone
  · have hcast : Int.bmod (i + 1) (2 ^ 32) = ((i + 1 : ℕ) : ℤ) := by
      rw [Int.bmod_eq_of_le (by omega) (by omega)]
      push_cast
      rfl
    rw [hcast, powi_natCast]
  · rw [hone, one_powi, one_pow]

section Prior
variable (hprior : 0 ≤ g.trustEngine.prior ∧ g.trustEngine.prior ≤ 1)
include hprior

/-- The empty chain is no exception. -/
theorem chainTrust_eq_clamp (chain : List AgentId) :
    g.chainTrust lib subject chain records now =
      clamp (g.directTrust lib subject records now +
        ranked (contribution lib g subject records now) chain) 0 1 := by
  rw [chainTrust_eq]
  split_ifs with hnil
  · subst hnil
    have hdirect : 0 ≤ g.directTrust lib subject records now ∧
      g.directTrust lib subject records now ≤ 1 := aggregateTrust_unit hprior
    simpa [ranked] using (clamp_of_unit hdirect).symm
  · rfl

theorem contribution_unit {i : ℕ} (h0 : 0 ≤ dampening g i) (voucher : AgentId) :
    0 ≤ contribution lib g subject records now i voucher ∧
      contribution lib g subject records now i voucher ≤ dampening g i := by
  have hv : 0 ≤ g.directTrust lib voucher records now ∧
    g.directTrust lib voucher records now ≤ 1 := aggregateTrust_unit hprior
  have ha : 0 ≤ g.attestation lib subject voucher records now ∧
    g.attestation lib subject voucher records now ≤ 1 := aggregateTrust_unit hprior
  exact ⟨mul_nonneg h0 (mul_nonneg hv.1 ha.1),
    mul_le_of_le_one_right h0 (mul_le_one₀ hv.2 ha.1 ha.2)⟩

variable (lib subject records now)
  (hmeant : ∀ i < Min.min chain.length g.maxDepth, dampening g i = g.alpha ^ (i + 1))
  (halpha : 0 ≤ g.alpha)
include hmeant halpha

/-- One more voucher adds a number between zero and its power of `α`. -/
theorem ranked_take_succ (n : ℕ) : ∃ c, (0 ≤ c ∧ c ≤ g.alpha ^ (n + 1)) ∧
    (g.maxDepth ≤ n → c = 0) ∧
      ranked (contribution lib g subject records now) (chain.take (n + 1)) =
        ranked (contribution lib g subject records now) (chain.take n) + c := by
  have hpow : 0 ≤ g.alpha ^ (n + 1) := pow_nonneg halpha _
  rcases Nat.lt_or_ge n chain.length with hn | hn
  · refine ⟨contribution lib g subject records now n chain[n], ?_, fun hdeep => ?_, ?_⟩
    · rcases Nat.lt_or_ge n g.maxDepth with hdepth | hdepth
      · have hdamp : dampening g n = g.alpha ^ (n + 1) := hmeant n (lt_min hn hdepth)
        rw [← hdamp] at hpow ⊢
        exact contribution_unit hprior hpow _
      · rw [contribution, dampening, if_neg hdepth.not_gt, zero_mul]
        exact ⟨le_refl 0, hpow⟩
    · rw [contribution, dampening, if_neg hdeep.not_gt, zero_mul]
    · rw [List.take_succ_eq_append_getElem hn, ranked_concat, List.length_take, min_eq_left hn.le]
  · refine ⟨0, ⟨le_refl 0, hpow⟩, fun _ => rfl, ?_⟩
    rw [List.take_of_length_le hn, List.take_of_length_le (hn.trans n.le_succ), add_zero]

theorem gain_unit (n : ℕ) : (0 ≤ gain lib g subject records now chain n ∧
      gain lib g subject records now chain n ≤ g.alpha ^ (n + 1)) ∧
    (g.maxDepth ≤ n → gain lib g subject records now chain n = 0) := by
  obtain ⟨c, ⟨h0, hle⟩, hdeep, hsum⟩ := ranked_take_succ lib subject records now hprior hmeant
    halpha n
  rw [gain, chainTrust_eq_clamp hprior, chainTrust_eq_clamp hprior, hsum]
  set s := g.directTrust lib subject records now +
    ranked (contribution lib g subject records now) (chain.take n) with hs
  rw [← add_assoc, ← hs]
  have hmono : s ≤ s + c := le_add_of_nonneg_right h0
  refine ⟨⟨sub_nonneg.mpr (clamp_mono zero_lt_one hmono), ?_⟩, fun hd => ?_⟩
  · exact (clamp_sub_le hmono).trans (by rwa [add_sub_cancel_left])
  · rw [hdeep hd, add_zero, sub_self]

/-- The sum of the gains. -/
theorem chainTrust_take_le (n : ℕ) : g.chainTrust lib subject (chain.take n) records now ≤
    g.directTrust lib subject records now +
      ∑ k ∈ Finset.range (Min.min n g.maxDepth), g.alpha ^ (k + 1) := by
  induction n with
  | zero => simp [chainTrust]
  | succ n ih =>
    have hgain := gain_unit lib subject records now hprior hmeant halpha n
    rw [gain] at hgain
    rcases Nat.lt_or_ge n g.maxDepth with hdepth | hdepth
    · rw [min_eq_left hdepth, Finset.sum_range_succ]
      rw [min_eq_left hdepth.le] at ih
      linarith [hgain.1.2]
    · rw [min_eq_right (hdepth.trans n.le_succ)]
      rw [min_eq_right hdepth] at ih
      linarith [hgain.2 hdepth]

theorem dampened : Dampened lib g subject records now chain where
  hop n := (gain_unit lib subject records now hprior hmeant halpha n).1
  beyond n := (gain_unit lib subject records now hprior hmeant halpha n).2
  total := by
    have hall := chainTrust_take_le lib subject records now hprior hmeant halpha chain.length
    rwa [List.take_length] at hall
  single h voucher := (transitiveTrust_eq lib g subject records now voucher h).symm

end Prior

/-! ### Where the exponent wraps -/

def rating (evaluator subject : AgentId) (quality : K) : InteractionRecord K :=
  ⟨evaluator, subject, .analysis, quality, 0, 0, 0, []⟩

/-- A voucher without merit, a trusted one that vouches for the subject, and `k` bad ratings of the
    subject. -/
def strained (k : ℕ) : List (InteractionRecord K) :=
  rating ⟨4⟩ ⟨2⟩ 0 :: rating ⟨4⟩ ⟨3⟩ 1 :: rating ⟨3⟩ ⟨1⟩ 1 :: List.replicate k (rating ⟨4⟩ ⟨1⟩ 0)

section Wrap
variable (hexp : ∀ x, 0 < lib.exp x)
include hexp

/-- Unanimous ratings. -/
theorem aggregateTrust_const {e : TrustEngine K} {c : K} (hc : 0 ≤ c ∧ c ≤ 1)
    (hne : ∃ r ∈ records, r.subject = subject)
    (h : ∀ r ∈ records, r.subject = subject → r.qualityScore = c) :
    e.computeAggregateTrust lib subject records now = c := by
  have hw : ∀ r ∈ records.filter (fun r => r.subject = subject), 0 < e.weight lib now r :=
    fun r _ => TrustEngine.weight_pos hexp r
  have hq : ∀ r ∈ records.filter (fun r => r.subject = subject), r.qualityScore = c :=
    fun r hr => h r (List.mem_of_mem_filter hr) (of_decide_eq_true (List.mem_filter.mp hr).2)
  have hsome : records.filter (fun r => r.subject = subject) ≠ [] := by
    obtain ⟨r, hr, hsub⟩ := hne
    exact List.ne_nil_of_mem (List.mem_filter.mpr ⟨hr, decide_eq_true hsub⟩)
  rw [TrustEngine.computeAggregateTrust_eq, TrustEngine.weightedAverage_unit hw hsome
    fun r hr => by rw [hq r hr]; exact hc]
  rw [mean_congr fun r hr _ => hq r hr, mean_const hw hsome]

theorem directTrust_strained_bad (k : ℕ) : g.directTrust lib ⟨2⟩ (strained k) now = 0 :=
  aggregateTrust_const hexp ⟨le_refl 0, zero_le_one⟩ (by simp [strained, rating])
    (by simp [strained, rating])

theorem directTrust_strained_good (k : ℕ) : g.directTrust lib ⟨3⟩ (strained k) now = 1 :=
  aggregateTrust_const hexp ⟨zero_le_one, le_refl 1⟩ (by simp [strained, rating])
    (by simp [strained, rating])

theorem attestation_strained (k : ℕ) : g.attestation lib ⟨1⟩ ⟨3⟩ (strained k) now = 1 := by
  rw [attestation]
  exact aggregateTrust_const hexp ⟨zero_le_one, le_refl 1⟩ (by simp [strained, rating])
    (by simp [strained, rating])

theorem directTrust_strained (k : ℕ) : g.directTrust lib ⟨1⟩ (strained k) now = 1 / (k + 1) := by
  have hrel : (strained k : List (InteractionRecord K)).filter (fun r => r.subject = ⟨1⟩) =
      rating ⟨3⟩ ⟨1⟩ 1 :: List.replicate k (rating ⟨4⟩ ⟨1⟩ 0) := by
    simp [strained, rating]
  have hw : ∀ r ∈ rating ⟨3⟩ ⟨1⟩ 1 :: List.replicate k (rating ⟨4⟩ ⟨1⟩ 0),
      0 < g.trustEngine.weight lib now r := fun r _ => TrustEngine.weight_pos hexp r
  have hpos : 0 < g.trustEngine.weight lib now (rating ⟨3⟩ ⟨1⟩ 1) := TrustEngine.weight_pos hexp _
  have hsame : g.trustEngine.weight lib now (rating ⟨4⟩ ⟨1⟩ 0) =
    g.trustEngine.weight lib now (rating ⟨3⟩ ⟨1⟩ 1) := rfl
  have hmass : mass (g.trustEngine.weight lib now)
      (rating ⟨3⟩ ⟨1⟩ 1 :: List.replicate k (rating ⟨4⟩ ⟨1⟩ 0)) =
      g.trustEngine.weight lib now (rating ⟨3⟩ ⟨1⟩ 1) * (k + 1) := by
    rw [mass, List.map_cons, List.map_replicate, List.sum_cons, List.sum_replicate, hsame,
      nsmul_eq_mul]
    ring
  have hmoment : moment (g.trustEngine.weight lib now) (·.qualityScore)
      (rating ⟨3⟩ ⟨1⟩ 1 :: List.replicate k (rating ⟨4⟩ ⟨1⟩ 0)) =
      g.trustEngine.weight lib now (rating ⟨3⟩ ⟨1⟩ 1) * 1 := by
    rw [moment, List.map_cons, List.map_replicate, List.sum_cons, List.sum_replicate,
      show (rating ⟨4⟩ ⟨1⟩ 0 : InteractionRecord K).qualityScore = 0 from rfl, zero_mul, smul_zero,
      add_zero, mul_comm]
    rfl
  rw [directTrust, TrustEngine.computeAggregateTrust_eq, hrel,
    TrustEngine.weightedAverage_unit hw (List.cons_ne_nil _ _) (by simp [rating]), mean, hmoment,
    hmass, mul_div_mul_left _ _ hpos.ne']

/-- The trusted voucher at the hop where the exponent wraps: nothing before it adds anything, and it
    adds all there is. -/
theorem gain_wrapped (hα : 0 < g.alpha ∧ g.alpha ≤ 1)
    (hprior : 0 ≤ g.trustEngine.prior ∧ g.trustEngine.prior ≤ 1) {n k : ℕ} (hn : n + 1 = 2 ^ 31)
    (hdepth : n < g.maxDepth) (rest : List AgentId) :
    gain lib g ⟨1⟩ (strained k) now (List.replicate n ⟨2⟩ ++ ⟨3⟩ :: rest) n = 1 - 1 / (k + 1) := by
  have hbefore : ranked (contribution lib g ⟨1⟩ (strained k) now) (List.replicate n ⟨2⟩) = 0 := by
    refine ranked_eq_zero fun i a ha => ?_
    rw [List.eq_of_mem_replicate ha, contribution, directTrust_strained_bad hexp, zero_mul,
      mul_zero]
  -- `(n + 1) as i32` is the least of the 32-bit integers, so the power is taken of the inverse
  have hcast : Int.bmod (n + 1) (2 ^ 32) = -((2 ^ 31 : ℕ) : ℤ) := by
    have hlit : ((n : ℤ) + 1) = 2 ^ 31 := by exact_mod_cast hn
    rw [hlit]
    decide
  have hvoucher : 1 ≤ contribution lib g ⟨1⟩ (strained k) now n ⟨3⟩ := by
    rw [contribution, directTrust_strained_good hexp, attestation_strained hexp, mul_one, mul_one,
      dampening, if_pos hdepth, hcast, powi_neg_natCast _ (by positivity)]
    exact one_le_one_div (pow_pos hα.1 _) (pow_le_one₀ hα.1.le hα.2)
  have hdirect : 0 ≤ g.directTrust lib ⟨1⟩ (strained k) now ∧
    g.directTrust lib ⟨1⟩ (strained k) now ≤ 1 := aggregateTrust_unit hprior
  have htake : (List.replicate n (⟨2⟩ : AgentId) ++ ⟨3⟩ :: rest).take n = List.replicate n ⟨2⟩ :=
    List.take_left' List.length_replicate
  have htake' : (List.replicate n (⟨2⟩ : AgentId) ++ ⟨3⟩ :: rest).take (n + 1) =
      List.replicate n ⟨2⟩ ++ [⟨3⟩] := by
    rw [List.append_cons]
    exact List.take_left' (by rw [List.length_append, List.length_replicate, List.length_singleton])
  rw [gain, chainTrust_eq_clamp hprior, chainTrust_eq_clamp hprior, htake, htake', ranked_concat,
    hbefore, List.length_replicate, zero_add, add_zero, clamp_of_unit hdirect,
    clamp_eq_one_iff.mpr (by linarith), directTrust_strained hexp]

/-- With one bad rating or more, the trust there is exceeds the power of `α`. -/
theorem not_dampened (hα : 0 < g.alpha ∧ g.alpha < 1)
    (hprior : 0 ≤ g.trustEngine.prior ∧ g.trustEngine.prior ≤ 1) {n : ℕ} (hn : n + 1 = 2 ^ 31)
    (hdepth : n < g.maxDepth) {k : ℕ} (hk : 1 / (k + 1) < 1 - g.alpha ^ (n + 1))
    (rest : List AgentId) : ¬ gain lib g ⟨1⟩ (strained k) now
      (List.replicate n ⟨2⟩ ++ ⟨3⟩ :: rest) n ≤ g.alpha ^ (n + 1) := by
  rw [gain_wrapped hexp ⟨hα.1, hα.2.le⟩ hprior hn hdepth, not_le]
  linarith

/-- When the dampening of a guard holds, for all chains of a length: the first hop whose exponent
    wraps is the end of it. -/
theorem dampened_iff (alpha : K) (maxDepth : ℕ) {e : TrustEngine K}
    (hprior : 0 ≤ e.prior ∧ e.prior ≤ 1) (m : ℕ) :
    (Min.min m maxDepth < 2 ^ 31 ∨ 1 ≤ alpha → ∀ subject records now chain, chain.length = m →
      Dampened lib (new alpha maxDepth e) subject records now chain) ∧
    (0 < alpha → (∀ subject records now chain, chain.length = m →
      Dampened lib (new alpha maxDepth e) subject records now chain) →
      Min.min m maxDepth < 2 ^ 31 ∨ 1 ≤ alpha) := by
  have hunit := alpha_unit alpha maxDepth e
  refine ⟨fun hcond subject records now chain hlen => ?_, fun hpos hall => ?_⟩
  · refine dampened lib subject records now hprior (fun i hi => ?_) hunit.1
    rw [hlen] at hi
    refine dampening_eq (hi.trans_le (min_le_right _ _)) ?_
    rcases hcond with hshort | hone
    · exact Or.inl ((Nat.succ_le_of_lt hi).trans_lt hshort)
    · exact Or.inr (clamp_eq_one_iff.mpr hone)
  · by_contra! hcond
    obtain ⟨hlong, hsmall⟩ := hcond
    have hα : (new alpha maxDepth e).alpha = alpha := clamp_of_unit ⟨hpos.le, hsmall.le⟩
    -- at hop 2 ^ 31 the exponent is negative as an `i32`, and the weight exceeds one
    obtain ⟨n, hn⟩ : ∃ n, n + 1 = 2 ^ 31 := ⟨2 ^ 31 - 1, by norm_num⟩
    rw [← hn] at hlong
    have hpow : 0 < 1 - alpha ^ (n + 1) :=
      sub_pos.mpr (pow_lt_one₀ hpos.le hsmall (Nat.succ_ne_zero n))
    obtain ⟨k, hk⟩ := exists_nat_one_div_lt hpow
    have hlen : (List.replicate n (⟨2⟩ : AgentId) ++
        (⟨3⟩ : AgentId) :: List.replicate (m - (n + 1)) ⟨2⟩).length = m := by
      have hm : n + 1 ≤ m := hlong.trans (min_le_left _ _)
      rw [List.length_append, List.length_cons, List.length_replicate, List.length_replicate]
      omega
    refine not_dampened hexp (g := new alpha maxDepth e) (by rw [hα]; exact ⟨hpos, hsmall⟩) hprior
      hn (Nat.lt_of_succ_le (hlong.trans (min_le_right _ _))) (by rw [hα]; exact hk) _
      ((hall ⟨1⟩ (strained k) 0 _ hlen).hop n).2

end Wrap

/-- A chain of two, far below the limit. -/
theorem dampened_short : Dampened .sample (new (1 / 2) 5 TrustEngine.default : SybilGuard ℚ) ⟨1⟩
    (strained 1) 0 [⟨2⟩, ⟨3⟩] :=
  (dampened_iff (fun _ => zero_lt_one) (1 / 2) 5 (by decide +kernel) 2).1 (Or.inl (by norm_num)) ⟨1⟩
    (strained 1) 0 _ rfl

/-- The voucher at hop `2^31`, with one bad rating against the subject: it adds a half. -/
theorem wrapped_voucher : ¬ Dampened .sample
    (new (1 / 2) (2 ^ 31) TrustEngine.default : SybilGuard ℚ) ⟨1⟩ (strained 1) 0
    (List.replicate (2 ^ 31 - 1) ⟨2⟩ ++ [⟨3⟩]) := by
  obtain ⟨n, hn⟩ : ∃ n, n = 2 ^ 31 - 1 := ⟨_, rfl⟩
  rw [← hn]
  intro h
  have hα : (new (1 / 2) (2 ^ 31) TrustEngine.default : SybilGuard ℚ).alpha = 1 / 2 :=
    clamp_of_unit (by norm_num)
  have hpow : (1 / 2 : ℚ) ^ (n + 1) < 1 / 2 :=
    pow_lt_self_of_lt_one₀ (by norm_num) (by norm_num) (by omega)
  have hk : (1 : ℚ) / ((1 : ℕ) + 1) <
      1 - (new (1 / 2) (2 ^ 31) TrustEngine.default : SybilGuard ℚ).alpha ^ (n + 1) := by
    rw [hα]
    push_cast
    linarith
  exact not_dampened (fun _ => zero_lt_one) (by rw [hα]; norm_num) (by decide +kernel) (by omega)
    (show n < 2 ^ 31 by omega) hk [] (h.hop n).2

end SybilGuard

end ATP
