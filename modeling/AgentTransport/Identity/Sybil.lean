import AgentTransport.Identity.Trust
import AgentTransport.Lib.Exact
import AgentTransport.Lib.Ranks

/-! Sybil resistance via transitive trust dampening. A chain of vouchers adds to the direct trust of
    an agent, hop `k` with the weight `α^k`:

        T(subject) + Σ α^k · T(voucher k) · T_attestation(voucher k → subject)

    A voucher without records is given the prior, twice; the last result says what striking the
    worthless vouchers out of a chain does to the sum. -/

namespace ATP
open F64 Ranks
variable {F : Type} [F64 F]

/-- Sybil-resistance guard implementing transitive trust dampening. -/
structure SybilGuard (F : Type) where
  alpha : F
  maxDepth : ℕ
  trustEngine : TrustEngine F

namespace SybilGuard

/-- `SybilGuard::default`. -/
def default : SybilGuard F := ⟨lit (1 / 2), 5, TrustEngine.default⟩

/-- Create a guard with custom dampening factor and chain depth. -/
def new (alpha : F) (maxDepth : ℕ) (trustEngine : TrustEngine F) : SybilGuard F :=
  ⟨clamp alpha 0 1, maxDepth, trustEngine⟩

section Trust
variable (lib : External F) (g : SybilGuard F) (subject : AgentId)

/-- Direct aggregate trust for `subject`. -/
def directTrust (records : List (InteractionRecord F)) (now : DateTime) : F :=
  g.trustEngine.computeAggregateTrust lib subject records now

/-- The voucher's direct assessment of the subject. -/
def attestation (voucher : AgentId) (records : List (InteractionRecord F)) (now : DateTime) : F :=
  let voucherAboutSubject := records.filter fun r => r.evaluator = voucher ∧ r.subject = subject
  g.trustEngine.computeAggregateTrust lib subject voucherAboutSubject now

/-- Single-hop transitive trust for `subject` via `voucher`. -/
def transitiveTrust (voucher : AgentId) (records : List (InteractionRecord F)) (now : DateTime) :
    F :=
  let tDirect := g.directTrust lib subject records now
  let tVoucher := g.directTrust lib voucher records now
  let tAttestation := g.attestation lib subject voucher records now
  clamp (tDirect + g.alpha * tVoucher * tAttestation) 0 1

/-- Multi-hop transitive trust for `subject` along a chain of vouchers. The exponent is cast to an
    `i32`. -/
def chainTrust (chain : List AgentId) (records : List (InteractionRecord F)) (now : DateTime) : F :=
  let tDirect := g.directTrust lib subject records now
  if chain.isEmpty then tDirect
  else
    let depth := Min.min chain.length g.maxDepth
    let transitiveSum := (chain.take depth).zipIdx.foldl (fun sum x =>
      let alphaK := powi g.alpha (Int.bmod (x.2 + 1) (2 ^ 32))
      let tVoucher := g.directTrust lib x.1 records now
      let tAttestation := g.attestation lib subject x.1 records now
      sum + alphaK * tVoucher * tAttestation) 0
    clamp (tDirect + transitiveSum) 0 1

/-- Whether `subject` meets a minimum trust threshold. -/
def meetsThreshold (chain : List AgentId) (records : List (InteractionRecord F)) (threshold : F)
    (now : DateTime) : Bool :=
  let trust := if chain.isEmpty then g.directTrust lib subject records now
    else g.chainTrust lib subject chain records now
  decide (threshold ≤ trust)

end Trust

/-- The number of records about `subject`. -/
def directCount (subject : AgentId) (records : List (InteractionRecord F)) : ℕ :=
  (records.filter fun r => r.subject = subject).length

/-- The number of distinct evaluators of `subject`. -/
def voucherCount (subject : AgentId) (records : List (InteractionRecord F)) : ℕ :=
  ((records.filter fun r => r.subject = subject).map (·.evaluator)).toFinset.card

/-- Detect potential Sybil behaviour: many vouchers but few records. A score in `[0, 1]`. -/
def sybilSuspicion (subject : AgentId) (records : List (InteractionRecord F)) : F :=
  let directCount := directCount subject records
  let voucherCount := voucherCount subject records
  if voucherCount = 0 then 0
  else if directCount = 0 then 1
  else
    let ratio : F := lit voucherCount / lit directCount
    if directCount < 3 ∧ ratio > lit (8 / 10) then clamp ratio 0 1
    else clamp (ratio / (1 + lit directCount * lit (1 / 10))) 0 1

/-! ### Worthless vouchers -/

omit [F64 F] in
/-- The voucher at a place of the chain is not the subject, did not occur before, and has a record
    about the subject. -/
def Worthy (subject : AgentId) (records : List (InteractionRecord F)) (chain : List AgentId)
    (x : AgentId × ℕ) : Prop :=
  x.1 ≠ subject ∧ x.1 ∉ chain.take x.2 ∧ ∃ r ∈ records, r.evaluator = x.1 ∧ r.subject = subject

instance (subject : AgentId) (records : List (InteractionRecord F)) (chain : List AgentId) :
    DecidablePred (Worthy subject records chain) :=
  fun x => inferInstanceAs (Decidable (x.1 ≠ subject ∧ x.1 ∉ chain.take x.2 ∧
    ∃ r ∈ records, r.evaluator = x.1 ∧ r.subject = subject))

/-- The chain with every worthless voucher removed. -/
def worthyChain (subject : AgentId) (records : List (InteractionRecord F)) (chain : List AgentId) :
    List AgentId :=
  keep (Worthy subject records chain) chain

/-- The weight of hop `i` of a chain, counted from zero: nothing beyond the maximum depth. -/
def dampening (g : SybilGuard F) (i : ℕ) : F :=
  if i < g.maxDepth then powi g.alpha (Int.bmod (i + 1) (2 ^ 32)) else 0

section Exact
variable {K : Type} [Field K] [LinearOrder K] [FloorRing K]
  (lib : External K) (g : SybilGuard K) (subject : AgentId) (records : List (InteractionRecord K))
  (now : DateTime)

/-- What the voucher adds at hop `i`. -/
def contribution (i : ℕ) (voucher : AgentId) : K :=
  dampening g i *
    (g.directTrust lib voucher records now * g.attestation lib subject voucher records now)

/-- The trust along a chain: the direct trust and what the vouchers add by their place. -/
theorem chainTrust_eq (chain : List AgentId) :
    g.chainTrust lib subject chain records now =
      if chain = [] then g.directTrust lib subject records now
      else clamp (g.directTrust lib subject records now +
        ranked (contribution lib g subject records now) chain) 0 1 := by
  have hterms : (fun (i : ℕ) (v : AgentId) => if i < g.maxDepth then
      powi g.alpha (Int.bmod (i + 1) (2 ^ 32)) * g.directTrust lib v records now *
        g.attestation lib subject v records now else 0) =
      contribution lib g subject records now := by
    funext i v
    rw [contribution, dampening]
    split_ifs
    · rw [mul_assoc]
    · rw [zero_mul]
  have hcut : chain.take (Min.min chain.length g.maxDepth) = chain.take g.maxDepth := by
    rw [Nat.min_comm, ← List.take_eq_take_min]
  simp only [chainTrust, List.isEmpty_iff, hcut, foldl_add_map, zero_add]
  rw [← hterms, ← ranked_take]
  rfl

/-- One hop is a chain of one voucher. -/
theorem transitiveTrust_eq (voucher : AgentId) (h : 0 < g.maxDepth) :
    g.transitiveTrust lib subject voucher records now =
      g.chainTrust lib subject [voucher] records now := by
  have hpow : powi g.alpha (Int.bmod ((0 : ℕ) + 1) (2 ^ 32)) = g.alpha := by
    rw [show Int.bmod ((0 : ℕ) + 1) (2 ^ 32) = 1 by decide]
    simp [powi, product]
  rw [chainTrust_eq, if_neg (List.cons_ne_nil _ _)]
  simp only [transitiveTrust, ranked, contribution, dampening, List.zipIdx_cons, List.zipIdx_nil,
    List.map_cons, List.map_nil, List.sum_cons, List.sum_nil, add_zero, if_pos h, hpow, mul_assoc]

theorem meetsThreshold_iff {lib : External K} {g : SybilGuard K} {subject : AgentId}
    {chain : List AgentId} {records : List (InteractionRecord K)} {threshold : K} {now : DateTime} :
    g.meetsThreshold lib subject chain records threshold now = true ↔
      threshold ≤ g.chainTrust lib subject chain records now := by
  rw [meetsThreshold, decide_eq_true_eq]
  rcases eq_or_ne chain [] with rfl | hne
  · rfl
  · simp [hne]

variable [IsStrictOrderedRing K]

/-- Removing the worthless vouchers costs nothing: what they added is no more than what the other
    vouchers gain by moving up, or the sums are outside the unit interval, where `clamp` hides
    them. An emptied chain leaves the direct trust, which must not be below zero. -/
def Harmless (chain : List AgentId) : Prop :=
  let worthy := worthyChain subject records chain
  let direct := g.directTrust lib subject records now
  let add := contribution lib g subject records now
  (0 ≤ direct ∨ chain = [] ∨ worthy ≠ []) ∧
    (lost add (Worthy subject records chain) chain ≤
        gained add (Worthy subject records chain) chain ∨
      1 ≤ direct + ranked add worthy ∨ direct + ranked add chain ≤ 0)

theorem chainTrust_le_iff (chain : List AgentId) :
    g.chainTrust lib subject chain records now ≤
        g.chainTrust lib subject (worthyChain subject records chain) records now ↔
      Harmless lib g subject records now chain := by
  have hmove := ranked_le_keep_iff (contribution lib g subject records now)
    (Worthy subject records chain) chain
  rw [← worthyChain] at hmove
  rw [chainTrust_eq, chainTrust_eq, Harmless, ← hmove]
  rcases eq_or_ne chain [] with rfl | hne
  · simp [worthyChain, keep]
  · rw [if_neg hne]
    rcases eq_or_ne (worthyChain subject records chain) [] with hempty | hsome
    · rw [if_pos hempty, clamp_le_iff zero_le_one, hempty]
      have hnone : ranked (contribution lib g subject records now) [] = 0 := rfl
      simp only [hne, hnone, ne_eq, not_true_eq_false, or_false, add_zero, add_le_iff_nonpos_right]
      refine and_congr_right fun hdirect => ?_
      have hsum : g.directTrust lib subject records now +
          ranked (contribution lib g subject records now) chain ≤ 0 →
          ranked (contribution lib g subject records now) chain ≤ 0 := fun h => by linarith
      tauto
    · rw [if_neg hsome, clamp_le_clamp_iff zero_lt_one]
      simp [hsome, add_le_add_iff_left]

/-- When worthless vouchers raise no trust, along a chain or against any threshold. -/
theorem worthless_vouchers_iff (chain : List AgentId) :
    (g.chainTrust lib subject chain records now ≤
          g.chainTrust lib subject (worthyChain subject records chain) records now ∧
        ∀ threshold, g.meetsThreshold lib subject chain records threshold now →
          g.meetsThreshold lib subject (worthyChain subject records chain) records threshold
            now) ↔
      Harmless lib g subject records now chain := by
  rw [← chainTrust_le_iff]
  constructor
  · intro h
    exact h.1
  · intro h
    refine ⟨h, fun threshold hmeets => ?_⟩
    exact meetsThreshold_iff.mpr ((meetsThreshold_iff.mp hmeets).trans h)

end Exact

/-- A subject that vouches for itself, ahead of a voucher trusted in full: the latter gains more by
    moving up than the former added. -/
theorem worthless_vouchers_harmless :
    let guard : SybilGuard ℚ := default
    let records : List (InteractionRecord ℚ) := [⟨⟨2⟩, ⟨1⟩, .analysis, 4 / 5, 100, 0, 0, []⟩,
      ⟨⟨3⟩, ⟨1⟩, .analysis, 0, 100, 0, 0, []⟩, ⟨⟨3⟩, ⟨2⟩, .analysis, 1, 100, 0, 0, []⟩]
    guard.chainTrust .sample ⟨1⟩ [⟨1⟩, ⟨2⟩] records 0 ≤
        guard.chainTrust .sample ⟨1⟩ (worthyChain ⟨1⟩ records [⟨1⟩, ⟨2⟩]) records 0 ∧
      ∀ threshold, guard.meetsThreshold .sample ⟨1⟩ [⟨1⟩, ⟨2⟩] records threshold 0 →
        guard.meetsThreshold .sample ⟨1⟩ (worthyChain ⟨1⟩ records [⟨1⟩, ⟨2⟩]) records threshold 0 :=
  (worthless_vouchers_iff .sample default ⟨1⟩ _ 0 [⟨1⟩, ⟨2⟩]).mpr (by
    unfold Harmless
    decide +kernel)

/-- A voucher nobody has heard of, for a subject nobody has heard of: the trust rises from 0.5 to
    0.625, past a threshold of 0.6. -/
theorem unknown_voucher_raises_trust :
    let guard : SybilGuard ℚ := default
    ¬ (guard.chainTrust .sample ⟨1⟩ [⟨2⟩] [] 0 ≤
        guard.chainTrust .sample ⟨1⟩ (worthyChain ⟨1⟩ ([] : List (InteractionRecord ℚ)) [⟨2⟩]) []
          0) ∧
      ¬ (guard.meetsThreshold .sample ⟨1⟩ [⟨2⟩] [] (6 / 10) 0 →
        guard.meetsThreshold .sample ⟨1⟩ (worthyChain ⟨1⟩ ([] : List (InteractionRecord ℚ)) [⟨2⟩])
          [] (6 / 10) 0) := by
  decide +kernel

end SybilGuard
end ATP
