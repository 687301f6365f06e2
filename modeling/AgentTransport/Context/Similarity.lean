import AgentTransport.Context.Adaptive
import AgentTransport.Lib.FirstFailure
import AgentTransport.Transport.Codec

/-! Similarity of embeddings, of two and of one to many. Dimensions are compared as the embeddings
    state them; the dot product compares the vectors themselves. An embedding decoded from the wire
    states its dimensions in a field of its own:

        stated differ                   ──▶ DimensionMismatch
        stated agree, vectors differ    ──▶ panic of the dot product
        both agree                      ──▶ a similarity -/

namespace ATP
open F64 Collections
variable {F : Type} [F64 F]

/-- Validate that two embeddings have matching dimensions. -/
def validateDimensions (a b : ContextEmbedding F) : Except (ContextError F) Unit :=
  if a.dimensions ≠ b.dimensions then .error (.dimensionMismatch a.dimensions b.dimensions)
  else .ok ()

/-- Cosine similarity of two embeddings; `none` is a panic. -/
def cosineSimilarity (lib : External F) (a b : ContextEmbedding F) :
    Option (Except (ContextError F) F) :=
  match validateDimensions a b with
  | .error e => some (.error e)
  | .ok () => (cosineSimilarityArrays lib a.values b.values).map .ok

/-- Score a candidate, with its index, against a normalized query. -/
def scoreCandidate (lib : External F) (query : ContextEmbedding F) (queryNormed : List F)
    (p : ContextEmbedding F × ℕ) : Option (Except (ContextError F) (ℕ × F)) :=
  if p.1.dimensions ≠ query.dimensions then
    some (.error (.dimensionMismatch query.dimensions p.1.dimensions))
  else
    let cn := l2Norm lib p.1.values
    if cn < epsilon then some (.ok (p.2, 0))
    else (arrayDot lib queryNormed (p.1.values.map (· / cn))).map fun dot =>
      .ok (p.2, clamp dot (-1) 1)

/-- Rank candidates by their similarity to a query, most similar first. -/
def rankBySimilarity (lib : External F) (query : ContextEmbedding F)
    (candidates : List (ContextEmbedding F)) : Option (Except (ContextError F) (List (ℕ × F))) :=
  let queryNorm := l2Norm lib query.values
  if queryNorm < epsilon then some (.ok (candidates.zipIdx.map fun p => (p.2, 0)))
  else
    let queryNormed := query.values.map (· / queryNorm)
    (collect (scoreCandidate lib query queryNormed) candidates.zipIdx).map fun scored =>
      scored.map (sortDesc (·.2))

section Outcomes
variable {lib : External F} {a b query c : ContextEmbedding F}

/-- The similarity of two vectors of one length. -/
def cosine (lib : External F) (u v : List F) : F :=
  let denom := l2Norm lib u * l2Norm lib v
  if denom < epsilon then 0 else clamp (lib.dot u v / denom) (-1) 1

theorem cosineSimilarityArrays_eq (u v : List F) : cosineSimilarityArrays lib u v =
    if u.length = v.length then some (cosine lib u v) else none := by
  rw [cosineSimilarityArrays, arrayDot]
  split <;> rfl

/-- How the similarity of two embeddings ends. -/
theorem cosineSimilarity_eq : cosineSimilarity lib a b =
    if a.dimensions ≠ b.dimensions then
      some (.error (.dimensionMismatch a.dimensions b.dimensions))
    else if a.values.length = b.values.length then some (.ok (cosine lib a.values b.values))
    else none := by
  rw [cosineSimilarity, validateDimensions, cosineSimilarityArrays_eq]
  by_cases hdims : a.dimensions ≠ b.dimensions
  · simp only [if_pos hdims]
  · simp only [if_neg hdims]
    split <;> rfl

theorem cosineSimilarity_eq_ok_iff {s : F} : cosineSimilarity lib a b = some (.ok s) ↔
    a.dimensions = b.dimensions ∧ a.values.length = b.values.length ∧
      cosine lib a.values b.values = s := by
  rw [cosineSimilarity_eq]
  by_cases hdims : a.dimensions = b.dimensions <;>
    by_cases hlen : a.values.length = b.values.length <;> simp [hdims, hlen]

/-- The score of a candidate in a ranking. -/
def batchScore (lib : External F) (query c : ContextEmbedding F) : F :=
  if l2Norm lib c.values < epsilon then 0
  else clamp (lib.dot (query.values.map (· / l2Norm lib query.values))
    (c.values.map (· / l2Norm lib c.values))) (-1) 1

/-- How the scoring of a candidate ends. -/
theorem scoreCandidate_eq (p : ContextEmbedding F × ℕ) :
    scoreCandidate lib query (query.values.map (· / l2Norm lib query.values)) p =
      if p.1.dimensions ≠ query.dimensions then
        some (.error (.dimensionMismatch query.dimensions p.1.dimensions))
      else if l2Norm lib p.1.values < epsilon ∨ p.1.values.length = query.values.length then
        some (.ok (p.2, batchScore lib query p.1))
      else none := by
  simp only [scoreCandidate, arrayDot, List.length_map, batchScore]
  by_cases hdims : p.1.dimensions ≠ query.dimensions
  · simp only [if_pos hdims]
  · simp only [if_neg hdims]
    by_cases hzero : l2Norm lib p.1.values < epsilon
    · simp only [hzero, true_or, if_true]
    · simp only [hzero, false_or, if_false]
      by_cases hlen : query.values.length = p.1.values.length
      · rw [if_pos hlen, if_pos hlen.symm]
        rfl
      · rw [if_neg hlen, if_neg (Ne.symm hlen)]
        rfl

/-- A candidate that is scored: of the same stated dimensions, and of the same length unless it has
    zero magnitude. -/
def Scorable (lib : External F) (query c : ContextEmbedding F) : Prop :=
  c.dimensions = query.dimensions ∧
    (l2Norm lib c.values < epsilon ∨ c.values.length = query.values.length)

instance : Decidable (Scorable lib query c) := inferInstanceAs (Decidable (_ ∧ _))

theorem scoreCandidate_eq_ok_iff (p : ContextEmbedding F × ℕ) (r : ℕ × F) :
    scoreCandidate lib query (query.values.map (· / l2Norm lib query.values)) p = some (.ok r) ↔
      Scorable lib query p.1 ∧ (p.2, batchScore lib query p.1) = r := by
  rw [scoreCandidate_eq, Scorable]
  by_cases hdims : p.1.dimensions = query.dimensions
  · rw [if_neg (not_not.mpr hdims)]
    split
    · rename_i h
      simp [hdims, h]
    · rename_i h
      simp [hdims, h]
  · simp [hdims]

/-- Which candidates panic. -/
theorem scoreCandidate_eq_none_iff (p : ContextEmbedding F × ℕ) :
    scoreCandidate lib query (query.values.map (· / l2Norm lib query.values)) p = none ↔
      p.1.dimensions = query.dimensions ∧
        ¬ (l2Norm lib p.1.values < epsilon ∨ p.1.values.length = query.values.length) := by
  rw [scoreCandidate_eq]
  by_cases hdims : p.1.dimensions = query.dimensions
  · rw [if_neg (not_not.mpr hdims)]
    split
    · rename_i h
      simp [h]
    · rename_i h
      simp only [hdims, h, not_false_eq_true, and_self]
  · simp [hdims]

theorem scoreCandidate_eq_error_iff (p : ContextEmbedding F × ℕ) (e : ContextError F) :
    scoreCandidate lib query (query.values.map (· / l2Norm lib query.values)) p =
        some (.error e) ↔
      p.1.dimensions ≠ query.dimensions ∧
        .dimensionMismatch query.dimensions p.1.dimensions = e := by
  rw [scoreCandidate_eq]
  by_cases hdims : p.1.dimensions = query.dimensions
  · rw [if_neg (not_not.mpr hdims)]
    split <;> simp [hdims]
  · simp [hdims]

/-- When a ranking succeeds, and with what. -/
theorem rankBySimilarity_eq_ok_iff {candidates : List (ContextEmbedding F)} {r : List (ℕ × F)} :
    rankBySimilarity lib query candidates = some (.ok r) ↔
      if l2Norm lib query.values < epsilon then candidates.zipIdx.map (fun p => (p.2, 0)) = r
      else (∀ c ∈ candidates, Scorable lib query c) ∧
        sortDesc (·.2) (candidates.zipIdx.map fun p => (p.2, batchScore lib query p.1)) = r := by
  by_cases hzero : l2Norm lib query.values < epsilon
  · simp only [rankBySimilarity, if_pos hzero, Option.some.injEq, Except.ok.injEq]
  · simp only [rankBySimilarity, if_neg hzero, Option.map_eq_some_iff]
    have hcollect := @collect_eq_ok_iff _ _ (ContextError F) _ _ _
      (@scoreCandidate_eq_ok_iff _ _ lib query) candidates.zipIdx
    rw [← forall_zipIdx]
    constructor
    · rintro ⟨scored, hscored, hr⟩
      cases scored with
      | error e => cases hr
      | ok bs =>
        obtain ⟨hall, rfl⟩ := hcollect.mp hscored
        exact ⟨hall, Except.ok.inj hr⟩
    · rintro ⟨hall, rfl⟩
      exact ⟨_, hcollect.mpr ⟨hall, rfl⟩, rfl⟩

/-- The scores of a query that is not zero, as far as they get. -/
theorem rankBySimilarity_eq_error_iff {candidates : List (ContextEmbedding F)}
    {e : ContextError F} :
    rankBySimilarity lib query candidates = some (.error e) ↔
      ¬ l2Norm lib query.values < epsilon ∧
        collect (scoreCandidate lib query (query.values.map (· / l2Norm lib query.values)))
          candidates.zipIdx = some (.error e) := by
  by_cases hzero : l2Norm lib query.values < epsilon
  · simp [rankBySimilarity, hzero]
  · simp only [rankBySimilarity, if_neg hzero, Option.map_eq_some_iff]
    constructor
    · rintro ⟨scored, hscored, he⟩
      cases scored with
      | error e' =>
        cases he
        exact ⟨hzero, hscored⟩
      | ok bs => cases he
    · rintro ⟨-, herror⟩
      exact ⟨_, herror, rfl⟩

end Outcomes

end ATP
