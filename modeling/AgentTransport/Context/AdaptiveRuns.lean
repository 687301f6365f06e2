import AgentTransport.Context.Adaptive

/-! Runs of the adaptive loop, from a diff whose chunks the receiver has all recorded. Every request
    asks for half of the missing indices, rounded up, and every answer brings exactly those. -/

namespace ATP
open F64
variable {F : Type} [F64 F]

/-- The indices below `n` that a diff has no chunk for. -/
def missing (n : UInt32) (diff : ContextDiff F) : List UInt32 :=
  ((List.range n.toNat).map UInt32.ofNat).filter fun idx => idx ∉ diff.chunks.map (·.index)

/-- What one round of the loop does. -/
structure Exchange.Halves (n : UInt32) (x : Exchange F) : Prop where
  indices : x.request.requestedChunkIndices =
    (missing n x.before).take (((missing n x.before).length + 1) / 2)
  nonempty : x.request.requestedChunkIndices ≠ []
  merged : ∀ idx, idx ∈ x.merged.chunks.map (·.index) ↔
    idx ∈ x.before.chunks.map (·.index) ∨ idx ∈ x.request.requestedChunkIndices

/-- Rounds one after the other, the first with this diff. -/
def Linked (n : UInt32) : ContextDiff F → List (Exchange F) → Prop
  | _, [] => True
  | diff, x :: xs => x.before = diff ∧ x.Halves n ∧ Linked n x.merged xs

/-- The diff after the first `r` rounds. -/
def diffAfter : ContextDiff F → List (Exchange F) → ℕ → ContextDiff F
  | diff, _, 0 => diff
  | diff, [], _ + 1 => diff
  | _, x :: xs, r + 1 => diffAfter x.merged xs r

/-! ### Missing indices -/

section Missing
omit [F64 F]
variable {n : UInt32} {diff : ContextDiff F} {idx : UInt32}

theorem nodup_missing : (missing n diff).Nodup := by
  refine List.Nodup.filter _ (List.Nodup.map_on ?_ List.nodup_range)
  intro i hi j hj hij
  have hn := UInt32.toNat_lt n
  rw [List.mem_range] at hi hj
  rw [← UInt32.toNat_inj, UInt32.toNat_ofNat', UInt32.toNat_ofNat', Nat.mod_eq_of_lt (by omega),
    Nat.mod_eq_of_lt (by omega)] at hij
  exact hij

theorem mem_missing :
    idx ∈ missing n diff ↔ idx < n ∧ idx ∉ diff.chunks.map (·.index) := by
  rw [missing, List.mem_filter, decide_eq_true_iff]
  refine and_congr_left fun _ => ?_
  rw [List.mem_map, UInt32.lt_iff_toNat_lt]
  constructor
  · rintro ⟨i, hi, rfl⟩
    rw [List.mem_range] at hi
    exact (Nat.mod_le _ _).trans_lt hi
  · intro h
    exact ⟨idx.toNat, List.mem_range.mpr h, UInt32.ofNat_toNat⟩

/-- In a list without duplicates, what is not among the first elements is among the others. -/
theorem filter_not_mem_take {α : Type} [DecidableEq α] {l : List α} (h : l.Nodup) (k : ℕ) :
    l.filter (fun a => a ∉ l.take k) = l.drop k := by
  have hdisjoint : ∀ a ∈ l.drop k, a ∉ l.take k := by
    rw [← List.take_append_drop k l] at h
    intro a ha hta
    exact (List.nodup_append.mp h).2.2 a hta a ha rfl
  calc l.filter (fun a => a ∉ l.take k)
      = (l.take k ++ l.drop k).filter (fun a => a ∉ l.take k) := by
        rw [List.take_append_drop]
    _ = l.drop k := by
        rw [List.filter_append, List.filter_eq_nil_iff.mpr (by simp), List.nil_append,
          List.filter_eq_self.mpr fun a ha => decide_eq_true (hdisjoint a ha)]

/-- A round leaves the other half, rounded down, missing. -/
theorem Exchange.Halves.length_missing {x : Exchange F} (h : x.Halves n) :
    (missing n x.merged).length = (missing n x.before).length / 2 := by
  have hmissing : missing n x.merged =
      (missing n x.before).drop (((missing n x.before).length + 1) / 2) := by
    rw [← filter_not_mem_take nodup_missing, ← h.indices, missing, missing, List.filter_filter]
    refine List.filter_congr fun idx _ => ?_
    rw [Bool.eq_iff_iff, Bool.and_eq_true, decide_eq_true_iff, decide_eq_true_iff,
      decide_eq_true_iff, h.merged, not_or, and_comm]
  rw [hmissing, List.length_drop]
  omega

end Missing

/-! ### Linked rounds -/

section Linked
omit [F64 F]
variable {n : UInt32} {diff : ContextDiff F} {xs : List (Exchange F)}

theorem Exchange.Halves.wanted {x : Exchange F} (h : x.Halves n) {idx : UInt32}
    (hidx : idx ∈ x.request.requestedChunkIndices) :
    idx < n ∧ idx ∉ x.before.chunks.map (·.index) := by
  rw [h.indices] at hidx
  exact mem_missing.mp (List.mem_of_mem_take hidx)

theorem Linked.halves (h : Linked n diff xs) : ∀ x ∈ xs, x.Halves n := by
  induction xs generalizing diff with
  | nil => simp
  | cons x xs ih =>
    obtain ⟨-, hx, hxs⟩ := h
    intro y hy
    rcases List.mem_cons.mp hy with rfl | hy
    · exact hx
    · exact ih hxs y hy

/-- After `r` rounds `m / 2 ^ r` indices are missing. -/
theorem Linked.length_missing (h : Linked n diff xs) : ∀ r ≤ xs.length,
    (missing n (diffAfter diff xs r)).length = (missing n diff).length / 2 ^ r := by
  induction xs generalizing diff with
  | nil =>
    intro r hr
    obtain rfl : r = 0 := Nat.le_zero.mp hr
    simp [diffAfter]
  | cons x xs ih =>
    obtain ⟨hbefore, hx, hxs⟩ := h
    intro r hr
    cases r with
    | zero => simp [diffAfter]
    | succ r =>
      rw [diffAfter, ih hxs r (Nat.le_of_succ_le_succ hr), hx.length_missing, hbefore,
        Nat.div_div_eq_div_mul, ← Nat.pow_succ']

/-- What a diff holds is held in all later rounds. -/
theorem Linked.mono (h : Linked n diff xs) : ∀ x ∈ xs,
    ∀ idx ∈ diff.chunks.map (·.index), idx ∈ x.before.chunks.map (·.index) := by
  induction xs generalizing diff with
  | nil => simp
  | cons x xs ih =>
    obtain ⟨hbefore, hx, hxs⟩ := h
    intro y hy idx hidx
    rcases List.mem_cons.mp hy with rfl | hy
    · rw [hbefore]
      exact hidx
    · exact ih hxs y hy idx ((hx.merged idx).mpr (Or.inl (hbefore ▸ hidx)))

/-- The last diff is the first one, or the outcome of a round. -/
theorem diffAfter_length (diff : ContextDiff F) (xs : List (Exchange F)) :
    diffAfter diff xs xs.length = diff ∨ ∃ x ∈ xs, diffAfter diff xs xs.length = x.merged := by
  induction xs generalizing diff with
  | nil => exact Or.inl rfl
  | cons x xs ih =>
    right
    rcases ih x.merged with h | ⟨y, hy, h⟩
    · exact ⟨x, List.mem_cons_self, h⟩
    · exact ⟨y, List.mem_cons_of_mem _ hy, h⟩

/-- No index is requested twice. -/
theorem Linked.requests_disjoint (h : Linked n diff xs) : xs.Pairwise fun x y =>
    ∀ idx ∈ x.request.requestedChunkIndices, idx ∉ y.request.requestedChunkIndices := by
  induction xs generalizing diff with
  | nil => exact .nil
  | cons x xs ih =>
    obtain ⟨-, hx, hxs⟩ := h
    refine .cons (fun y hy idx hidx hidx' => ?_) (ih hxs)
    have hheld := hxs.mono y hy idx ((hx.merged idx).mpr (Or.inr hidx))
    exact ((hxs.halves y hy).wanted hidx').2 hheld

theorem Exchange.Halves.missing_pos {x : Exchange F} (h : x.Halves n) :
    0 < (missing n x.before).length := by
  have hne := h.nonempty
  rw [h.indices] at hne
  exact List.length_pos_iff.mpr fun hnil => hne (by rw [hnil, List.take_nil])

/-- Every round but the last leaves something to ask for. -/
theorem Linked.pow_le {x : Exchange F} (h : Linked n diff (x :: xs)) :
    2 ^ xs.length ≤ (missing n diff).length := by
  induction xs generalizing diff x with
  | nil =>
    obtain ⟨hbefore, hx, -⟩ := h
    rw [← hbefore]
    exact hx.missing_pos
  | cons y ys ih =>
    obtain ⟨hbefore, hx, hxs⟩ := h
    have hrest := ih hxs
    rw [hx.length_missing, hbefore] at hrest
    rw [List.length_cons, pow_succ]
    omega

/-- There are no more rounds than binary digits of the number of missing indices. -/
theorem Linked.length_le (h : Linked n diff xs) :
    xs.length ≤ Nat.size (missing n diff).length := by
  cases xs with
  | nil => exact Nat.zero_le _
  | cons x xs => exact Nat.lt_size.mpr h.pow_le

end Linked

/-! ### The loop produces linked rounds -/

section Run
variable {lib : External F} {p : ContextProvider F} {sender : AgentId} {taskId : Uuid}
  {m m' : AdaptiveContextManager F} {diff : ContextDiff F} {request : ContextRequestMsg F}

/-- The receiver has recorded no index that the diff does not hold. -/
def Recorded (m : AdaptiveContextManager F) (diff : ContextDiff F) : Prop :=
  ∀ idx ∈ m.receivedIndices, idx ∈ diff.chunks.map (·.index)

/-- The answer of the provider, merged. -/
def answered (lib : External F) (p : ContextProvider F) (diff : ContextDiff F)
    (request : ContextRequestMsg F) : ContextDiff F :=
  mergeChunks diff (requested lib p.fullContext p.taskEmbedding p.compressor.config
    request.requestedChunkIndices)

omit [F64 F] in
theorem totalChunks_le (p : ContextProvider F) : p.totalChunks.toNat ≤
    (splitIntoChunks p.fullContext p.compressor.config.chunkSize).length := by
  unfold ContextProvider.totalChunks
  split
  · exact Nat.zero_le _
  · exact Nat.mod_le _ _

omit [F64 F] in
theorem needed_eq_missing (h : Recorded m diff) (n : UInt32) :
    (m.receive diff).needed n = missing n diff := by
  refine List.filter_congr fun idx _ => decide_eq_decide.mpr (not_congr ?_)
  rw [AdaptiveContextManager.receive, Finset.mem_union, List.mem_toFinset]
  exact or_iff_right_of_imp (h idx)

/-- A request and its answer make one round. -/
theorem halves_of_asks (hrec : Recorded m diff)
    (hasks : m.Asks diff p.totalChunks request m') :
    (⟨diff, request, answered lib p diff request⟩ : Exchange F).Halves p.totalChunks ∧
      Recorded m' (answered lib p diff request) := by
  have hneeded := needed_eq_missing hrec p.totalChunks
  have hpos : 0 < (missing p.totalChunks diff).length :=
    List.length_pos_iff.mpr (hneeded ▸ hasks.needed)
  have hindices : request.requestedChunkIndices = (missing p.totalChunks diff).take
      (((missing p.totalChunks diff).length + 1) / 2) := by
    rw [hasks.indices, hneeded, Nat.max_eq_left (by omega)]
  have hmerged : ∀ idx, idx ∈ (answered lib p diff request).chunks.map (·.index) ↔
      idx ∈ diff.chunks.map (·.index) ∨ idx ∈ request.requestedChunkIndices := by
    intro idx
    rw [answered, mem_index_merge]
    refine or_congr_right (and_iff_left_of_imp fun hidx => ?_)
    -- what is requested is below the number of chunks
    rw [hindices] at hidx
    have hlt := (mem_missing.mp (List.mem_of_mem_take hidx)).1
    exact (UInt32.lt_iff_toNat_lt.mp hlt).trans_le (totalChunks_le p)
  refine ⟨⟨hindices, ?_, hmerged⟩, fun idx hidx => (hmerged idx).mpr (Or.inl ?_)⟩
  · rw [← List.length_pos_iff, hindices, List.length_take]
    omega
  · rw [hasks.post, AdaptiveContextManager.receive, Finset.mem_union, List.mem_toFinset] at hidx
    exact hidx.elim (hrec idx) id

/-- How the loop ends, at the last diff. -/
def Ends (threshold : F) (last : ContextDiff F) (verdict : Except (ContextError F) Unit) : Prop :=
  verdict = .ok () ∧ last.confidence ≥ threshold ∨
    verdict = .error (.lowConfidence last.confidence) ∧ ¬ last.confidence ≥ threshold

/-- What the loop does from a diff on. -/
structure Refines (lib : External F) (p : ContextProvider F) (m : AdaptiveContextManager F)
    (diff : ContextDiff F) (xs : List (Exchange F)) (verdict : Except (ContextError F) Unit) :
    Prop where
  linked : Linked p.totalChunks diff xs
  answers : ∀ x ∈ xs, x.merged = answered lib p x.before x.request
  rounds : xs.length ≤ m.maxRounds.toNat - m.refinementRounds.toNat
  ends : Ends m.confidenceThreshold (diffAfter diff xs xs.length) verdict

/-- A run ends: the rounds left decrease. -/
theorem refine_spec (hvalues : p.taskEmbedding.values.length = p.compressor.config.dimensions)
    (hrec : Recorded m diff) : ∃ xs verdict,
      refine lib p sender taskId m diff = some (xs, verdict) ∧
      Refines lib p m diff xs verdict := by
  induction hk : m.maxRounds.toNat - m.refinementRounds.toNat using Nat.strong_induction_on
    generalizing m diff with
  | _ k ih =>
    subst hk
    rw [refine]
    -- an evaluation gives up, is satisfied, or asks for half of what is missing
    split
    · rename_i e m' heval
      obtain ⟨hlow, rfl⟩ := AdaptiveContextManager.low_of_evaluate heval
      exact ⟨[], _, rfl, trivial, by simp, Nat.zero_le _, Or.inr ⟨rfl, hlow⟩⟩
    · rename_i m' heval
      have hhigh := AdaptiveContextManager.high_of_evaluate heval
      exact ⟨[], .ok (), rfl, trivial, by simp, Nat.zero_le _, Or.inl ⟨rfl, hhigh⟩⟩
    · rename_i request m' heval
      have hasks := AdaptiveContextManager.asks_of_evaluate heval
      obtain ⟨hhalves, hrec'⟩ :
          (⟨diff, request, answered lib p diff request⟩ : Exchange F).Halves p.totalChunks ∧ _ :=
        halves_of_asks hrec hasks
      -- one round fewer is left after the request
      obtain ⟨xs, verdict, hrun, hspec⟩ := ih _ hasks.decreases hrec' rfl
      have hanswer := extractAdditional_eq lib p.fullContext hvalues request.requestedChunkIndices
      refine ⟨_ :: xs, verdict, ?_, ⟨rfl, hhalves, hspec.linked⟩, ?_, ?_, ?_⟩
      · simp only [ContextProvider.handleRequest, hanswer, Option.bind_eq_bind, Option.bind_some]
        rw [← answered, hrun]
        rfl
      · intro x hx
        rcases List.mem_cons.mp hx with rfl | hx
        · rfl
        · exact hspec.answers x hx
      · have hlt := hasks.decreases
        have hrounds := hspec.rounds
        rw [List.length_cons]
        omega
      · have hends := hspec.ends
        rw [hasks.post] at hends
        exact hends

end Run

/-- A manager that has evaluated nothing yet. -/
def freshManager (agent : AgentId) (threshold : F) (maxRounds : UInt32) :
    AdaptiveContextManager F :=
  ((AdaptiveContextManager.new agent).withThreshold threshold).withMaxRounds maxRounds

theorem recorded_fresh (agent : AgentId) (threshold : F) (maxRounds : UInt32)
    (diff : ContextDiff F) : Recorded (freshManager agent threshold maxRounds) diff := by
  intro idx hidx
  simp [freshManager, AdaptiveContextManager.new, AdaptiveContextManager.withThreshold,
    AdaptiveContextManager.withMaxRounds] at hidx

/-- The adaptive loop ends, after no more requests than there are rounds, or binary digits in the
    number `m` of missing indices. No request is empty, leaves the range or repeats an index, and
    after `r` requests `m / 2 ^ r` indices are missing. -/
theorem adaptive_loop_ends (lib : External F) (p : ContextProvider F) (agent sender : AgentId)
    (taskId : Uuid) (threshold : F) (maxRounds : UInt32) {initial : ContextDiff F}
    (h : p.initialDiff lib = some (.ok initial)) :
    let n := p.totalChunks
    let m := (missing n initial).length
    ∃ xs verdict, refine lib p sender taskId (freshManager agent threshold maxRounds) initial =
        some (xs, verdict) ∧
      (verdict = .ok () ∨ ∃ c, verdict = .error (.lowConfidence c)) ∧
      xs.length ≤ min maxRounds.toNat (Nat.size m) ∧
      (∀ x ∈ xs, x.request.requestedChunkIndices ≠ [] ∧ x.request.requestedChunkIndices.Nodup ∧
        ∀ idx ∈ x.request.requestedChunkIndices,
          idx < n ∧ idx ∉ x.before.chunks.map (·.index)) ∧
      (xs.Pairwise fun x y => ∀ idx ∈ x.request.requestedChunkIndices,
        idx ∉ y.request.requestedChunkIndices) ∧
      ∀ r ≤ xs.length, (missing n (diffAfter initial xs r)).length = m / 2 ^ r := by
  intro n m
  obtain ⟨-, -, hvalues, -⟩ := (compress_iff lib p.fullContext).mp h
  obtain ⟨xs, verdict, hrun, hspec⟩ : ∃ xs verdict, refine lib p sender taskId _ initial = _ ∧ _ :=
    refine_spec hvalues (recorded_fresh agent threshold maxRounds initial)
  refine ⟨xs, verdict, hrun, ?_, ?_, ?_, hspec.linked.requests_disjoint,
    hspec.linked.length_missing⟩
  · rcases hspec.ends with ⟨hok, -⟩ | ⟨herror, -⟩
    · exact Or.inl hok
    · exact Or.inr ⟨_, herror⟩
  -- by the rounds, and because every request halves what is missing
  · exact Nat.le_min.mpr ⟨hspec.rounds, hspec.linked.length_le⟩
  · intro x hx
    have hhalves := hspec.linked.halves x hx
    refine ⟨hhalves.nonempty, ?_, fun idx => hhalves.wanted⟩
    rw [hhalves.indices]
    exact nodup_missing.sublist (List.take_sublist _ _)

/-- A provider of four chunks that selects one of them. -/
def fourChunks : ContextProvider ℚ :=
  ⟨⟨⟨1 / 2, 1, 1, 1⟩⟩, [10, 20, 30, 40], ⟨1, [1]⟩⟩

theorem fourChunks_initial :
    fourChunks.initialDiff External.sample =
      some (.ok (initialOf External.sample [10, 20, 30, 40] ⟨1, [1]⟩ ⟨1 / 2, 1, 1, 1⟩)) :=
  (compress_iff External.sample fourChunks.fullContext).mpr ⟨rfl, by decide, rfl, rfl⟩

/-- Three chunks are missing, and at most two requests are made. -/
theorem adaptive_loop_ends_four : ∃ xs verdict,
    refine External.sample fourChunks ⟨2⟩ 7 (freshManager ⟨1⟩ 2 5)
      (initialOf External.sample [10, 20, 30, 40] ⟨1, [1]⟩ ⟨1 / 2, 1, 1, 1⟩) =
        some (xs, verdict) ∧ xs.length ≤ 2 := by
  obtain ⟨xs, verdict, hrun, -, hlen, -⟩ :=
    adaptive_loop_ends External.sample fourChunks ⟨1⟩ ⟨2⟩ 7 2 5 fourChunks_initial
  refine ⟨xs, verdict, hrun, hlen.trans ?_⟩
  decide +kernel

end ATP
