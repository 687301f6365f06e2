import AgentTransport.Fault.CheckpointRuns
import AgentTransport.Lib.Interleaving

/-! Concurrent saves and removals of checkpoints.

    A save appends to the history before it updates the hot store, and a removal empties the hot
    store before the history, each map under a lock of its own. A removal that runs between the two
    sections of a save of its task leaves a checkpoint without a history. Calls that never save and
    remove the same task, and any calls whose sections do not overlap in that way, keep the two maps
    consistent. -/

namespace ATP
namespace CheckpointStore
open Collections Interleaving

/-! ### Sections -/

/-- The next lock-guarded section of a call. -/
def nextSection (op : Op) (ph : Phase) (s : CheckpointStore) : Phase × CheckpointStore :=
  match ph with
  | .waiting =>
    match op.saved with
    | some data => (.pending, { s with history := s.history.upsert data.taskId [] (· ++ [data]) })
    | none => (.opened, { s with store := s.store.erase op.taskId })
  | .opened => (.finished, { s with history := s.history.erase op.taskId })
  | .pending =>
    match op.saved with
    | some data =>
      (.finished, { s with
        store := if s.shouldUpdate data then s.store.insert data.taskId data else s.store })
    | none => (.finished, s)
  | .finished => (.finished, s)

/-- A call that runs alone does what the call does. -/
theorem alone_eq_apply (s : CheckpointStore) (op : Op) :
    Pool.run nextSection (Pool.start [op] s) [0, 0] = ⟨[⟨op, .finished⟩], s.apply op⟩ := by
  cases op <;> rfl

/-- The next section of a call, on the entry of its task. -/
def Entry.nextSection (op : Op) (ph : Phase) (e : Entry) : Phase × Entry :=
  match ph with
  | .waiting =>
    match op.saved with
    | some data => (.pending, ⟨e.latest, e.log ++ [data]⟩)
    | none => (.opened, ⟨none, e.log⟩)
  | .opened => (.finished, ⟨e.latest, []⟩)
  | .pending =>
    match op.saved with
    | some data => (.finished, ⟨some (newer e.latest data), e.log⟩)
    | none => (.finished, e)
  | .finished => (.finished, e)

theorem saved_taskId {op : Op} {data : CheckpointData} (h : op.saved = some data) :
    data.taskId = op.taskId := by
  cases op <;> simp [Op.saved] at h <;> simp [Op.taskId, ← h]

theorem nextSection_local : Local Op.taskId nextSection entry Entry.nextSection where
  phase := by
    intro op ph s
    cases ph <;> cases h : op.saved <;> simp [nextSection, Entry.nextSection, h]
  self := by
    intro op ph s
    cases ph <;> cases h : op.saved <;> simp only [nextSection, Entry.nextSection, h]
    · simp [entry, get, getHistory]
    · simp [entry, get, getHistory, lookup_upsert, saved_taskId h]
    · simp [entry, get, getHistory]
    · simp [entry, get, getHistory]
    · rw [← saved_taskId h]
      simp [entry, get, getHistory, get_update]
  -- a section touches the entry of its own task only
  other := by
    intro op ph s t ht
    have hne : ¬ op.taskId = t := fun e => ht e.symm
    cases h : op.saved with
    | none => cases ph <;> simp [nextSection, h, entry, get, getHistory, AList.lookup_erase_ne ht]
    | some data =>
      have hget := get_update s data t
      rw [saved_taskId h, if_neg hne] at hget
      cases ph with
      | waiting => simp [nextSection, h, entry, get, getHistory, lookup_upsert, saved_taskId h, ht]
      | opened => simp [nextSection, entry, get, getHistory, AList.lookup_erase_ne ht]
      | pending =>
        simp only [nextSection, h, entry, get, getHistory, saved_taskId h]
        rw [hget]
        rfl
      | finished => rfl

/-! ### Consistency -/

/-- The latest checkpoint is one of the log with the greatest version, and there is one if the log
    is not empty. -/
structure Entry.Consistent (e : Entry) : Prop where
  some_iff : e.latest.isSome = true ↔ e.log ≠ []
  newest : ∀ data, e.latest = some data →
    data ∈ e.log ∧ ∀ data' ∈ e.log, data'.version ≤ data.version

/-- The two maps agree about every task. -/
def Consistent (s : CheckpointStore) : Prop := ∀ t, (s.entry t).Consistent

theorem consistent_new : new.Consistent := by
  intro t
  constructor <;> simp [new, entry, get, getHistory]

theorem Entry.Consistent.perm {latest : Option CheckpointData} {log log' : List CheckpointData}
    (hl : log.Perm log') (h : Entry.Consistent ⟨latest, log⟩) :
    Entry.Consistent ⟨latest, log'⟩ := by
  refine ⟨h.some_iff.trans (not_congr ⟨fun hn => ?_, fun hn => ?_⟩), fun data hd => ?_⟩
  · exact List.nil_perm.mp ((show log = [] from hn) ▸ hl)
  · exact List.perm_nil.mp ((show log' = [] from hn) ▸ hl)
  · obtain ⟨hmem, hmax⟩ := h.newest data hd
    exact ⟨hl.mem_iff.mp hmem, fun data' hd' => hmax data' (hl.mem_iff.mpr hd')⟩

/-- A checkpoint that reaches the hot store. -/
theorem Entry.Consistent.update {latest : Option CheckpointData} {log : List CheckpointData}
    (h : Entry.Consistent ⟨latest, log⟩) (data : CheckpointData) :
    Entry.Consistent ⟨some (newer latest data), log ++ [data]⟩ := by
  refine ⟨by simp, fun data' hd' => ?_⟩
  obtain rfl := Option.some.inj hd'
  cases latest with
  | none =>
    have hnil : log = [] := by
      by_contra hne
      exact absurd (h.some_iff.mpr hne) (by simp)
    simp [newer, hnil]
  | some existing =>
    obtain ⟨hmem, hmax⟩ := h.newest existing rfl
    -- an equal version does not replace the checkpoint that is there
    by_cases hv : data.version > existing.version
    · simp only [newer, if_pos hv]
      refine ⟨by simp, fun data' hd' => ?_⟩
      rcases List.mem_append.mp hd' with hd' | hd'
      · exact UInt64.le_trans (hmax data' hd') (UInt64.le_of_lt hv)
      · rw [List.mem_singleton.mp hd']
        exact UInt64.le_refl _
    · simp only [newer, if_neg hv]
      refine ⟨List.mem_append_left _ hmem, fun data' hd' => ?_⟩
      rcases List.mem_append.mp hd' with hd' | hd'
      · exact hmax data' hd'
      · rw [List.mem_singleton.mp hd']
        exact UInt64.not_lt.mp hv

/-! ### Saves and removals that do not overlap -/

/-- Only a removal has the history to empty, and only a save has the hot store to update. -/
def PhaseOk (th : Thread Op) : Prop :=
  (th.phase = .opened → th.call.saved = none) ∧ (th.phase = .pending → th.call.saved.isSome = true)

theorem PhaseOk.plain {op : Op} {ph : Phase} (ho : ph ≠ .opened) (hp : ph ≠ .pending) :
    PhaseOk ⟨op, ph⟩ := ⟨fun h => absurd h ho, fun h => absurd h hp⟩

/-- The checkpoints in the history that the hot store has yet to see. -/
def unpublished (threads : List (Thread Op)) : List CheckpointData :=
  (threads.filter fun th => decide (th.phase = .pending)).filterMap fun th => th.call.saved

theorem unpublished_eq_nil {threads : List (Thread Op)}
    (h : ∀ th ∈ threads, th.phase ≠ .pending) : unpublished threads = [] := by
  rw [unpublished, List.filter_eq_nil_iff.mpr fun th hth => by simpa using h th hth]
  rfl

/-- While a removal is under way the hot store is empty; otherwise it is consistent with the part of
    the history that it has seen. -/
structure TaskInv (threads : List (Thread Op)) (e : Entry) : Prop where
  phases : ∀ th ∈ threads, PhaseOk th
  removing : (∃ th ∈ threads, th.phase = .opened) → e.latest = none
  settled : (∀ th ∈ threads, th.phase ≠ .opened) → ∃ seen,
    e.log.Perm (seen ++ unpublished threads) ∧ Entry.Consistent ⟨e.latest, seen⟩

theorem TaskInv.perm {l l' : List (Thread Op)} {e : Entry} (hl : l.Perm l') (h : TaskInv l e) :
    TaskInv l' e := by
  have hunpublished : (unpublished l).Perm (unpublished l') := (hl.filter _).filterMap _
  refine ⟨fun th hth => h.phases th (hl.mem_iff.mpr hth), fun ⟨th, hth, ho⟩ => ?_, fun hno => ?_⟩
  · exact h.removing ⟨th, hl.mem_iff.mpr hth, ho⟩
  · obtain ⟨seen, hlog, hcons⟩ := h.settled fun th hth => hno th (hl.mem_iff.mp hth)
    exact ⟨seen, hlog.trans (hunpublished.append_left seen), hcons⟩

section Step
variable {op : Op} {ph : Phase} {rest : List (Thread Op)} {e : Entry}

theorem phases_cons {ph' : Phase} (h : TaskInv (⟨op, ph⟩ :: rest) e) (hop : PhaseOk ⟨op, ph'⟩) :
    ∀ th ∈ (⟨op, ph'⟩ :: rest : List (Thread Op)), PhaseOk th :=
  List.forall_mem_cons.mpr ⟨hop, (List.forall_mem_cons.mp h.phases).2⟩

theorem unpublished_cons (op : Op) (ph : Phase) (rest : List (Thread Op)) :
    unpublished (⟨op, ph⟩ :: rest) =
      if ph = .pending then op.saved.toList ++ unpublished rest else unpublished rest := by
  by_cases h : ph = .pending
  · cases hs : op.saved <;> simp [unpublished, h, hs]
  · simp [unpublished, h]

/-- A save appends to the history. -/
theorem TaskInv.push (h : TaskInv (⟨op, .waiting⟩ :: rest) e) {data : CheckpointData}
    (hs : op.saved = some data) :
    TaskInv (⟨op, .pending⟩ :: rest) ⟨e.latest, e.log ++ [data]⟩ := by
  refine ⟨phases_cons h ⟨fun h => by simp at h, fun _ => by simp [hs]⟩, ?_, fun hno => ?_⟩
  · rintro ⟨th, _ | ⟨_, hth⟩, ho⟩
    · simp at ho
    · exact h.removing ⟨th, List.mem_cons_of_mem _ hth, ho⟩
  · obtain ⟨seen, hlog, hcons⟩ := h.settled <| by
      rintro th (_ | ⟨_, hth⟩)
      · simp
      · exact hno th (List.mem_cons_of_mem _ hth)
    rw [unpublished_cons, if_neg (by simp)] at hlog
    refine ⟨seen, ?_, hcons⟩
    rw [unpublished_cons, if_pos rfl, hs]
    refine (hlog.append_right [data]).trans ?_
    rw [List.append_assoc]
    exact List.Perm.append_left seen List.perm_append_comm

/-- A removal empties the hot store. -/
theorem TaskInv.open_remove (h : TaskInv (⟨op, .waiting⟩ :: rest) e) (hs : op.saved = none) :
    TaskInv (⟨op, .opened⟩ :: rest) ⟨none, e.log⟩ := by
  refine ⟨phases_cons h ⟨fun _ => hs, fun h => by simp at h⟩, fun _ => rfl, fun hno => ?_⟩
  exact absurd rfl (hno ⟨op, .opened⟩ List.mem_cons_self)

/-- A removal empties the history while every save has reached the hot store. -/
theorem TaskInv.close_remove (h : TaskInv (⟨op, .opened⟩ :: rest) e)
    (hrest : ∀ th ∈ rest, th.phase ≠ .pending) :
    TaskInv (⟨op, .finished⟩ :: rest) ⟨e.latest, []⟩ := by
  have hnone : e.latest = none := h.removing ⟨⟨op, .opened⟩, List.mem_cons_self, rfl⟩
  refine ⟨phases_cons h (.plain (by simp) (by simp)), fun _ => hnone,
    fun _ => ⟨[], ?_, ?_⟩⟩
  · rw [unpublished_cons, if_neg (by simp), unpublished_eq_nil hrest]
    exact List.Perm.refl _
  · constructor <;> simp [hnone]

/-- A save reaches the hot store while no removal is under way. -/
theorem TaskInv.publish (h : TaskInv (⟨op, .pending⟩ :: rest) e) {data : CheckpointData}
    (hs : op.saved = some data) (hrest : ∀ th ∈ rest, th.phase ≠ .opened) :
    TaskInv (⟨op, .finished⟩ :: rest) ⟨some (newer e.latest data), e.log⟩ := by
  have hno : ∀ ph, ph ≠ .opened → ∀ th ∈ (⟨op, ph⟩ :: rest : List (Thread Op)),
      th.phase ≠ .opened := by
    rintro ph hph th (_ | ⟨_, hth⟩)
    · exact hph
    · exact hrest th hth
  refine ⟨phases_cons h (.plain (by simp) (by simp)),
    fun ⟨th, hth, ho⟩ => absurd ho (hno _ (by simp) th hth), fun _ => ?_⟩
  obtain ⟨seen, hlog, hcons⟩ := h.settled (hno _ (by simp))
  refine ⟨seen ++ [data], ?_, hcons.update data⟩
  rw [unpublished_cons, if_pos rfl, hs] at hlog
  rw [unpublished_cons, if_neg (by simp), List.append_assoc]
  exact hlog

theorem TaskInv.step {th : Thread Op} (h : TaskInv (th :: rest) e)
    (hspares : ∀ th' ∈ rest, th.Spares th') :
    TaskInv (⟨th.call, (Entry.nextSection th.call th.phase e).1⟩ :: rest)
      (Entry.nextSection th.call th.phase e).2 := by
  obtain ⟨op, ph⟩ := th
  have hphase : PhaseOk ⟨op, ph⟩ := h.phases _ List.mem_cons_self
  cases ph with
  | waiting =>
    cases hs : op.saved with
    | some data =>
      simp only [Entry.nextSection, hs]
      exact h.push hs
    | none =>
      simp only [Entry.nextSection, hs]
      exact h.open_remove hs
  | opened => exact h.close_remove fun th' hth' => (hspares th' hth').1 rfl
  | pending =>
    obtain ⟨data, hs⟩ := Option.isSome_iff_exists.mp (hphase.2 rfl)
    have hs : op.saved = some data := hs
    simp only [Entry.nextSection, hs]
    exact h.publish hs fun th' hth' => (hspares th' hth').2 rfl
  | finished => exact h

end Step

/-- Calls that do not overlap in the middle of a save or a removal of their task leave a consistent
    store. -/
theorem consistent_of_undisturbed {s : CheckpointStore} (hs : s.Consistent) {ops : List Op}
    {sched : List ℕ} (hfree : AllUndisturbed Op.taskId nextSection (Pool.start ops s) sched)
    (hfin : (Pool.run nextSection (Pool.start ops s) sched).Finished) :
    (Pool.run nextSection (Pool.start ops s) sched).shared.Consistent := by
  intro t
  have hwaiting : ∀ th ∈ threadsOf Op.taskId t (Pool.start ops s).threads,
      th.phase = .waiting := fun _ => phase_of_start Op.taskId
  have hstart : TaskInv (threadsOf Op.taskId t (Pool.start ops s).threads) (s.entry t) := by
    refine ⟨fun th hth => ?_, fun ⟨th, hth, ho⟩ => ?_, fun _ => ⟨(s.entry t).log, ?_, hs t⟩⟩
    · exact .plain (by simp [hwaiting th hth]) (by simp [hwaiting th hth])
    · simp [hwaiting th hth] at ho
    · rw [unpublished_eq_nil fun th hth => by simp [hwaiting th hth], List.append_nil]
  have hinv := nextSection_local.run_invariant hfree hstart TaskInv.perm
    fun _ _ _ hspares h => h.step hspares
  have hdone : ∀ th ∈ threadsOf Op.taskId t
      (Pool.run nextSection (Pool.start ops s) sched).threads, th.phase = .finished :=
    fun _ => phase_of_finished Op.taskId hfin
  obtain ⟨seen, hlog, hcons⟩ := hinv.settled fun th hth => by simp [hdone th hth]
  rw [unpublished_eq_nil fun th hth => by simp [hdone th hth], List.append_nil] at hlog
  exact hcons.perm hlog.symm

/-! ### Which calls are safe together -/

theorem phaseOk_nextSection {op : Op} {ph : Phase} (s : CheckpointStore) (h : PhaseOk ⟨op, ph⟩) :
    PhaseOk ⟨op, (nextSection op ph s).1⟩ := by
  cases ph <;> cases hs : op.saved <;> simp [PhaseOk, nextSection, hs]

/-- Calls that never save and remove the same task never disturb each other. -/
theorem allUndisturbed_of_disjoint {ops : List Op}
    (hdisj : ∀ op ∈ ops, ∀ op' ∈ ops, op.saved.isSome = true → op'.saved = none →
      op.taskId ≠ op'.taskId) (sched : List ℕ) :
    ∀ p : Pool Op CheckpointStore, p.threads.map Thread.call = ops →
      (∀ th ∈ p.threads, PhaseOk th) → AllUndisturbed Op.taskId nextSection p sched := by
  induction sched with
  | nil => exact fun _ _ _ => trivial
  | cons i sched ih =>
    intro p hops hphases
    have hmem : ∀ th ∈ p.threads, th.call ∈ ops := fun th hth =>
      hops ▸ List.mem_map_of_mem hth
    refine ⟨fun th hth th' hth' hkey => ?_, ih _ ((Pool.calls_step _ p i).trans hops) ?_⟩
    · have hth : th ∈ p.threads := List.mem_of_getElem? hth
      refine ⟨fun ho hp => ?_, fun hp ho => ?_⟩
      · exact hdisj _ (hmem th' hth') _ (hmem th hth) ((hphases th' hth').2 hp)
          ((hphases th hth).1 ho) hkey
      · exact hdisj _ (hmem th hth) _ (hmem th' hth') ((hphases th hth).2 hp)
          ((hphases th' hth').1 ho) hkey.symm
    · rcases Pool.step_cases nextSection p i with hp | ⟨th, rest, hth, hbefore, hafter, -⟩
      · rw [hp]
        exact hphases
      · intro th' hth'
        rcases List.mem_cons.mp (hafter.mem_iff.mp hth') with rfl | hrest
        · exact phaseOk_nextSection _ (hphases th (List.mem_of_getElem? hth))
        · exact hphases th' (hbefore.mem_iff.mpr (List.mem_cons_of_mem _ hrest))

/-- The removal of a task runs between the two sections of a save of it. -/
theorem run_overlap {p : Pool Op CheckpointStore} {i j : ℕ} {op op' : Op} (hij : i ≠ j)
    (hi : p.threads[i]? = some ⟨op, .waiting⟩) (hj : p.threads[j]? = some ⟨op', .waiting⟩)
    {data : CheckpointData} (hs : op.saved = some data) (hs' : op'.saved = none)
    (htask : op.taskId = op'.taskId) :
    (Pool.run nextSection p [i, j, j, i]).threads[i]? = some ⟨op, .finished⟩ ∧
      (Pool.run nextSection p [i, j, j, i]).threads[j]? = some ⟨op', .finished⟩ ∧
      (∀ k, i ≠ k → j ≠ k →
        (Pool.run nextSection p [i, j, j, i]).threads[k]? = p.threads[k]?) ∧
      (Pool.run nextSection p [i, j, j, i]).shared.entry op.taskId = ⟨some data, []⟩ := by
  have hrun : Pool.run nextSection p [i, j, j, i] = Pool.step nextSection
      (Pool.step nextSection (Pool.step nextSection (Pool.step nextSection p i) j) j) i := rfl
  rw [hrun]
  -- the save logs, the removal empties both places, and then the save fills the hot store again
  obtain ⟨hi₁, he₁, hk₁⟩ := nextSection_local.step_spec hi
  generalize Pool.step nextSection p i = p₁ at hi₁ he₁ hk₁ ⊢
  obtain ⟨hj₂, he₂, hk₂⟩ := nextSection_local.step_spec ((hk₁ j hij).trans hj)
  generalize Pool.step nextSection p₁ j = p₂ at hj₂ he₂ hk₂ ⊢
  simp only [Entry.nextSection, hs, hs'] at hi₁ he₁ hj₂ he₂
  obtain ⟨hj₃, he₃, hk₃⟩ := nextSection_local.step_spec hj₂
  generalize Pool.step nextSection p₂ j = p₃ at hj₃ he₃ hk₃ ⊢
  obtain ⟨hi₄, he₄, hk₄⟩ := nextSection_local.step_spec
    ((hk₃ i hij.symm).trans ((hk₂ i hij.symm).trans hi₁))
  generalize Pool.step nextSection p₃ i = p₄ at hi₄ he₄ hk₄ ⊢
  simp only [Entry.nextSection, hs] at hj₃ he₃ hi₄ he₄
  refine ⟨hi₄, (hk₄ j hij).trans hj₃, fun k hik hjk => ?_, ?_⟩
  · rw [hk₄ k hik, hk₃ k hjk, hk₂ k hjk, hk₁ k hik]
  · rw [he₄, htask, he₃, he₂]
    rfl

/-- A save and a removal of one task among the calls: they may overlap after all the others. -/
theorem exists_inconsistent (s : CheckpointStore) {ops : List Op} {op op' : Op} (hop : op ∈ ops)
    (hop' : op' ∈ ops) {data : CheckpointData} (hs : op.saved = some data) (hs' : op'.saved = none)
    (htask : op.taskId = op'.taskId) :
    ∃ sched, (Pool.run nextSection (Pool.start ops s) sched).Finished ∧
      ¬ (Pool.run nextSection (Pool.start ops s) sched).shared.Consistent := by
  obtain ⟨i, hi⟩ := List.mem_iff_getElem?.mp hop
  obtain ⟨j, hj⟩ := List.mem_iff_getElem?.mp hop'
  have hij : i ≠ j := by
    rintro rfl
    obtain rfl := Option.some.inj (hi.symm.trans hj)
    simp [hs] at hs'
  -- every call is over after two sections
  have hend : ∀ op ph s s', (nextSection op (nextSection op ph s).1 s').1 = .finished := by
    intro op ph s s'
    cases ph <;> cases hop : op.saved <;> simp [nextSection, hop]
  obtain ⟨others, hdone, hpi, hpj⟩ := Pool.exists_others_finished nextSection hend ops s i j
  -- all the others first; then the removal between the two sections of the save
  refine ⟨others ++ [i, j, j, i], ?_⟩
  rw [Pool.run_append]
  generalize Pool.run nextSection (Pool.start ops s) others = p at hdone hpi hpj ⊢
  rw [hi] at hpi
  rw [hj] at hpj
  obtain ⟨hqi, hqj, hqk, hentry⟩ := run_overlap hij hpi hpj hs hs' htask
  constructor
  · intro th hth
    obtain ⟨k, hk⟩ := List.mem_iff_getElem?.mp hth
    rcases eq_or_ne i k with rfl | hki
    · rw [hqi] at hk
      rw [← Option.some.inj hk]
    · rcases eq_or_ne j k with rfl | hkj
      · rw [hqj] at hk
        rw [← Option.some.inj hk]
      · rw [hqk k hki hkj] at hk
        exact hdone k (Ne.symm hki) (Ne.symm hkj) th hk
  · intro hcons
    have hsome := (hcons op.taskId).some_iff
    rw [hentry] at hsome
    exact hsome.mp rfl rfl

/-- Every interleaving of some calls leaves the store consistent exactly when no task is both saved
    and removed by them; and any calls leave it consistent when no removal overlaps the middle of a
    save of its task. -/
theorem interleavings_consistent {s : CheckpointStore} (hs : s.Consistent) (ops : List Op) :
    ((∀ sched, (Pool.run nextSection (Pool.start ops s) sched).Finished →
        (Pool.run nextSection (Pool.start ops s) sched).shared.Consistent) ↔
      ∀ op ∈ ops, ∀ op' ∈ ops, op.saved.isSome = true → op'.saved = none →
        op.taskId ≠ op'.taskId) ∧
      ∀ sched, AllUndisturbed Op.taskId nextSection (Pool.start ops s) sched →
        (Pool.run nextSection (Pool.start ops s) sched).Finished →
        (Pool.run nextSection (Pool.start ops s) sched).shared.Consistent := by
  refine ⟨⟨fun hall op hop op' hop' hsaved hs' htask => ?_, fun hdisj sched => ?_⟩,
    fun sched => consistent_of_undisturbed hs⟩
  · obtain ⟨data, hdata⟩ := Option.isSome_iff_exists.mp hsaved
    obtain ⟨sched, hfin, hbad⟩ := exists_inconsistent s hop hop' hdata hs' htask
    exact hbad (hall sched hfin)
  · refine consistent_of_undisturbed hs (allUndisturbed_of_disjoint hdisj sched _
      (Pool.calls_start ops s) fun th hth => ?_)
    obtain ⟨op, -, rfl⟩ := List.mem_map.mp hth
    exact .plain (by simp) (by simp)

/-- The removal empties both maps between the two sections of the save. -/
theorem interleaving_inconsistent :
    let data : CheckpointData := ⟨7, [1], ⟨1⟩, 0, 1⟩
    let p := Pool.run nextSection (Pool.start [.save data, .remove 7] new) [0, 1, 1, 0]
    p.Finished ∧ p.shared.get 7 = some data ∧ p.shared.getHistory 7 = [] := by
  intro data p
  refine ⟨by decide, by decide, by decide⟩

/-- Two saves of one task, whichever reaches the hot store first. -/
theorem interleavings_consistent_two :
    (Pool.run nextSection (Pool.start
      [.save ⟨7, [1], ⟨1⟩, 0, 1⟩, .save ⟨7, [2], ⟨1⟩, 0, 2⟩] new) [0, 1, 1, 0]).shared.Consistent :=
  (interleavings_consistent consistent_new _).1.mpr (by decide) _ (by decide)

end CheckpointStore
end ATP
