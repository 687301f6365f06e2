import AgentTransport.Fault.Poison
import Mathlib.Data.List.DropRight

/-! Runs of the poison detector: any sequence of calls for any tasks, under a clock that never goes
    back.

    The detector forgets: a failure prunes the records its window no longer sees, and nothing is
    recorded for a poisoned task. What it answers about a task is nevertheless what the full history
    of the task since its last clear says. -/

namespace ATP
namespace PoisonDetector
open Collections SlidingWindow

/-! ### The history of a task -/

/-- The calls for a task since its last clear. -/
def sinceClear (t : Uuid) (cs : List Call) : List Call :=
  (cs.filter fun c => decide (c.taskId = t)).rtakeWhile fun c => decide (c.op ≠ .clear)

/-- The failure a call reports. -/
def Call.failure (c : Call) : Option FailureRecord :=
  match c.op with
  | .recordFailure a => some ⟨a, c.now⟩
  | _ => none

/-- The failures that some calls report, recorded or not. -/
def reported (cs : List Call) : List FailureRecord := cs.filterMap Call.failure

/-- The failures of a log that the window of some time has not lost. -/
abbrev remembered (config : FaultConfig) (s : DateTime) (log : List FailureRecord) :
    List FailureRecord :=
  within FailureRecord.timestamp (config.poisonDetectionWindow : ℤ) s log

/-- Some reported failure ends a window with enough distinct agents. -/
def Overrun (config : FaultConfig) (log : List FailureRecord) : Prop :=
  Crowded FailureRecord.agentId FailureRecord.timestamp (config.poisonDetectionWindow : ℤ)
    (max config.poisonAgentThreshold.toNat 1) log

/-- What makes a task poisoned: someone forced it, or too many agents failed it at a time. -/
def Condemned (config : FaultConfig) (cs : List Call) : Prop :=
  (∃ c ∈ cs, c.op = .forcePoison) ∨ Overrun config (reported cs)

/-- The distinct agents whose failure the window of some time still sees. -/
def recentAgents (config : FaultConfig) (cs : List Call) (now : DateTime) : ℕ :=
  distinct FailureRecord.agentId
    (SlidingWindow.window FailureRecord.timestamp (config.poisonDetectionWindow : ℤ) now
      (reported cs))

theorem window_eq {config : FaultConfig} (h : config.poisonDetectionWindow ≤ chronoMax) :
    PoisonDetector.window config = (config.poisonDetectionWindow : ℤ) := by
  rw [PoisonDetector.window, chronoFromStd_of_le h]; rfl

theorem sinceClear_concat (t : Uuid) (cs : List Call) (c : Call) :
    sinceClear t (cs ++ [c]) =
      if c.taskId = t then if c.op = .clear then [] else sinceClear t cs ++ [c]
      else sinceClear t cs := by
  by_cases h : c.taskId = t
  · by_cases hc : c.op = .clear <;> simp [sinceClear, h, hc]
  · simp [sinceClear, h]

theorem reported_concat (cs : List Call) (c : Call) :
    reported (cs ++ [c]) = reported cs ++ c.failure.toList := by
  rw [reported, List.filterMap_append]
  cases h : c.failure <;> simp [reported, h]

theorem sinceClear_subset {t : Uuid} {cs : List Call} {c : Call} (h : c ∈ sinceClear t cs) :
    c ∈ cs :=
  (List.filter_sublist.subset ((List.rtakeWhile_suffix _ _).subset h))

/-! ### The entry summarises the history -/

/-- The verdict of an entry is that of the history, and while the task is not poisoned its records
    are as good as the history in every window still to come. -/
structure Summarises (config : FaultConfig) (cs : List Call) (e : Entry) : Prop where
  poisoned : e.poisoned = true ↔ Condemned config cs
  empty : e.poisoned = false → e.records = none → reported cs = []
  kept : ∀ rs, e.poisoned = false → e.records = some rs → reported cs ≠ [] ∧
    ∀ s, (∀ r ∈ reported cs, r.timestamp ≤ s) →
      remembered config s rs = remembered config s (reported cs)

section Invariant
variable {config : FaultConfig} {cs : List Call} {e : Entry} {a : AgentId} {now : DateTime}

theorem Summarises.records (h : Summarises config cs e) (hp : e.poisoned = false) {s : DateTime}
    (hs : ∀ r ∈ reported cs, r.timestamp ≤ s) :
    remembered config s (e.records.getD []) = remembered config s (reported cs) := by
  cases hr : e.records with
  | none => rw [h.empty hp hr]; rfl
  | some rs => exact (h.kept rs hp hr).2 s hs

/-- The pruned records are what the window of the new failure sees of the history. -/
theorem Summarises.pruned (hW : config.poisonDetectionWindow ≤ chronoMax)
    (h : Summarises config cs e) (hp : e.poisoned = false)
    (hnow : ∀ r ∈ reported cs, r.timestamp ≤ now) :
    e.pruned config a now = remembered config now (reported cs ++ [⟨a, now⟩]) := by
  rw [Entry.pruned, window_eq hW, remembered, within_append]
  rw [show within _ _ now (reported cs) = _ from (h.records hp hnow).symm, ← within_append]
  rfl

/-- The count of distinct agents does not wrap around, and it reaches the threshold exactly when
    the history is overrun. -/
theorem reaches_iff {log : List FailureRecord}
    (hlog : Ordered FailureRecord.timestamp (log ++ [FailureRecord.mk a now]))
    (hcalm : ¬ Overrun config log) :
    reaches config (remembered config now (log ++ [⟨a, now⟩])) = true ↔
      Overrun config (log ++ [⟨a, now⟩]) := by
  have hover : Overrun config (log ++ [⟨a, now⟩]) ↔ max config.poisonAgentThreshold.toNat 1 ≤
      distinct FailureRecord.agentId (remembered config now (log ++ [⟨a, now⟩])) :=
    (crowded_concat hlog).trans (or_iff_right hcalm)
  -- the window sees the new failure, and at most one agent more than before
  have hself : remembered config now [⟨a, now⟩] = [⟨a, now⟩] := by simp [remembered, within]
  have hsplit : remembered config now (log ++ [⟨a, now⟩]) =
      remembered config now log ++ [⟨a, now⟩] := by
    rw [remembered, within_append]
    exact congrArg _ hself
  have hpos : 0 < distinct FailureRecord.agentId
      (remembered config now (log ++ [⟨a, now⟩])) := by
    rw [hsplit]
    exact distinct_pos _ (by simp)
  have hle : distinct FailureRecord.agentId (remembered config now (log ++ [⟨a, now⟩])) ≤
      max config.poisonAgentThreshold.toNat 1 := by
    have hlt := distinct_within_lt (by omega) hlog.of_concat.1 hcalm hlog.of_concat.2
    rw [hsplit]
    exact (distinct_concat_le _ _ _).trans hlt
  have hmax : config.poisonAgentThreshold.toNat < 2 ^ 32 := UInt32.toNat_lt _
  have hcast : (UInt32.ofNat (distinctAgents (remembered config now (log ++ [⟨a, now⟩])))).toNat =
      distinct FailureRecord.agentId (remembered config now (log ++ [⟨a, now⟩])) :=
    Nat.mod_eq_of_lt (hle.trans_lt (by omega))
  rw [hover, reaches, decide_eq_true_iff, ge_iff_le, UInt32.le_iff_toNat_le, hcast]
  omega

/-- One more call for the task. -/
theorem Summarises.step (hW : config.poisonDetectionWindow ≤ chronoMax)
    (h : Summarises config cs e) {c : Call} (hc : c.op ≠ .clear)
    (hlog : Ordered FailureRecord.timestamp (reported (cs ++ [c]))) :
    Summarises config (cs ++ [c]) (c.onEntry config e) := by
  obtain ⟨op, t, now⟩ := c
  have hforced : ∀ op, op ≠ .forcePoison →
      ((∃ c ∈ cs ++ [Call.mk op t now], c.op = .forcePoison) ↔ ∃ c ∈ cs, c.op = .forcePoison) := by
    intro op hop
    simp [or_and_right, exists_or, hop]
  cases op with
  | clear => exact absurd rfl hc
  | recordFailure a =>
    rw [reported_concat] at hlog
    have hrep : reported (cs ++ [⟨.recordFailure a, t, now⟩]) = reported cs ++ [⟨a, now⟩] :=
      reported_concat _ _
    have hcond : Condemned config (cs ++ [⟨.recordFailure a, t, now⟩]) ↔
        (∃ c ∈ cs, c.op = .forcePoison) ∨ Overrun config (reported cs ++ [⟨a, now⟩]) := by
      rw [Condemned, hforced _ (by simp), hrep]
    have hentry : Call.onEntry config e ⟨.recordFailure a, t, now⟩ = if e.poisoned then e
        else ⟨some (e.pruned config a now), reaches config (e.pruned config a now)⟩ := rfl
    by_cases hp : e.poisoned = true
    · -- a poisoned task stays poisoned
      rw [hentry, if_pos hp]
      refine ⟨?_, fun hn => absurd hp (by simp [hn]), fun _ hn => absurd hp (by simp [hn])⟩
      refine ⟨fun _ => hcond.mpr ?_, fun _ => hp⟩
      exact (h.poisoned.mp hp).imp_right fun hover => (crowded_concat hlog).mpr (Or.inl hover)
    · have hp' : e.poisoned = false := eq_false_of_ne_true hp
      have hcalm : ¬ Condemned config cs := fun hcon => hp (h.poisoned.mpr hcon)
      obtain ⟨hnoforce, hnotover⟩ := not_or.mp hcalm
      have hpruned := h.pruned (a := a) hW hp' hlog.of_concat.2
      rw [hentry, if_neg hp, hpruned]
      refine ⟨?_, fun _ hn => absurd hn (by simp), fun rs _ hrs => ?_⟩
      · rw [hcond, or_iff_right hnoforce]
        exact reaches_iff hlog hnotover
      · obtain rfl := Option.some.inj hrs
        rw [hrep]
        exact ⟨by simp, fun s hs => within_within _ _ (hs ⟨a, now⟩ (by simp)) _⟩
  | forcePoison =>
    refine ⟨⟨fun _ => Or.inl ⟨⟨.forcePoison, t, now⟩, by simp, rfl⟩, fun _ => rfl⟩, ?_, ?_⟩ <;>
      simp [Call.onEntry]
  | status | isPoisoned | allowRetry =>
    have hrep : ∀ op, Call.failure ⟨op, t, now⟩ = none → reported (cs ++ [⟨op, t, now⟩]) =
        reported cs := by
      intro op hop
      rw [reported_concat, hop]
      simp
    refine ⟨?_, ?_, ?_⟩
    · rw [Condemned, hforced _ (by simp), hrep _ rfl]
      exact h.poisoned
    · rw [hrep _ rfl]
      exact h.empty
    · rw [hrep _ rfl]
      exact h.kept

theorem Summarises.nil (config : FaultConfig) : Summarises config [] ⟨none, false⟩ where
  poisoned := by simp [Condemned, Overrun, Crowded, reported]
  empty := fun _ _ => rfl
  kept := fun _ _ h => absurd h (by simp)

end Invariant

/-! ### Runs -/

theorem applyAll_concat (d : PoisonDetector) (cs : List Call) (c : Call) :
    d.applyAll (cs ++ [c]) = (d.applyAll cs).apply c := List.foldl_append

theorem entry_applyAll (t : Uuid) (cs : List Call) : ∀ d : PoisonDetector,
    (d.applyAll cs).entry t =
      (d.applyAll (cs.filter fun c => decide (c.taskId = t))).entry t := by
  induction cs using List.reverseRecOn with
  | nil => exact fun _ => rfl
  | append_singleton cs c ih =>
    intro d
    rw [applyAll_concat, entry_apply, List.filter_append, ih d, applyAll_config]
    by_cases h : c.taskId = t
    · rw [if_pos h, List.filter_cons_of_pos (by simp [h]), List.filter_nil, applyAll_concat,
        entry_apply, if_pos h, applyAll_config]
    · rw [if_neg h, List.filter_cons_of_neg (by simp [h]), List.filter_nil, List.append_nil]

theorem runCalls_eq_some {d : PoisonDetector} {cs : List Call}
    (h : ∀ xs c, xs ++ [c] <+: cs → (d.applyAll xs).returns c = true) :
    d.runCalls cs = some (d.applyAll cs) := by
  induction cs generalizing d with
  | nil => rfl
  | cons c cs ih =>
    have hc : d.returns c = true := h [] c (by simp)
    rw [runCalls, if_pos hc]
    refine ih fun xs c' hpre => ?_
    exact h (c :: xs) c' (by simpa using hpre)

theorem reported_ordered {cs : List Call} (h : cs.Pairwise fun c c' => c.now ≤ c'.now) :
    Ordered FailureRecord.timestamp (reported cs) := by
  refine List.Pairwise.filterMap _ (fun c c' hcc' r hr r' hr' => ?_) h
  have htime : ∀ {c : Call} {r}, c.failure = some r → r.timestamp = c.now := by
    intro c r hr
    obtain ⟨op, t, now⟩ := c
    cases op <;> simp [Call.failure] at hr
    rw [← hr]
  rwa [htime hr, htime hr']

theorem mem_reported {cs : List Call} {r : FailureRecord} (h : r ∈ reported cs) :
    ∃ c ∈ cs, c.op = .recordFailure r.agentId ∧ c.now = r.timestamp := by
  obtain ⟨c, hc, hr⟩ := List.mem_filterMap.mp h
  obtain ⟨op, t, now⟩ := c
  cases op <;> simp [Call.failure] at hr
  exact ⟨_, hc, by rw [← hr], by rw [← hr]⟩

theorem sinceClear_ordered {t : Uuid} {cs : List Call}
    (h : cs.Pairwise fun c c' => c.now ≤ c'.now) :
    Ordered FailureRecord.timestamp (reported (sinceClear t cs)) :=
  reported_ordered (h.sublist
    ((List.rtakeWhile_suffix _ _).sublist.trans List.filter_sublist))

/-- After every run the entry of a task summarises its history since its last clear. -/
theorem summarises_applyAll {config : FaultConfig}
    (hW : config.poisonDetectionWindow ≤ chronoMax) (t : Uuid) {cs : List Call}
    (hclock : cs.Pairwise fun c c' => c.now ≤ c'.now) :
    Summarises config (sinceClear t cs) (((new config).applyAll cs).entry t) := by
  induction cs using List.reverseRecOn with
  | nil => exact Summarises.nil config
  | append_singleton cs c ih =>
    have hpre := ih (List.pairwise_append.mp hclock).1
    have hord := sinceClear_ordered (t := t) hclock
    rw [sinceClear_concat] at hord ⊢
    rw [applyAll_concat, entry_apply, applyAll_config]
    by_cases ht : c.taskId = t
    · rw [if_pos ht] at hord ⊢
      rw [if_pos ht]
      by_cases hc : c.op = .clear
      · rw [if_pos hc, Call.onEntry, hc]
        exact Summarises.nil config
      · rw [if_neg hc] at hord ⊢
        exact hpre.step hW hc hord
    · rwa [if_neg ht, if_neg ht]

/-! ### Answers -/

theorem status_eq (d : PoisonDetector) (t : Uuid) (now : DateTime) :
    d.status t now = if (d.entry t).poisoned then some .poisoned
      else match (d.entry t).records with
        | none => some .healthy
        | some records => (cutoff d.config now).map fun cutoff =>
          let distinct := distinctAgents (records.filter (fun r => r.timestamp ≥ cutoff))
          if UInt32.ofNat distinct ≥ d.config.poisonAgentThreshold then .poisoned
          else if distinct ≥ 2 then .suspected
          else .healthy := by
  by_cases h : t ∈ d.poisoned
  · rw [status, if_pos h, if_pos (show (d.entry t).poisoned = true from decide_eq_true h)]
  · rw [status, if_neg h, if_neg (by simp [entry, h])]
    rfl

/-- A history that is not overrun has fewer agents in any window than the threshold, which cannot
    be zero once a failure was reported. -/
theorem recentAgents_lt {config : FaultConfig} {cs : List Call}
    (hord : Ordered FailureRecord.timestamp (reported cs)) (hne : reported cs ≠ [])
    (hcalm : ¬ Condemned config cs) {now : DateTime}
    (hnow : ∀ r ∈ reported cs, r.timestamp ≤ now) :
    recentAgents config cs now < config.poisonAgentThreshold.toNat := by
  have hnotover : ¬ Overrun config (reported cs) := (not_or.mp hcalm).2
  have hlt := distinct_within_lt (by omega) hord hnotover hnow
  rw [within_eq_window _ _ hnow] at hlt
  by_cases hzero : config.poisonAgentThreshold.toNat = 0
  · exfalso
    refine hnotover ?_
    rw [Overrun, hzero]
    exact crowded_one (Int.natCast_nonneg _) hne
  · rw [recentAgents]
    omega

/-- What `status` answers about a task whose entry summarises its history. -/
theorem Summarises.status {config : FaultConfig} {cs : List Call} {d : PoisonDetector} {t : Uuid}
    {now : DateTime} (h : Summarises config cs (d.entry t)) (hconfig : d.config = config)
    (hW : config.poisonDetectionWindow ≤ chronoMax)
    (hord : Ordered FailureRecord.timestamp (reported cs))
    (hnow : ∀ r ∈ reported cs, r.timestamp ≤ now)
    (hrange : reported cs ≠ [] → DateTime.minUtc ≤ now - config.poisonDetectionWindow) :
    ∃ st, d.status t now = some st ∧ (st = .poisoned ↔ Condemned config cs) ∧
      (¬ Condemned config cs → (st = .suspected ↔ 2 ≤ recentAgents config cs now)) := by
  rw [status_eq, hconfig]
  by_cases hp : (d.entry t).poisoned = true
  · rw [if_pos hp]
    have hcon := h.poisoned.mp hp
    exact ⟨_, rfl, ⟨fun _ => hcon, fun _ => rfl⟩, fun hn => absurd hcon hn⟩
  · have hp' : (d.entry t).poisoned = false := eq_false_of_ne_true hp
    have hcalm : ¬ Condemned config cs := fun hcon => hp (h.poisoned.mpr hcon)
    rw [if_neg hp]
    cases hr : (d.entry t).records with
    | none =>
      refine ⟨_, rfl, ⟨fun h => (by cases h), fun h => absurd h hcalm⟩, fun _ => ?_⟩
      simp [recentAgents, h.empty hp' hr, SlidingWindow.window, distinct]
    | some rs =>
      obtain ⟨hne, hkept⟩ := h.kept rs hp' hr
      have hcut : cutoff config now = some (now - (config.poisonDetectionWindow : ℤ)) := by
        rw [cutoff, window_eq hW, if_pos (hrange hne)]
      -- the records the cutoff leaves are those of the history
      have hcount : distinctAgents
          (rs.filter fun r => r.timestamp ≥ now - (config.poisonDetectionWindow : ℤ)) =
          recentAgents config cs now := by
        rw [recentAgents, ← within_eq_window _ _ hnow]
        exact congrArg (distinct FailureRecord.agentId) (hkept now hnow)
      have hlt := recentAgents_lt hord hne hcalm hnow
      have hmax : config.poisonAgentThreshold.toNat < 2 ^ 32 := UInt32.toNat_lt _
      have hbelow : ¬ UInt32.ofNat (recentAgents config cs now) ≥ config.poisonAgentThreshold := by
        have hcast : (UInt32.ofNat (recentAgents config cs now)).toNat =
            recentAgents config cs now := Nat.mod_eq_of_lt (by omega)
        rw [ge_iff_le, UInt32.le_iff_toNat_le, hcast]
        omega
      simp only [hcut, Option.map_some, hcount, if_neg hbelow]
      refine ⟨_, rfl, ⟨fun h => ?_, fun h => absurd h hcalm⟩, fun _ => ?_⟩
      · split_ifs at h
      · split_ifs with htwo <;> simp [htwo]

section Answers
variable {config : FaultConfig} {cs : List Call}

/-- Failures are reported by calls of the run. -/
theorem mem_reported_sinceClear {t : Uuid} {r : FailureRecord}
    (h : r ∈ reported (sinceClear t cs)) :
    ∃ c ∈ cs, (∃ a, c.op = .recordFailure a) ∧ c.now = r.timestamp := by
  obtain ⟨c, hc, hop, htime⟩ := mem_reported h
  exact ⟨c, sinceClear_subset hc, ⟨_, hop⟩, htime⟩

variable (hW : config.poisonDetectionWindow ≤ chronoMax)
  (hclock : cs.Pairwise fun c c' => c.now ≤ c'.now)
  (hrange : ∀ c ∈ cs, (∃ a, c.op = .recordFailure a) →
    DateTime.minUtc ≤ c.now - config.poisonDetectionWindow)
include hW hclock hrange

/-- `status` answers from the history, at any time from the last call on. -/
theorem status_applyAll (t : Uuid) {now : DateTime} (hnow : ∀ c ∈ cs, c.now ≤ now) :
    ∃ st, ((new config).applyAll cs).status t now = some st ∧
      (st = .poisoned ↔ Condemned config (sinceClear t cs)) ∧
      (¬ Condemned config (sinceClear t cs) →
        (st = .suspected ↔ 2 ≤ recentAgents config (sinceClear t cs) now)) := by
  refine (summarises_applyAll hW t hclock).status (applyAll_config cs _) hW
    (sinceClear_ordered hclock) (fun r hr => ?_) (fun hne => ?_)
  · obtain ⟨c, hc, -, htime⟩ := mem_reported_sinceClear hr
    exact htime ▸ hnow c hc
  · obtain ⟨r, hr⟩ := List.exists_mem_of_ne_nil _ hne
    obtain ⟨c, hc, hop, -⟩ := mem_reported_sinceClear hr
    exact (hrange c hc hop).trans (sub_le_sub_right (hnow c hc) _)

/-- No call of the run panics. -/
theorem runCalls_eq : (new config).runCalls cs = some ((new config).applyAll cs) := by
  refine runCalls_eq_some fun xs c hpre => ?_
  obtain ⟨ys, rfl⟩ := hpre
  have hxs : (xs ++ [c]).Pairwise fun c c' => c.now ≤ c'.now := (List.pairwise_append.mp hclock).1
  have hlate : ∀ c' ∈ xs, c'.now ≤ c.now := fun c' hc' =>
    (List.pairwise_append.mp hxs).2.2 c' hc' c (by simp)
  obtain ⟨op, t, now⟩ := c
  cases op with
  | recordFailure a =>
    have hin := hrange ⟨.recordFailure a, t, now⟩ (by simp) ⟨a, rfl⟩
    have hcut : (cutoff ((new config).applyAll xs).config now).isSome = true := by
      rw [applyAll_config, cutoff, show (new config).config = config from rfl, window_eq hW,
        if_pos hin]
      rfl
    exact Bool.or_eq_true_iff.mpr (Or.inr hcut)
  | status =>
    obtain ⟨st, hst, -⟩ := status_applyAll hW (List.pairwise_append.mp hxs).1
      (fun c hc => hrange c (by simp [hc])) t hlate
    exact Option.isSome_iff_exists.mpr ⟨st, hst⟩
  | _ => rfl

end Answers

/-- What the pruning detector answers is what the full history says, as long as no failure comes
    so early that the window would begin before the earliest `DateTime`. -/
theorem run_refines_history {config : FaultConfig} {cs : List Call}
    (hW : config.poisonDetectionWindow ≤ chronoMax)
    (hclock : cs.Pairwise fun c c' => c.now ≤ c'.now)
    (hrange : ∀ c ∈ cs, (∃ a, c.op = .recordFailure a) →
      DateTime.minUtc ≤ c.now - config.poisonDetectionWindow) (t : Uuid) :
    ∃ d, (new config).runCalls cs = some d ∧
      (d.isPoisoned t = true ↔ Condemned config (sinceClear t cs)) ∧
      (∀ now, (∀ c ∈ cs, c.now ≤ now) → ∃ st, d.status t now = some st ∧
        (st = .poisoned ↔ d.isPoisoned t = true) ∧
        (d.isPoisoned t = false →
          (st = .suspected ↔ 2 ≤ recentAgents config (sinceClear t cs) now))) ∧
      ((∃ e, d.allowRetry t = .error e) ↔ d.isPoisoned t = true) ∧
      ∃ d', (new config).runCalls (cs.filter fun c => decide (c.taskId = t)) = some d' ∧
        d'.isPoisoned t = d.isPoisoned t ∧ ∀ now, d'.status t now = d.status t now := by
  have hverdict : ((new config).applyAll cs).isPoisoned t = true ↔
      Condemned config (sinceClear t cs) := (summarises_applyAll hW t hclock).poisoned
  refine ⟨_, runCalls_eq hW hclock hrange, hverdict, fun now hnow => ?_, ?_, ?_⟩
  · obtain ⟨st, hst, hpoisoned, hsuspected⟩ := status_applyAll hW hclock hrange t hnow
    refine ⟨st, hst, hpoisoned.trans hverdict.symm, fun hp => hsuspected fun hcon => ?_⟩
    exact absurd (hverdict.mpr hcon) (by simp [hp])
  · rw [allowRetry]
    split_ifs with hp <;> simp [hp]
  -- the calls on other tasks do not reach the entry of `t`
  · have hentry := entry_applyAll t cs (new config)
    refine ⟨_, runCalls_eq hW (hclock.sublist List.filter_sublist)
      (fun c hc => hrange c (List.mem_of_mem_filter hc)), ?_, fun now => ?_⟩
    · exact congrArg Entry.poisoned hentry.symm
    · rw [status_eq, status_eq, hentry, applyAll_config, applyAll_config]

/-- A detector with the widest window, where one failure is enough. -/
def widest : FaultConfig :=
  { FaultConfig.default with poisonDetectionWindow := chronoMax, poisonAgentThreshold := 1 }

/-- After a clear, failures of the window are no longer suspected; and a window that reaches back
    before the earliest `DateTime` makes the first failure panic. -/
theorem history_not_refined :
    ((new FaultConfig.default).runCalls
        [⟨.recordFailure ⟨1⟩, 7, 0⟩, ⟨.recordFailure ⟨2⟩, 7, 0⟩, ⟨.clear, 7, 0⟩]).map
      (fun d => (d.isPoisoned 7, d.status 7 0)) = some (false, some .healthy) ∧
    recentAgents FaultConfig.default
      [⟨.recordFailure ⟨1⟩, 7, 0⟩, ⟨.recordFailure ⟨2⟩, 7, 0⟩, ⟨.clear, 7, 0⟩] 0 = 2 ∧
    widest.poisonDetectionWindow ≤ chronoMax ∧
    (new widest).runCalls [⟨.recordFailure ⟨1⟩, 7, 0⟩] = none := by
  refine ⟨by decide, by decide, le_refl _, by decide⟩

/-- Three agents within the window poison a task. -/
theorem run_refines_history_three :
    ∃ d, (new FaultConfig.default).runCalls [⟨.recordFailure ⟨1⟩, 7, 0⟩,
        ⟨.recordFailure ⟨2⟩, 7, 5⟩, ⟨.recordFailure ⟨3⟩, 7, 9⟩] = some d ∧
      d.isPoisoned 7 = true := by
  have hearly : ∀ c ∈ ([⟨.recordFailure ⟨1⟩, 7, 0⟩, ⟨.recordFailure ⟨2⟩, 7, 5⟩,
      ⟨.recordFailure ⟨3⟩, 7, 9⟩] : List Call),
      DateTime.minUtc ≤ c.now - FaultConfig.default.poisonDetectionWindow := by decide
  obtain ⟨d, hd, hp, -⟩ :=
    run_refines_history (by decide) (by decide) (fun c hc _ => hearly c hc) 7
  refine ⟨d, hd, hp.mpr (Or.inr ⟨⟨⟨3⟩, 9⟩, by decide, by decide⟩)⟩

end PoisonDetector
end ATP
