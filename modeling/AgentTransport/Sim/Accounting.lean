import AgentTransport.Lib.Loops
import AgentTransport.Sim.Harness

/-! The accounts of a benchmark. Seen through its counters, each task of a run is one entry in a
    tally:

        run     s ──task──▶ s'       with the attempts made on the way
                │           │
              tally       tally
                ▼           ▼
                t ─settle──▶ t'      completed, with one latency and one quality, or failed

    and where a scenario recovers, a task that ends as failed leaves a failed attempt of every
    capable agent behind. -/

namespace ATP
open F64 Collections Loops

/-- How a task is settled. -/
inductive Settlement (F : Type) where
  | completed (latency : Duration) (quality : F)
  | failed

/-- The counters of a run and its samples. -/
structure Tally (F : Type) where
  completed : ℕ
  failed : ℕ
  latencies : List Duration
  qualities : List F

namespace Tally
variable {F : Type}

def empty : Tally F := ⟨0, 0, [], []⟩

def settle (t : Tally F) : Settlement F → Tally F
  | .completed latency quality =>
    ⟨t.completed + 1, t.failed, t.latencies ++ [latency], t.qualities ++ [quality]⟩
  | .failed => { t with failed := t.failed + 1 }

/-- The accounts after `n` tasks. -/
structure Balanced (t : Tally F) (n : ℕ) : Prop where
  tasks : t.completed + t.failed = n
  latencies : t.latencies.length = t.completed
  qualities : t.qualities.length = t.completed

theorem balanced_empty : (empty : Tally F).Balanced 0 := ⟨rfl, rfl, rfl⟩

theorem Balanced.settle {t : Tally F} {n : ℕ} (h : t.Balanced n) :
    ∀ e : Settlement F, (t.settle e).Balanced (n + 1)
  | .completed latency quality => by
    refine ⟨?_, ?_, ?_⟩
    · have := h.tasks
      simp only [Tally.settle]
      omega
    · rw [Tally.settle, List.length_append, h.latencies, List.length_singleton]
    · rw [Tally.settle, List.length_append, h.qualities, List.length_singleton]
  | .failed => ⟨by rw [Tally.settle, ← Nat.add_assoc, h.tasks], h.latencies, h.qualities⟩

end Tally

variable {F R : Type}

/-- The tally of a run. -/
def RunState.tally (s : RunState F R) : Tally F := ⟨s.completed, s.failed, s.latencies, s.qualities⟩

/-- The results hold a failed attempt of the agent at the task. -/
def FailedAttempt (task : SimTask F) (a : SimulatedAgent F) (made : List (SimulatedTaskResult F)) :
    Prop :=
  ∃ r ∈ made, r.agentId = a.id ∧ r.taskType = task.taskType ∧ r.success = false

/-- Every capable agent made a failed attempt, in a scenario that recovers. -/
def Exhausted (scenario : Scenario) (task : SimTask F) (capable : List (SimulatedAgent F))
    (made : List (SimulatedTaskResult F)) : Prop :=
  scenario.recovers = true → ∀ a ∈ capable, FailedAttempt task a made

/-- From `s` to `s'` the attempts `made` were made and no task was settled. -/
structure Attempted (made : List (SimulatedTaskResult F)) (s s' : RunState F R) : Prop where
  tally : s'.tally = s.tally
  attempts : s'.attempts = s.attempts ++ made

/-- From `s` to `s'` one task was settled, as failed only after attempts that allow it. -/
def Settles (mayFail : List (SimulatedTaskResult F) → Prop) (s s' : RunState F R) : Prop :=
  ∃ e made, s'.tally = s.tally.settle e ∧ s'.attempts = s.attempts ++ made ∧
    (e = .failed → mayFail made)

section Settling
variable {task : SimTask F} {a : SimulatedAgent F} {capable : List (SimulatedAgent F)}
  {made more : List (SimulatedTaskResult F)} {s s₁ s' : RunState F R}
  {P Q : List (SimulatedTaskResult F) → Prop}

theorem FailedAttempt.after (h : FailedAttempt task a more) :
    FailedAttempt task a (made ++ more) := by
  obtain ⟨r, hr, hfailed⟩ := h
  exact ⟨r, List.mem_append_right _ hr, hfailed⟩

theorem Exhausted.after {scenario : Scenario} (h : Exhausted scenario task capable more) :
    Exhausted scenario task capable (made ++ more) :=
  fun hrecovers a ha => (h hrecovers a ha).after

theorem Attempted.trans (h : Attempted made s s₁) (h' : Attempted more s₁ s') :
    Attempted (made ++ more) s s' :=
  ⟨h'.tally.trans h.tally, by rw [h'.attempts, h.attempts, List.append_assoc]⟩

/-- A task that is completed is settled, whatever would have allowed it to fail. -/
theorem Attempted.settles (h : Attempted made s s₁) {latency : Duration} {quality : F}
    (htally : s'.tally = s₁.tally.settle (.completed latency quality))
    (hattempts : s'.attempts = s₁.attempts) : Settles Q s s' := by
  refine ⟨.completed latency quality, made, ?_, hattempts.trans h.attempts, fun he => nomatch he⟩
  rw [htally, h.tally]

/-- A task that is failed is settled when that is allowed without an attempt. -/
theorem settles_fail (htally : s'.tally = s.tally.settle .failed)
    (hattempts : s'.attempts = s.attempts) (h : Q []) : Settles Q s s' :=
  ⟨.failed, [], htally, by rw [hattempts, List.append_nil], fun _ => h⟩

theorem Settles.mono (h : Settles P s s') (hPQ : ∀ made, P made → Q made) : Settles Q s s' := by
  obtain ⟨e, made, htally, hattempts, hfail⟩ := h
  exact ⟨e, made, htally, hattempts, fun he => hPQ made (hfail he)⟩

/-- A task is settled after what was attempted before. -/
theorem Settles.after (h : Settles P s₁ s') (hmade : Attempted made s s₁)
    (hPQ : ∀ more, P more → Q (made ++ more)) : Settles Q s s' := by
  obtain ⟨e, more, htally, hattempts, hfail⟩ := h
  refine ⟨e, made ++ more, ?_, ?_, fun he => hPQ more (hfail he)⟩
  · rw [htally, hmade.tally]
  · rw [hattempts, hmade.attempts, List.append_assoc]

end Settling

variable [F64 F] {ext : SimExternal F R}

section Selecting
variable {task : SimTask F} {capable : List (SimulatedAgent F)}

/-- Of numbers there is a least one. -/
theorem minBy_mem [OrderedF64 F] {α : Type} {key : α → F} : ∀ {l : List α}, l ≠ [] →
    (∀ a ∈ l, IsNum (key a)) → ∃ a ∈ l, minBy key l = some a
  | [], h, _ => absurd rfl h
  | a :: l, _, hkey => by
    have hstep : ∀ best, ∀ b ∈ l, best ∈ a :: l →
        ∃ b', lesserBy key best b = some b' ∧ b' ∈ a :: l := by
      intro best b hb hbest
      have hnum := OrderedF64.le_total _ _ (hkey best hbest) (hkey b (List.mem_cons_of_mem a hb))
      have hcmp : ∃ o, partialCmp (key best) (key b) = some o := by
        rw [partialCmp]
        by_cases hle : key best ≤ key b
        · exact ⟨_, if_pos hle⟩
        · rw [if_neg hle, if_pos (hnum.resolve_left hle)]
          exact ⟨_, rfl⟩
      obtain ⟨o, ho⟩ := hcmp
      simp only [lesserBy, ho, Option.map_some]
      refine ⟨_, rfl, ?_⟩
      split
      · exact List.mem_cons_of_mem a hb
      · exact hbest
    obtain ⟨b, hb, hmem⟩ := foldlM_invariant hstep List.mem_cons_self
    exact ⟨b, hmem, hb⟩

theorem cheapestAgent_mem [OrderedF64 F] (hcap : ∀ a ∈ capable, a.Capable ext task.taskType)
    (hne : capable ≠ []) : ∃ a ∈ capable, cheapestAgent capable task = some a := by
  refine minBy_mem hne fun a ha => ?_
  obtain ⟨c, hc⟩ := (hcap a ha).capability
  rw [hc]
  exact ((hcap a ha).of_getCapability hc).cost

theorem mem_of_mem_candidates {isComplex : Bool} {a : SimulatedAgent F}
    (h : a ∈ candidates capable task isComplex) : a ∈ capable := by
  rw [candidates] at h
  split at h
  · exact h
  · exact List.mem_of_mem_filter h

theorem candidates_ne_nil (hne : capable ≠ []) (isComplex : Bool) :
    candidates capable task isComplex ≠ [] := by
  rw [candidates]
  split
  · exact hne
  · rename_i hsome
    exact fun hnil => hsome (List.isEmpty_iff.mpr hnil)

theorem selectBestAgent_mem (hcap : ∀ a ∈ capable, a.Capable ext task.taskType)
    (hne : capable ≠ []) (trustScores : TrustScores F) (isComplex : Bool) :
    ∃ a ∈ capable, selectBestAgent ext capable task trustScores isComplex = some a := by
  rw [selectBestAgent]
  cases hl : candidates capable task isComplex with
  | nil => exact absurd hl (candidates_ne_nil hne isComplex)
  | cons first rest =>
    have hmem : ∀ a ∈ first :: rest, a ∈ capable := fun a ha => mem_of_mem_candidates (hl ▸ ha)
    have hstep : ∀ best, ∀ a ∈ first :: rest, best.2 ∈ capable →
        ∃ b, improveBest ext task trustScores isComplex best a = some b ∧ b.2 ∈ capable := by
      intro best a ha hin
      obtain ⟨c, hc⟩ := (hcap a (hmem a ha)).capability
      simp only [improveBest, hc, Option.map_some]
      refine ⟨_, rfl, ?_⟩
      split
      · exact hmem a ha
      · exact hin
    obtain ⟨best, hbest, hin⟩ := foldlM_invariant (s := (none, first)) hstep
      (hmem first List.mem_cons_self)
    exact ⟨best.2, hin, by simp only [hbest, Option.map_some]⟩

/-- Some capable agent is selected, and nothing is attempted. -/
theorem selectAgent_spec [OrderedF64 F] (hcap : ∀ a ∈ capable, a.Capable ext task.taskType)
    (hne : capable ≠ []) (scenario : Scenario) (isComplex : Bool) (s : RunState F R) :
    ∃ a ∈ capable, ∃ s', selectAgent ext capable task scenario isComplex s = some (a, s') ∧
      Attempted [] s s' := by
  have hpos : 0 < capable.length := List.length_pos_iff.mpr hne
  have hget : ∀ i < capable.length, ∃ a ∈ capable, capable[i]? = some a := fun i hi =>
    ⟨_, List.getElem_mem hi, List.getElem?_eq_getElem hi⟩
  have hidle : ∀ s' : RunState F R, s'.tally = s.tally → s'.attempts = s.attempts →
      Attempted [] s s' := fun s' htally hattempts => ⟨htally, by rw [hattempts, List.append_nil]⟩
  cases scenario with
  | sequential =>
    obtain ⟨a, ha, h⟩ := hget 0 hpos
    exact ⟨a, ha, s, by rw [selectAgent, h]; rfl, hidle s rfl rfl⟩
  -- the counter of the task type, taken modulo the number of capable agents
  | roundRobin =>
    obtain ⟨a, ha, h⟩ := hget _ (Nat.mod_lt ((s.rrCounters.lookup task.taskType).getD 0) hpos)
    rw [selectAgent, h]
    exact ⟨a, ha, _, rfl, hidle _ rfl rfl⟩
  | fullAtp | atpNoContext | atpNoFault =>
    obtain ⟨a, ha, h⟩ := selectBestAgent_mem hcap hne s.trustScores isComplex
    exact ⟨a, ha, s, by rw [selectAgent, h]; rfl, hidle s rfl rfl⟩
  | atpNoRouting =>
    obtain ⟨a, ha, h⟩ := hget _ (ext.genRange_lt capable.length s.rng hpos)
    simp only [selectAgent, h, Option.map_some]
    exact ⟨a, ha, _, rfl, hidle _ rfl rfl⟩
  | atpNoTrust =>
    obtain ⟨a, ha, h⟩ := cheapestAgent_mem hcap hne
    exact ⟨a, ha, s, by rw [selectAgent, selectCheapestAgent, h]; rfl, hidle s rfl rfl⟩

end Selecting

section Settled
variable {scenario : Scenario} {task : SimTask F} {capable : List (SimulatedAgent F)}
  {contextSize : UInt64}

theorem execute_spec {a : SimulatedAgent F} (h : a.Capable ext task.taskType) (s : RunState F R) :
    ∃ r s', s.execute ext a task = some (r, s') ∧ r.agentId = a.id ∧ r.taskType = task.taskType ∧
      Attempted [r] s s' := by
  obtain ⟨r, rng, hr, hid, htype⟩ := h.executeTask s.rng
  simp only [RunState.execute, hr, Option.map_some]
  exact ⟨r, _, rfl, hid, htype, rfl, rfl⟩

/-- Retries settle the task, as failed only when all of them failed. By induction on the agents
    left. -/
theorem retryBackups_spec (failedAgent : SimulatedAgent F) (original : SimulatedTaskResult F) :
    ∀ {backups : List (SimulatedAgent F)}, (∀ a ∈ backups, a.Capable ext task.taskType) →
    ∀ s : RunState F R, ∃ s',
      retryBackups ext scenario task contextSize failedAgent original backups s = some s' ∧
        Settles (fun made => ∀ a ∈ backups, a.id ≠ failedAgent.id → FailedAttempt task a made) s s'
  | [], _, s => ⟨s.fail, rfl, settles_fail rfl rfl fun _ ha => nomatch ha⟩
  | backup :: backups, hcap, s => by
    obtain ⟨hbackup, hcap⟩ := List.forall_mem_cons.mp hcap
    rw [retryBackups]
    by_cases hid : backup.id ≠ failedAgent.id
    · rw [if_pos hid]
      obtain ⟨r, s₁, hr, hagent, htype, hmade⟩ := execute_spec hbackup s
      have hmade : Attempted [r] s (s₁.addRecoveryTime ext) := ⟨hmade.tally, hmade.attempts⟩
      simp only [hr, Option.bind_eq_bind, Option.bind_some]
      by_cases hsuccess : r.success
      · rw [if_pos hsuccess]
        exact ⟨_, rfl, hmade.settles rfl rfl⟩
      · rw [if_neg hsuccess]
        obtain ⟨s', hs', hsettles⟩ :=
          retryBackups_spec failedAgent original hcap (s₁.addRecoveryTime ext)
        -- the failed attempt of `backup` goes in front of those of the agents left
        refine ⟨s', hs', hsettles.after hmade fun more hmore => ?_⟩
        refine List.forall_mem_cons.mpr ⟨fun _ => ?_, fun a ha hne => (hmore a ha hne).after⟩
        exact ⟨r, List.mem_cons_self, hagent, htype, eq_false_of_ne_true hsuccess⟩
    -- the agent that failed is skipped: nothing is promised for it
    · rw [if_neg hid]
      obtain ⟨s', hs', hsettles⟩ := retryBackups_spec failedAgent original hcap s
      exact ⟨s', hs', hsettles.mono fun made hmade =>
        List.forall_mem_cons.mpr ⟨fun hne => absurd hne hid, hmade⟩⟩

/-- Recovery from the failed attempt of an agent settles the task. -/
theorem handleFaultRecovery_spec (hcap : ∀ a ∈ capable, a.Capable ext task.taskType)
    (failedAgent : SimulatedAgent F) (original : SimulatedTaskResult F) (s : RunState F R) :
    ∃ s', handleFaultRecovery ext scenario task contextSize capable failedAgent original s =
        some s' ∧
      Settles (fun made => scenario.recovers = true →
        ∀ a ∈ capable, a.id ≠ failedAgent.id → FailedAttempt task a made) s s' := by
  rw [handleFaultRecovery]
  by_cases hrecovers : scenario.recovers = true
  · rw [if_pos hrecovers]
    obtain ⟨s', hs', hsettles⟩ := retryBackups_spec failedAgent original hcap s
    exact ⟨s', hs', hsettles.mono fun _ h _ => h⟩
  · rw [if_neg hrecovers]
    exact ⟨_, rfl, settles_fail rfl rfl fun h => absurd h hrecovers⟩

theorem runDirect_spec (hcap : ∀ a ∈ capable, a.Capable ext task.taskType)
    {agent : SimulatedAgent F} (hagent : agent ∈ capable) (s : RunState F R) :
    ∃ s', runDirect ext scenario task contextSize capable agent s = some s' ∧
      Settles (Exhausted scenario task capable) s s' := by
  obtain ⟨r, s₁, hr, hid, htype, hmade⟩ := execute_spec (hcap agent hagent) s
  simp only [runDirect, hr, Option.bind_eq_bind, Option.bind_some]
  by_cases hsuccess : r.success
  · rw [if_pos hsuccess]
    exact ⟨_, rfl, hmade.settles rfl rfl⟩
  · rw [if_neg hsuccess]
    obtain ⟨s', hs', hsettles⟩ := handleFaultRecovery_spec hcap agent r s₁
    refine ⟨s', hs', hsettles.after hmade fun more hmore hrecovers a ha => ?_⟩
    by_cases hsame : a.id = agent.id
    · exact ⟨r, List.mem_cons_self, hid.trans hsame.symm, htype, eq_false_of_ne_true hsuccess⟩
    · exact (hmore hrecovers a ha hsame).after

theorem runDraftRefine_spec [OrderedF64 F] (hcap : ∀ a ∈ capable, a.Capable ext task.taskType)
    {agent : SimulatedAgent F} (hagent : agent ∈ capable) (s : RunState F R) :
    ∃ s', runDraftRefine ext scenario task contextSize capable agent s = some s' ∧
      Settles (Exhausted scenario task capable) s s' := by
  obtain ⟨drafter, hdrafter, hdraft⟩ := cheapestAgent_mem hcap (List.ne_nil_of_mem hagent)
  obtain ⟨draft, s₁, hr₁, -, -, hmade₁⟩ := execute_spec (hcap drafter hdrafter) s
  simp only [runDraftRefine, findDraftAgent, hdraft, hr₁, Option.bind_eq_bind, Option.bind_some]
  by_cases hsuccess : draft.success
  · rw [if_pos hsuccess]
    obtain ⟨refined, s₂, hr₂, -, -, hmade₂⟩ := execute_spec (hcap agent hagent) s₁
    simp only [hr₂, Option.bind_some]
    split
    · exact ⟨_, rfl, (hmade₁.trans hmade₂).settles rfl rfl⟩
    · exact ⟨_, rfl, (hmade₁.trans hmade₂).settles rfl rfl⟩
  · rw [if_neg hsuccess]
    obtain ⟨s', hs', hsettles⟩ := runDirect_spec hcap hagent s₁
    exact ⟨s', hs', hsettles.after hmade₁ fun _ h => h.after⟩

end Settled

namespace SimHarness
variable {h : SimHarness F} (scenario : Scenario)

/-- Every task is settled, as failed only when the capable agents are exhausted. -/
theorem runTask_spec [OrderedF64 F] (hnet : h.network.WellFormed ext) (task : SimTask F)
    (s : RunState F R) : ∃ s', h.runTask ext scenario s task = some s' ∧
      Settles (Exhausted scenario task (h.network.capableAgents task.taskType)) s s' := by
  have hcap : ∀ a ∈ h.network.capableAgents task.taskType, a.Capable ext task.taskType :=
    fun a ha => hnet.capable ha
  rw [runTask]
  generalize h.network.capableAgents task.taskType = capable at hcap
  by_cases hnil : capable = []
  · subst hnil
    exact ⟨s.fail, rfl, settles_fail rfl rfl fun _ a ha => nomatch ha⟩
  · rw [if_neg (mt List.isEmpty_iff.mp hnil)]
    obtain ⟨agent, hagent, s₁, hselect, hmade⟩ := selectAgent_spec hcap hnil scenario
      (scenario.seesComplexity && isComplexTask task.taskType) s
    obtain ⟨c, hc⟩ := (hcap agent hagent).capability
    let s₂ := ((s₁.addRoutingTime ext).sendContext scenario task).2
    have hmade : Attempted [] s s₂ := ⟨hmade.tally, hmade.attempts⟩
    -- the agent was selected as capable, so looking its capability up does not panic
    have hdraft : ∃ b, useDraftRefine task
        (scenario.seesComplexity && isComplexTask task.taskType) agent = some b := by
      rw [useDraftRefine, hc]
      split <;> exact ⟨_, rfl⟩
    obtain ⟨b, hb⟩ := hdraft
    simp only [hselect, hb, Option.bind_eq_bind, Option.bind_some]
    cases b with
    | true =>
      obtain ⟨s', hs', hsettles⟩ := runDraftRefine_spec hcap hagent s₂
      exact ⟨s', hs', hsettles.after hmade fun _ h => h⟩
    | false =>
      obtain ⟨s', hs', hsettles⟩ := runDirect_spec hcap hagent s₂
      exact ⟨s', hs', hsettles.after hmade fun _ h => h⟩

theorem runTasks_append_singleton (tasks : List (SimTask F)) (task : SimTask F) :
    h.runTasks ext scenario (tasks ++ [task]) =
      (h.runTasks ext scenario tasks).bind fun s => h.runTask ext scenario s task := by
  rw [runTasks, List.foldlM_append, ← runTasks]
  simp only [List.foldlM_cons, List.foldlM_nil, Option.bind_eq_bind, Option.pure_def,
    Option.bind_fun_some]

/-- A run settles as many tasks as it is given. By induction on the last task. -/
theorem runTasks_spec [OrderedF64 F] (hnet : h.network.WellFormed ext)
    (tasks : List (SimTask F)) : ∃ s, h.runTasks ext scenario tasks = some s ∧
      s.tally.Balanced tasks.length := by
  induction tasks using List.reverseRecOn with
  | nil => exact ⟨_, rfl, Tally.balanced_empty⟩
  | append_singleton tasks task ih =>
    obtain ⟨s, hs, hbalanced⟩ := ih
    obtain ⟨s', hs', e, made, htally, -⟩ := runTask_spec scenario hnet task s
    refine ⟨s', ?_, ?_⟩
    · rw [runTasks_append_singleton, hs, Option.bind_some, hs']
    · rw [htally, List.length_append]
      exact hbalanced.settle e

/-- The accounts of a benchmark: every task is counted once, a completed one with one latency and
    one quality, and where the scenario recovers, a failed one only when every capable agent
    failed. -/
structure Accounted (ext : SimExternal F R) (h : SimHarness F) (scenario : Scenario)
    (tasks : List (SimTask F)) (s : RunState F R) (m : BenchMetrics F) : Prop where
  run : h.runTasks ext scenario tasks = some s
  metrics : h.runScenario ext scenario tasks = some m
  counted : m.tasksCompleted + m.tasksFailed = tasks.length
  latencies : s.latencies.length = m.tasksCompleted
  qualities : s.qualities.length = m.tasksCompleted
  failures : ∀ pre task post, tasks = pre ++ task :: post → ∃ s₁ s₂,
    h.runTasks ext scenario pre = some s₁ ∧ h.runTasks ext scenario (pre ++ [task]) = some s₂ ∧
      (s₁.failed < s₂.failed → ∃ made, s₂.attempts = s₁.attempts ++ made ∧
        Exhausted scenario task (h.network.capableAgents task.taskType) made)

/-- Every benchmark is accounted for. -/
theorem benchmark_accounted [OrderedF64 F] (hnet : h.network.WellFormed ext)
    (tasks : List (SimTask F)) : ∃ s m, Accounted ext h scenario tasks s m := by
  obtain ⟨s, hs, hbalanced⟩ := runTasks_spec scenario hnet tasks
  refine ⟨s, metrics scenario tasks s, hs, ?_, hbalanced.tasks, hbalanced.latencies,
    hbalanced.qualities, ?_⟩
  · rw [runScenario, hs, Option.map_some]
  · rintro pre task post rfl
    obtain ⟨s₁, hs₁, -⟩ := runTasks_spec scenario hnet pre
    obtain ⟨s₂, hs₂, e, made, htally, hattempts, hfail⟩ := runTask_spec scenario hnet task s₁
    refine ⟨s₁, s₂, hs₁, ?_, fun hcount => ⟨made, hattempts, hfail ?_⟩⟩
    · rw [runTasks_append_singleton, hs₁, Option.bind_some, hs₂]
    · cases e with
      | failed => rfl
      | completed latency quality =>
        have hsame : s₂.failed = s₁.failed := congrArg Tally.failed htally
        omega

/-- A cheap agent and a specialist, which fail at the first task one after the other. -/
theorem benchmark_accounted_specialist : ∃ s m, Accounted (.sample (.replicate 3 (1 / 100)))
    ⟨⟨[⟨⟨1⟩, [⟨.codeGeneration, 65 / 100, 1 / 10, 1, 3 / 10, 1 / 100⟩], 2 / 100⟩,
      ⟨⟨2⟩, [⟨.codeGeneration, 93 / 100, 4 / 100, 1, 3 / 10, 8 / 100⟩], 15 / 1000⟩]⟩, 42⟩
    .fullAtp (.replicate 2 ⟨.codeGeneration, 50000, ⟨8 / 10, Duration.secs 5, 1 / 10, 6 / 10⟩⟩)
    s m := by
  refine benchmark_accounted _ (fun a ha c hc => ?_) _
  rcases List.mem_pair.mp ha with rfl | rfl <;> obtain rfl := List.mem_singleton.mp hc <;>
    exact ⟨rfl, rfl, le_refl _⟩

end SimHarness

end ATP
