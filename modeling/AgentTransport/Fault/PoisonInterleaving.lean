import AgentTransport.Fault.PoisonRuns
import AgentTransport.Lib.Interleaving

/-! Concurrent calls of the poison detector.

    Each of the two maps has its own lock, and a call takes one lock at a time: `record_failure`
    looks at the poisoned set, updates the failures and only then poisons the task, and `clear`
    empties the poisoned set before the failures. Between the update of the failures and the insert
    that follows from it, another call for the task can act on what is no longer true. Where that
    does not happen, calls in any interleaving leave what they leave in some order one by one. -/

namespace ATP
namespace PoisonDetector
open Collections Interleaving

/-! ### Sections -/

/-- The next lock-guarded section of a call. The window of a `record_failure` is taken to begin at a
    `DateTime`; where it does not, the call panics. -/
def nextSection (c : Call) (ph : Phase) (d : PoisonDetector) : Phase × PoisonDetector :=
  match ph with
  | .waiting =>
    match c.op with
    | .recordFailure _ => if c.taskId ∈ d.poisoned then (.finished, d) else (.opened, d)
    | .forcePoison => (.finished, d.forcePoison c.taskId)
    | .clear => (.opened, { d with poisoned := d.poisoned.erase c.taskId })
    | _ => (.finished, d)
  | .opened =>
    match c.op with
    | .recordFailure a =>
      let records := (d.entry c.taskId).pruned d.config a c.now
      (if reaches d.config records then .pending else .finished,
        { d with failures := d.failures.insert c.taskId records })
    | .clear => (.finished, { d with failures := d.failures.erase c.taskId })
    | _ => (.finished, d)
  | .pending =>
    match c.op with
    | .recordFailure _ => (.finished, { d with poisoned := insert c.taskId d.poisoned })
    | _ => (.finished, d)
  | .finished => (.finished, d)

/-- A call that runs alone does what the call does. -/
theorem alone_eq_apply (d : PoisonDetector) (c : Call) :
    Pool.run nextSection (Pool.start [c] d) [0, 0, 0] = ⟨[⟨c, .finished⟩], d.apply c⟩ := by
  obtain ⟨op, t, now⟩ := c
  cases op with
  | recordFailure a =>
    by_cases hp : t ∈ d.poisoned
    · simp [Pool.run, Pool.start, Pool.step, nextSection, apply, recordFailure, hp]
    · have happly : d.apply ⟨.recordFailure a, t, now⟩ = _ := recordFailure_eq hp a now
      rw [happly]
      cases hn : reaches d.config ((d.entry t).pruned d.config a now) <;>
        simp [Pool.run, Pool.start, Pool.step, nextSection, hp, hn]
  | _ => simp [Pool.run, Pool.start, Pool.step, nextSection, apply, forcePoison, clear]

/-- The next section of a call, on the entry of its task. -/
def Entry.nextSection (c : Call) (ph : Phase) (x : FaultConfig × Entry) :
    Phase × FaultConfig × Entry :=
  let (config, e) := x
  match ph with
  | .waiting =>
    match c.op with
    | .recordFailure _ => (if e.poisoned then .finished else .opened, config, e)
    | .forcePoison => (.finished, config, ⟨e.records, true⟩)
    | .clear => (.opened, config, ⟨e.records, false⟩)
    | _ => (.finished, config, e)
  | .opened =>
    match c.op with
    | .recordFailure a =>
      (if reaches config (e.pruned config a c.now) then .pending else .finished,
        config, ⟨some (e.pruned config a c.now), e.poisoned⟩)
    | .clear => (.finished, config, ⟨none, e.poisoned⟩)
    | _ => (.finished, config, e)
  | .pending =>
    match c.op with
    | .recordFailure _ => (.finished, config, ⟨e.records, true⟩)
    | _ => (.finished, config, e)
  | .finished => (.finished, config, e)

def view (d : PoisonDetector) (t : Uuid) : FaultConfig × Entry := (d.config, d.entry t)

theorem entry_insert (d : PoisonDetector) (t t' : Uuid) :
    ({ d with poisoned := insert t d.poisoned } : PoisonDetector).entry t' =
      if t' = t then ⟨(d.entry t').records, true⟩ else d.entry t' := by
  rcases eq_or_ne t' t with rfl | h
  · simp [entry]
  · rw [if_neg h]; simp [entry, h]

theorem entry_erase (d : PoisonDetector) (t t' : Uuid) :
    ({ d with poisoned := d.poisoned.erase t } : PoisonDetector).entry t' =
      if t' = t then ⟨(d.entry t').records, false⟩ else d.entry t' := by
  rcases eq_or_ne t' t with rfl | h
  · simp [entry]
  · rw [if_neg h]; simp [entry, h]

theorem entry_failures (d : PoisonDetector) (failures : HashMap Uuid (List FailureRecord))
    (t : Uuid) : ({ d with failures := failures } : PoisonDetector).entry t =
      ⟨failures.lookup t, (d.entry t).poisoned⟩ := rfl

theorem nextSection_local : Local Call.taskId nextSection view Entry.nextSection where
  phase := by
    rintro ⟨op, t, now⟩ ph d
    cases ph <;> cases op <;> try rfl
    by_cases hp : t ∈ d.poisoned <;> simp [nextSection, Entry.nextSection, view, entry, hp]
  self := by
    rintro ⟨op, t, now⟩ ph d
    cases ph <;> cases op <;> try rfl
    · by_cases hp : t ∈ d.poisoned <;> simp [nextSection, Entry.nextSection, view, entry, hp]
    · simp [nextSection, Entry.nextSection, view, forcePoison, entry_insert]
    · simp [nextSection, Entry.nextSection, view, entry_erase]
    · simp [nextSection, Entry.nextSection, view, entry_failures]
    · simp [nextSection, Entry.nextSection, view, entry_failures]
    · simp [nextSection, Entry.nextSection, view, entry_insert]
  other := by
    rintro ⟨op, t, now⟩ ph d t' ht
    replace ht : t' ≠ t := ht
    cases ph <;> cases op <;> try rfl
    · by_cases hp : t ∈ d.poisoned <;> simp [nextSection, hp]
    · simp [nextSection, view, forcePoison, entry_insert, ht]
    · simp [nextSection, view, entry_erase, ht]
    · simp [nextSection, view, entry_failures, AList.lookup_insert_ne ht]; rfl
    · simp [nextSection, view, entry_failures, AList.lookup_erase_ne ht]; rfl
    · simp [nextSection, view, entry_insert, ht]

/-! ### Linearization

    A call for a task takes its place in the order when it acts: `record_failure` when it updates
    the failures, or finds the task poisoned, and `clear` when it empties the failures. Only
    `force_poison` may have to wait: a `record_failure` that looked before it was forced and acts
    after it comes first. -/

/-- The calls that have acted. -/
def acted (threads : List (Thread Call)) : List Call :=
  (threads.filter fun th => th.phase.acted).map Thread.call

/-- Some call is in this phase. -/
def Some (ph : Phase) (threads : List (Thread Call)) : Prop := ∃ th ∈ threads, th.phase = ph

/-- Some clear has emptied the poisoned set and not yet the failures. -/
def Clearing (threads : List (Thread Call)) : Prop :=
  ∃ th ∈ threads, th.phase = .opened ∧ th.call.op = .clear

theorem acted_cons (c : Call) (ph : Phase) (rest : List (Thread Call)) :
    acted (⟨c, ph⟩ :: rest) = if ph.acted then c :: acted rest else acted rest := by
  cases ph <;> simp [acted, Phase.acted]

theorem some_cons {ph ph' : Phase} {c : Call} {rest : List (Thread Call)} :
    Some ph' (⟨c, ph⟩ :: rest) ↔ ph = ph' ∨ Some ph' rest := by simp [Some]

theorem clearing_cons {ph : Phase} {c : Call} {rest : List (Thread Call)} :
    Clearing (⟨c, ph⟩ :: rest) ↔ (ph = .opened ∧ c.op = .clear) ∨ Clearing rest := by
  simp [Clearing]

/-- Only `record_failure` and `clear` have sections after the first, and only the former publishes.
    -/
def PhaseOk (th : Thread Call) : Prop :=
  (th.phase = .opened → (∃ a, th.call.op = .recordFailure a) ∨ th.call.op = .clear) ∧
    (th.phase = .pending → ∃ a, th.call.op = .recordFailure a)

theorem PhaseOk.plain {c : Call} {ph : Phase} (ho : ph ≠ .opened) (hp : ph ≠ .pending) :
    PhaseOk ⟨c, ph⟩ := ⟨fun h => absurd h ho, fun h => absurd h hp⟩

/-- The calls that have acted, in an order that explains the entry: `base` ends with the task not
    poisoned or poisoned by a failure, and `tail` is a `force_poison` with the calls that found the
    task poisoned by it. -/
structure Linearized (config : FaultConfig) (e₀ : Entry) (threads : List (Thread Call)) (e : Entry)
    (base tail : List Call) (reached : Bool) : Prop where
  order : (base ++ tail).Perm (acted threads)
  effect : base.foldl (Call.onEntry config) e₀ = ⟨e.records, reached⟩
  forced : ∀ c cs, tail = c :: cs → c.op = .forcePoison
  after : ∀ c ∈ tail, c.op ≠ .clear
  verdict : (e.poisoned = true ∨ Some .pending threads) ↔ (reached = true ∨ tail ≠ [])
  free : Some .opened threads → ¬ Some .pending threads → reached = false

/-- While a clear is under way only a `force_poison` can have poisoned the task; otherwise the calls
    that have acted explain the entry. -/
structure TaskInv (config : FaultConfig) (e₀ : Entry) (threads : List (Thread Call))
    (x : FaultConfig × Entry) : Prop where
  same : x.1 = config
  phases : ∀ th ∈ threads, PhaseOk th
  clearing : Clearing threads → x.2.poisoned = true → ∃ c ∈ acted threads, c.op = .forcePoison
  linearized : ¬ Clearing threads → ∃ base tail reached,
    Linearized config e₀ threads x.2 base tail reached

theorem TaskInv.perm {config : FaultConfig} {e₀ : Entry} {l l' : List (Thread Call)}
    {x : FaultConfig × Entry} (hl : l.Perm l') (h : TaskInv config e₀ l x) :
    TaskInv config e₀ l' x := by
  have hacted : (acted l).Perm (acted l') := (hl.filter _).map _
  have hsome : ∀ ph, Some ph l ↔ Some ph l' := fun ph => by simp [Some, hl.mem_iff]
  have hclear : Clearing l ↔ Clearing l' := by simp [Clearing, hl.mem_iff]
  refine ⟨h.same, fun th hth => h.phases th (hl.mem_iff.mpr hth), fun hc hp => ?_, fun hc => ?_⟩
  · obtain ⟨c, hmem, hf⟩ := h.clearing (hclear.mpr hc) hp
    exact ⟨c, hacted.mem_iff.mp hmem, hf⟩
  · obtain ⟨base, tail, reached, hlin⟩ := h.linearized (fun h => hc (hclear.mp h))
    refine ⟨base, tail, reached, hlin.order.trans hacted, hlin.effect, hlin.forced, hlin.after,
      ?_, ?_⟩
    · rw [← hsome]; exact hlin.verdict
    · rw [← hsome, ← hsome]; exact hlin.free

/-- A poisoned task stays poisoned, with the same records, until it is cleared. -/
theorem onEntry_of_poisoned {config : FaultConfig} {c : Call} {rs : Option (List FailureRecord)}
    (hc : c.op ≠ .clear) : c.onEntry config ⟨rs, true⟩ = ⟨rs, true⟩ := by
  obtain ⟨op, t, now⟩ := c
  cases op <;> simp_all [Call.onEntry]

theorem foldl_of_poisoned {config : FaultConfig} {rs : Option (List FailureRecord)} :
    ∀ {cs : List Call}, (∀ c ∈ cs, c.op ≠ .clear) →
      cs.foldl (Call.onEntry config) ⟨rs, true⟩ = ⟨rs, true⟩
  | [], _ => rfl
  | c :: cs, h => by
    rw [List.foldl_cons, onEntry_of_poisoned (h c (by simp))]
    exact foldl_of_poisoned fun c' hc' => h c' (by simp [hc'])

/-- What the calls that have acted do one by one. -/
theorem Linearized.foldl {config : FaultConfig} {e₀ e : Entry} {threads : List (Thread Call)}
    {base tail : List Call} {reached : Bool}
    (h : Linearized config e₀ threads e base tail reached) :
    (base ++ tail).foldl (Call.onEntry config) e₀ = ⟨e.records, reached || !tail.isEmpty⟩ := by
  rw [List.foldl_append, h.effect]
  cases htail : tail with
  | nil => simp
  | cons c cs =>
    have hforce : c.onEntry config ⟨e.records, reached⟩ = ⟨e.records, true⟩ := by
      rw [Call.onEntry, h.forced c cs htail]
    have hcs : ∀ c' ∈ cs, c'.op ≠ .clear := fun c' hc' => h.after c' (by simp [htail, hc'])
    rw [List.foldl_cons, hforce, foldl_of_poisoned hcs]
    simp

section Step
variable {config : FaultConfig} {e₀ e : Entry} {c : Call} {rest : List (Thread Call)}

/-- The phases of the other threads, and of one that has moved. -/
theorem phases_cons {ph ph' : Phase} {x : FaultConfig × Entry}
    (h : TaskInv config e₀ (⟨c, ph⟩ :: rest) x) (hc : PhaseOk ⟨c, ph'⟩) :
    ∀ th ∈ (⟨c, ph'⟩ :: rest : List (Thread Call)), PhaseOk th :=
  List.forall_mem_cons.mpr ⟨hc, (List.forall_mem_cons.mp h.phases).2⟩

/-- A call that acts at once, and not as a clear: what a clear under way has to know stays true. -/
theorem clearing_of_acted {ph ph' : Phase} (hph : ph.acted = false) (hph' : ph'.acted = true)
    {e' : Entry} (h : TaskInv config e₀ (⟨c, ph⟩ :: rest) (config, e))
    (he : e'.poisoned = true → e.poisoned = true ∨ c.op = .forcePoison)
    (hclear : Clearing (⟨c, ph'⟩ :: rest)) (hp : e'.poisoned = true) :
    ∃ c' ∈ acted (⟨c, ph'⟩ :: rest), c'.op = .forcePoison := by
  have hacted : acted (⟨c, ph'⟩ :: rest) = c :: acted (⟨c, ph⟩ :: rest) := by
    rw [acted_cons, acted_cons, hph, hph']; rfl
  have hclear' : Clearing (⟨c, ph⟩ :: rest) := by
    rw [clearing_cons] at hclear ⊢
    exact Or.inr (hclear.resolve_left fun hopen => by simp [hopen.1, Phase.acted] at hph')
  rw [hacted]
  rcases he hp with hp | hforce
  · obtain ⟨c', hc', hf⟩ := h.clearing hclear' hp
    exact ⟨c', List.mem_cons_of_mem _ hc', hf⟩
  · exact ⟨c, List.mem_cons_self, hforce⟩

section Finish
variable {e' : Entry} {base tail : List Call} {reached : Bool}

/-- Where nothing was forced before, a call that leaves the entry as it is comes last in `base`. -/
theorem Linearized.finish_base
    (h : Linearized config e₀ (⟨c, .waiting⟩ :: rest) e base [] reached)
    (hrecords : e'.records = e.records) (hpoisoned : e'.poisoned = e.poisoned)
    (hsame : c.onEntry config ⟨e.records, reached⟩ = ⟨e.records, reached⟩) :
    Linearized config e₀ (⟨c, .finished⟩ :: rest) e' (base ++ [c]) [] reached := by
  have horder : (base ++ []).Perm (acted rest) := h.order
  have hverdict := h.verdict
  have hfree := h.free
  simp only [some_cons, reduceCtorEq, false_or] at hverdict hfree
  refine ⟨?_, ?_, by simp, by simp, ?_, ?_⟩
  · rw [List.append_nil]
    exact (List.perm_append_singleton c base).trans ((List.append_nil base ▸ horder).cons c)
  · rw [List.foldl_append, h.effect, List.foldl_cons, List.foldl_nil, hrecords, hsame]
  · simpa only [some_cons, reduceCtorEq, false_or, hpoisoned] using hverdict
  · simpa only [some_cons, reduceCtorEq, false_or] using hfree

/-- A `force_poison`, and a call that finds its task poisoned after one, comes last in `tail`. -/
theorem Linearized.finish_tail
    (h : Linearized config e₀ (⟨c, .waiting⟩ :: rest) e base tail reached) (hc : c.op ≠ .clear)
    (hfirst : tail = [] → c.op = .forcePoison) (hrecords : e'.records = e.records)
    (hpoisoned : e'.poisoned = true ∨ Some .pending rest) :
    Linearized config e₀ (⟨c, .finished⟩ :: rest) e' base (tail ++ [c]) reached := by
  have horder : (base ++ tail).Perm (acted rest) := h.order
  have hfree := h.free
  simp only [some_cons, reduceCtorEq, false_or] at hfree
  refine ⟨?_, ?_, ?_, ?_, ?_, ?_⟩
  · rw [← List.append_assoc]
    exact (List.perm_append_singleton c _).trans (horder.cons c)
  · rw [h.effect, hrecords]
  · intro c' cs hcs
    cases tail with
    | nil =>
      rw [← (List.cons.inj hcs).1]
      exact hfirst rfl
    | cons c'' cs' => exact h.forced c' cs' (by rw [← (List.cons.inj hcs).1])
  · intro c' hc'
    rcases List.mem_append.mp hc' with hc' | hc'
    · exact h.after c' hc'
    · rw [List.mem_singleton.mp hc']; exact hc
  · simp only [some_cons, reduceCtorEq, false_or]
    exact iff_of_true hpoisoned (Or.inr (by simp))
  · simpa only [some_cons, reduceCtorEq, false_or] using hfree

end Finish

/-- A call whose first section is its last, and does not change the entry unless it poisons it. -/
theorem TaskInv.finish (h : TaskInv config e₀ (⟨c, .waiting⟩ :: rest) (config, e)) {e' : Entry}
    (hc : c.op ≠ .clear) (hrecords : e'.records = e.records)
    (hforce : c.op = .forcePoison → e'.poisoned = true)
    (hkeep : c.op ≠ .forcePoison → e'.poisoned = e.poisoned ∧
      ∀ b, (e.poisoned = true → b = true) → c.onEntry config ⟨e.records, b⟩ = ⟨e.records, b⟩) :
    TaskInv config e₀ (⟨c, .finished⟩ :: rest) (config, e') := by
  refine ⟨rfl, phases_cons h (.plain (by simp) (by simp)), ?_, fun hclear => ?_⟩
  · refine clearing_of_acted rfl rfl h fun hp => ?_
    by_cases hf : c.op = .forcePoison
    · exact Or.inr hf
    · exact Or.inl ((hkeep hf).1 ▸ hp)
  · rw [clearing_cons] at hclear
    obtain ⟨base, tail, reached, hlin⟩ := h.linearized fun hcl => by
      rw [clearing_cons] at hcl
      exact hclear (Or.inr (hcl.resolve_left (by simp)))
    have hverdict := hlin.verdict
    simp only [some_cons, reduceCtorEq, false_or] at hverdict
    by_cases hf : c.op = .forcePoison
    · exact ⟨_, _, _, hlin.finish_tail hc (fun _ => hf) hrecords (Or.inl (hforce hf))⟩
    · obtain ⟨hp, hsame⟩ := hkeep hf
      rcases eq_or_ne tail ([]) with rfl | htail
      -- nothing has forced the task yet: the call takes effect where it ends
      · refine ⟨_, _, _, hlin.finish_base hrecords hp (hsame reached fun hpe => ?_)⟩
        simpa using hverdict.mp (Or.inl hpe)
      · refine ⟨_, _, _, hlin.finish_tail hc (fun h => absurd h htail) hrecords ?_⟩
        rw [hp]
        exact hverdict.mpr (Or.inr htail)

/-- A `record_failure` finds its task not poisoned. -/
theorem TaskInv.open_record (h : TaskInv config e₀ (⟨c, .waiting⟩ :: rest) (config, e))
    {a : AgentId} (hc : c.op = .recordFailure a) (hp : e.poisoned = false) :
    TaskInv config e₀ (⟨c, .opened⟩ :: rest) (config, e) := by
  refine ⟨rfl, phases_cons h ⟨fun _ => Or.inl ⟨a, hc⟩, fun h => by simp at h⟩,
    fun _ hp' => absurd hp' (by simp [hp]), fun hclear => ?_⟩
  obtain ⟨base, tail, reached, hlin⟩ := h.linearized fun hcl => by
    rw [clearing_cons] at hcl hclear
    exact hclear (Or.inr (hcl.resolve_left (by simp)))
  refine ⟨base, tail, reached, hlin.order, hlin.effect, hlin.forced, hlin.after, ?_, ?_⟩
  · simpa only [some_cons, reduceCtorEq, false_or] using hlin.verdict
  · intro _ hpending
    have hverdict := hlin.verdict
    simp only [some_cons, reduceCtorEq, false_or] at hverdict hpending
    by_contra hreached
    exact (hverdict.mpr (Or.inl (by simpa using hreached))).elim (by simp [hp]) hpending

/-- A clear empties the poisoned set. -/
theorem TaskInv.open_clear (h : TaskInv config e₀ (⟨c, .waiting⟩ :: rest) (config, e))
    (hc : c.op = .clear) :
    TaskInv config e₀ (⟨c, .opened⟩ :: rest) (config, ⟨e.records, false⟩) := by
  refine ⟨rfl, phases_cons h ⟨fun _ => Or.inr hc, fun h => by simp at h⟩,
    fun _ hp' => absurd hp' (by simp), fun hclear => ?_⟩
  exact absurd (clearing_cons.mpr (Or.inl ⟨rfl, hc⟩)) hclear

/-- A `record_failure` updates the failures while no other has a poisoning to publish. -/
theorem TaskInv.act_record (h : TaskInv config e₀ (⟨c, .opened⟩ :: rest) (config, e))
    {a : AgentId} (hc : c.op = .recordFailure a) (hrest : ¬ Some .pending rest) :
    TaskInv config e₀
      (⟨c, if reaches config (e.pruned config a c.now) then .pending else .finished⟩ :: rest)
      (config, ⟨some (e.pruned config a c.now), e.poisoned⟩) := by
  generalize hn : reaches config (e.pruned config a c.now) = reached'
  have hph : (if reached' = true then Phase.pending else .finished).acted = true := by
    cases reached' <;> rfl
  have hopened : ∀ {ph : Phase}, ph ≠ .opened →
      (Clearing (⟨c, ph⟩ :: rest) ↔ Clearing rest) := by
    intro ph hph
    rw [clearing_cons]
    exact or_iff_right fun h => hph h.1
  have hne : (if reached' = true then Phase.pending else .finished) ≠ .opened := by
    cases reached' <;> simp
  refine ⟨rfl, phases_cons h ⟨fun ho => absurd ho hne, fun _ => ⟨a, hc⟩⟩, ?_, fun hclear => ?_⟩
  · exact clearing_of_acted rfl hph h fun hp => Or.inl hp
  · rw [hopened hne] at hclear
    obtain ⟨base, tail, reached, hlin⟩ := h.linearized fun hcl => by
      rw [clearing_cons] at hcl
      exact hclear (hcl.resolve_left (by simp [hc]))
    -- the call itself has looked before, so nothing but a `force_poison` happened since
    have hfree : reached = false := by
      refine hlin.free (some_cons.mpr (Or.inl rfl)) fun hpending => ?_
      exact hrest ((some_cons.mp hpending).resolve_left (by simp))
    subst hfree
    have hverdict := hlin.verdict
    simp only [some_cons, reduceCtorEq, false_or, or_iff_left hrest, Bool.false_eq_true]
      at hverdict
    have hentry : c.onEntry config ⟨e.records, false⟩ =
        ⟨some (e.pruned config a c.now), reached'⟩ := by
      rw [Call.onEntry, hc, ← hn]
      rfl
    refine ⟨base ++ [c], tail, reached', ?_, ?_, hlin.forced, hlin.after, ?_, ?_⟩
    · rw [acted_cons, hph, if_pos rfl, List.append_assoc]
      exact List.perm_middle.trans (hlin.order.cons c)
    · rw [List.foldl_append, hlin.effect, List.foldl_cons, List.foldl_nil, hentry]
    · cases reached' <;> simp [some_cons, hrest, hverdict]
    · cases reached' <;> simp [some_cons]

/-- A clear empties the failures while no `record_failure` has a poisoning to publish. Whatever the
    others did before counts for nothing, but for a `force_poison` since the poisoned set was
    emptied. -/
theorem TaskInv.act_clear (h : TaskInv config e₀ (⟨c, .opened⟩ :: rest) (config, e))
    (hc : c.op = .clear) (hrest : ¬ Some .pending rest) :
    TaskInv config e₀ (⟨c, .finished⟩ :: rest) (config, ⟨none, e.poisoned⟩) := by
  have hself : Clearing (⟨c, .opened⟩ :: rest) := clearing_cons.mpr (Or.inl ⟨rfl, hc⟩)
  refine ⟨rfl, phases_cons h (.plain (by simp) (by simp)), ?_, fun _ => ?_⟩
  · exact clearing_of_acted rfl rfl h fun hp => Or.inl hp
  · have hacted : acted (⟨c, .finished⟩ :: rest) = c :: acted (⟨c, .opened⟩ :: rest) := rfl
    have hclear : ∀ e : Entry, c.onEntry config e = ⟨none, false⟩ := fun e => by
      rw [Call.onEntry, hc]
    -- a poisoning that is still there was forced after the set was emptied: that call comes last
    by_cases hp : e.poisoned = true
    · obtain ⟨f, hf, hforce⟩ := h.clearing hself hp
      obtain ⟨before, hperm⟩ : ∃ before, (acted (⟨c, .opened⟩ :: rest)).Perm (f :: before) :=
        ⟨_, List.perm_cons_erase hf⟩
      refine ⟨before ++ [c], [f], false, ?_, ?_, ?_, ?_, ?_, ?_⟩
      · rw [hacted, List.append_assoc]
        exact List.perm_append_comm.trans (hperm.cons c).symm
      · rw [List.foldl_append, List.foldl_cons, List.foldl_nil, hclear]
      · intro c' cs hcs
        rw [← (List.cons.inj hcs).1]; exact hforce
      · intro c' hc'
        rw [List.mem_singleton.mp hc', hforce]
        simp
      · simp [hp]
      · exact fun _ _ => rfl
    -- nothing is left of the others, so the clear may come after all of them
    · refine ⟨acted (⟨c, .opened⟩ :: rest) ++ [c], [], false, ?_, ?_, by simp, by simp, ?_, ?_⟩
      · rw [hacted, List.append_nil]
        exact List.perm_append_singleton c _
      · rw [List.foldl_append, List.foldl_cons, List.foldl_nil, hclear]
      · simp [hp, some_cons, hrest]
      · exact fun _ _ => rfl

/-- A `record_failure` publishes while no other is about to act. -/
theorem TaskInv.publish (h : TaskInv config e₀ (⟨c, .pending⟩ :: rest) (config, e))
    (hrest : ¬ Some .opened rest) :
    TaskInv config e₀ (⟨c, .finished⟩ :: rest) (config, ⟨e.records, true⟩) := by
  -- no other call holds the failures, so no clear is under way
  have hclear : ∀ ph, ph ≠ .opened → ¬ Clearing (⟨c, ph⟩ :: rest) := by
    rintro ph hph ⟨th, hth, hopen, -⟩
    rcases List.mem_cons.mp hth with rfl | hth
    · exact hph hopen
    · exact hrest ⟨th, hth, hopen⟩
  refine ⟨rfl, phases_cons h (.plain (by simp) (by simp)),
    fun hcl => absurd hcl (hclear _ (by simp)), fun _ => ?_⟩
  obtain ⟨base, tail, reached, hlin⟩ := h.linearized (hclear _ (by simp))
  refine ⟨base, tail, reached, hlin.order, hlin.effect, hlin.forced, hlin.after, ?_, ?_⟩
  · exact iff_of_true (Or.inl rfl) (hlin.verdict.mp (Or.inr (some_cons.mpr (Or.inl rfl))))
  · intro hopen
    exact absurd ((some_cons.mp hopen).resolve_left (by simp)) hrest

/-- Every section keeps the invariant. -/
theorem TaskInv.step {th : Thread Call} {x : FaultConfig × Entry}
    (h : TaskInv config e₀ (th :: rest) x)
    (hspares : ∀ th' ∈ rest, th.Spares th') :
    TaskInv config e₀ (⟨th.call, (Entry.nextSection th.call th.phase x).1⟩ :: rest)
      (Entry.nextSection th.call th.phase x).2 := by
  -- what `Spares` promises of the two phases that can be disturbed
  have hact : th.phase = .opened → ¬ Some .pending rest :=
    fun ho ⟨th', hth', hp⟩ => (hspares th' hth').1 ho hp
  have hpublish : th.phase = .pending → ¬ Some .opened rest :=
    fun hp ⟨th', hth', ho⟩ => (hspares th' hth').2 hp ho
  obtain ⟨c, ph⟩ := th
  obtain ⟨config', e⟩ := x
  obtain rfl : config' = config := h.same
  obtain ⟨hopened, hpending⟩ := h.phases ⟨c, ph⟩ List.mem_cons_self
  cases ph with
  | waiting =>
    -- a query is one section and changes nothing
    have hquery : (c.op = .status ∨ c.op = .isPoisoned ∨ c.op = .allowRetry) →
        TaskInv config' e₀ (⟨c, .finished⟩ :: rest) (config', e) := by
      intro hq
      refine h.finish ?_ rfl (fun hf => ?_) fun _ => ⟨rfl, fun b _ => ?_⟩
      · rcases hq with hq | hq | hq <;> simp [hq]
      · rcases hq with hq | hq | hq <;> simp [hq] at hf
      · rcases hq with hq | hq | hq <;> rw [Call.onEntry, hq]
    cases hop : c.op with
    | recordFailure a =>
      -- a poisoned task records no failure: the call ends in its first section
      by_cases hp : e.poisoned = true
      · simp only [Entry.nextSection, hop, hp, if_true]
        refine h.finish (by simp [hop]) rfl (fun hf => by simp [hop] at hf) fun _ => ⟨rfl, ?_⟩
        intro b hb
        rw [hb hp]
        exact onEntry_of_poisoned (by simp [hop])
      · simp only [Entry.nextSection, hop, hp, if_false, Bool.false_eq_true]
        exact h.open_record hop (eq_false_of_ne_true hp)
    | forcePoison =>
      simp only [Entry.nextSection, hop]
      exact h.finish (by simp [hop]) rfl (fun _ => rfl) fun hf => absurd hop hf
    | clear =>
      simp only [Entry.nextSection, hop]
      exact h.open_clear hop
    | status => simp only [Entry.nextSection, hop]; exact hquery (Or.inl hop)
    | isPoisoned => simp only [Entry.nextSection, hop]; exact hquery (Or.inr (Or.inl hop))
    | allowRetry => simp only [Entry.nextSection, hop]; exact hquery (Or.inr (Or.inr hop))
  | opened =>
    have hop : (∃ a, c.op = .recordFailure a) ∨ c.op = .clear := hopened rfl
    rcases hop with ⟨a, hop⟩ | hop
    · simp only [Entry.nextSection, hop]
      exact h.act_record hop (hact rfl)
    · simp only [Entry.nextSection, hop]
      exact h.act_clear hop (hact rfl)
  | pending =>
    have hop : ∃ a, c.op = .recordFailure a := hpending rfl
    obtain ⟨a, hop⟩ := hop
    simp only [Entry.nextSection, hop]
    exact h.publish (hpublish rfl)
  | finished => exact h

end Step

/-! ### Whole interleavings -/

theorem entry_applyAll_foldl (t : Uuid) (cs : List Call) : ∀ d : PoisonDetector,
    (d.applyAll cs).entry t =
      (cs.filter fun c => decide (c.taskId = t)).foldl (Call.onEntry d.config) (d.entry t) := by
  induction cs with
  | nil => exact fun _ => rfl
  | cons c cs ih =>
    intro d
    have hcons : d.applyAll (c :: cs) = (d.apply c).applyAll cs := rfl
    rw [hcons, ih, entry_apply, apply_config]
    by_cases h : c.taskId = t
    · rw [if_pos h, List.filter_cons_of_pos (by simp [h]), List.foldl_cons]
    · rw [if_neg h, List.filter_cons_of_neg (by simp [h])]

/-- In a run of calls one by one a poisoned task has a failure record, or someone forced it since
    its last clear. -/
theorem poisoned_has_cause (config : FaultConfig) (t : Uuid) (cs : List Call)
    (h : (((new config).applyAll cs).entry t).poisoned = true) :
    (((new config).applyAll cs).entry t).records ≠ none ∨
      ∃ c ∈ sinceClear t cs, c.op = .forcePoison := by
  -- from the end: the last call of the task decides, or the run before it
  induction cs using List.reverseRecOn with
  | nil => simp [applyAll, new, entry] at h
  | append_singleton cs c ih =>
    rw [applyAll_concat, entry_apply, sinceClear_concat] at *
    by_cases ht : c.taskId = t
    · rw [if_pos ht] at h ⊢
      rw [if_pos ht]
      generalize ((new config).applyAll cs).entry t = e at h ih ⊢
      cases hop : c.op with
      | recordFailure a =>
        simp only [Call.onEntry, hop] at h ⊢
        by_cases hp : e.poisoned = true
        · rw [if_pos hp]
          exact (ih hp).imp_right (Exists.imp fun c' h => ⟨by simp [h.1], h.2⟩)
        · rw [if_neg hp]
          simp
      | forcePoison =>
        right
        exact ⟨c, by simp, hop⟩
      | clear => simp [Call.onEntry, hop] at h
      | status | isPoisoned | allowRetry =>
        simp only [Call.onEntry, hop] at h ⊢
        exact (ih h).imp_right (Exists.imp fun c' h => ⟨by simp [h.1], h.2⟩)
    · rw [if_neg ht] at h ⊢
      rw [if_neg ht]
      exact ih h

theorem TaskInv.start (d : PoisonDetector) (calls : List Call) (t : Uuid) :
    TaskInv d.config (d.entry t) (threadsOf Call.taskId t (Pool.start calls d).threads)
      (view d t) := by
  have hwaiting : ∀ th ∈ threadsOf Call.taskId t (Pool.start calls d).threads,
      th.phase = .waiting := fun _ => phase_of_start Call.taskId
  have hnot : ∀ ph, ph ≠ .waiting →
      ¬ Some ph (threadsOf Call.taskId t (Pool.start calls d).threads) := by
    rintro ph hph ⟨th, hth, rfl⟩
    exact hph (hwaiting th hth)
  have hacted : acted (threadsOf Call.taskId t (Pool.start calls d).threads) = [] := by
    rw [acted, List.map_eq_nil_iff, List.filter_eq_nil_iff]
    intro th hth
    simp [hwaiting th hth, Phase.acted]
  refine ⟨rfl, fun th hth => ?_, fun ⟨th, hth, hopen, _⟩ => ?_, fun _ => ?_⟩
  · exact .plain (by simp [hwaiting th hth]) (by simp [hwaiting th hth])
  · simp [hwaiting th hth] at hopen
  · refine ⟨[], [], (d.entry t).poisoned, ?_, rfl, by simp, by simp, ?_, ?_⟩
    · rw [hacted]; rfl
    · simp [view, hnot .pending (by simp)]
    · exact fun h => absurd h (hnot _ (by simp))

/-- Concurrent calls leave what they leave in some order one by one, in every interleaving in which
    no call acts on a task while a `record_failure` still has to poison it, and none poisons it
    while another has looked and not yet acted. A task is then poisoned for a reason. -/
theorem interleaving_linearizable (d : PoisonDetector) (calls : List Call) (sched : List ℕ)
    (hfree : AllUndisturbed Call.taskId nextSection (Pool.start calls d) sched)
    (hfin : (Pool.run nextSection (Pool.start calls d) sched).Finished) :
    ∃ order : List Call, order.Perm calls ∧
      (∀ t, (Pool.run nextSection (Pool.start calls d) sched).shared.entry t =
        (d.applyAll order).entry t) ∧
      (d = new d.config → ∀ t,
        ((Pool.run nextSection (Pool.start calls d) sched).shared.entry t).poisoned = true →
        ((Pool.run nextSection (Pool.start calls d) sched).shared.entry t).records ≠ none ∨
          ∃ c ∈ sinceClear t order, c.op = .forcePoison) := by
  have hcalls := (Pool.calls_run nextSection (Pool.start calls d) sched).trans
    (Pool.calls_start calls d)
  have hinv : ∀ t, TaskInv d.config (d.entry t)
      (threadsOf Call.taskId t (Pool.run nextSection (Pool.start calls d) sched).threads)
      (view (Pool.run nextSection (Pool.start calls d) sched).shared t) := fun t =>
    nextSection_local.run_invariant hfree (TaskInv.start d calls t) TaskInv.perm
      fun _ _ _ hspares h => h.step hspares
  generalize Pool.run nextSection (Pool.start calls d) sched = p at hcalls hfin hinv ⊢
  -- per task, the calls in the order in which they acted
  have htask : ∀ t, ∃ o : List Call, o.Perm (calls.filter fun c => decide (c.taskId = t)) ∧
      p.shared.entry t = o.foldl (Call.onEntry d.config) (d.entry t) := by
    intro t
    have hdone : ∀ th ∈ threadsOf Call.taskId t p.threads, th.phase = .finished :=
      fun _ => phase_of_finished Call.taskId hfin
    have hnot : ∀ ph, ph ≠ .finished → ¬ Some ph (threadsOf Call.taskId t p.threads) := by
      rintro ph hph ⟨th, hth, rfl⟩
      exact hph (hdone th hth)
    obtain ⟨base, tail, reached, hlin⟩ := (hinv t).linearized fun ⟨th, hth, hopen, _⟩ => by
      simp [hdone th hth] at hopen
    have hacted : acted (threadsOf Call.taskId t p.threads) =
        calls.filter fun c => decide (c.taskId = t) := by
      rw [← hcalls, List.filter_map, acted, List.filter_eq_self.mpr]
      · rfl
      · exact fun th hth => by rw [hdone th hth]; rfl
    refine ⟨base ++ tail, hacted ▸ hlin.order, ?_⟩
    have hverdict := hlin.verdict
    simp only [hnot .pending (by simp), or_false] at hverdict
    have hpoisoned : (p.shared.entry t).poisoned = (reached || !tail.isEmpty) := by
      rw [Bool.eq_iff_iff]
      simpa [view, List.isEmpty_iff] using hverdict
    rw [hlin.foldl, ← hpoisoned]
    rfl
  choose o hperm hentry using htask
  obtain ⟨order, horder, hfilter⟩ := exists_merge calls o hperm
  have hsame : ∀ t, p.shared.entry t = (d.applyAll order).entry t := fun t => by
    rw [hentry, entry_applyAll_foldl, hfilter]
  refine ⟨order, horder, hsame, fun hnew t hp => ?_⟩
  rw [hsame] at hp ⊢
  rw [hnew] at hp ⊢
  exact poisoned_has_cause _ t order hp

/-- One failure is enough. -/
def eager : FaultConfig := { FaultConfig.default with poisonAgentThreshold := 1 }

/-- A clear runs between the update of the failures and the insert that follows from it: the task
    is left poisoned with no record, which the two calls do in no order. -/
theorem interleaving_not_linearizable :
    let calls : List Call := [⟨.recordFailure ⟨1⟩, 7, 0⟩, ⟨.clear, 7, 0⟩]
    let p := Pool.run nextSection (Pool.start calls (new eager)) [0, 0, 1, 1, 0]
    p.Finished ∧ p.shared.entry 7 = ⟨none, true⟩ ∧
      ¬ ∃ order : List Call, order.Perm calls ∧
        ∀ t, p.shared.entry t = ((new eager).applyAll order).entry t := by
  intro calls p
  have hentry : p.shared.entry 7 = ⟨none, true⟩ := by decide
  refine ⟨by decide, hentry, ?_⟩
  rintro ⟨order, hperm, hsame⟩
  have hlast := (hsame 7).symm.trans hentry
  rcases poisoned_has_cause eager 7 order (by rw [hlast]) with hrecord | ⟨c, hc, hforce⟩
  · rw [hlast] at hrecord
    exact hrecord rfl
  · have hno : ∀ c ∈ calls, c.op ≠ .forcePoison := by decide
    exact hno c (hperm.mem_iff.mp (sinceClear_subset hc)) hforce

/-- A failure and a clear whose sections alternate. -/
theorem interleaving_linearizable_two :
    let calls : List Call := [⟨.recordFailure ⟨1⟩, 7, 0⟩, ⟨.clear, 7, 0⟩]
    let p := Pool.run nextSection (Pool.start calls (new eager)) [1, 0, 1, 0, 0]
    ∃ order : List Call, order.Perm calls ∧
      ∀ t, p.shared.entry t = ((new eager).applyAll order).entry t := by
  obtain ⟨order, hperm, hsame, -⟩ := interleaving_linearizable (new eager)
    [⟨.recordFailure ⟨1⟩, 7, 0⟩, ⟨.clear, 7, 0⟩] [1, 0, 1, 0, 0] (by decide) (by decide)
  exact ⟨order, hperm, hsame⟩

end PoisonDetector
end ATP
