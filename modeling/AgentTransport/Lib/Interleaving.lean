import Mathlib.Data.List.Dedup
import Mathlib.Data.List.Induction
import Mathlib.Data.List.Perm.Basic

/-! Calls made of atomic sections, interleaved.

    Each section of a call runs alone on the shared state, and between two sections of one call any
    sections of the others may run. A call that has looked at the state and is about to act on it is
    `opened`; one that has acted and still has to publish what it did is `pending`. When sections
    act on one key each, a property of every key is kept by every schedule if it is kept by one
    section of one call. -/

namespace Interleaving

/-- How far a call has come. -/
inductive Phase where | waiting | opened | pending | finished
  deriving DecidableEq

/-- The call has acted, whether or not it has published. -/
def Phase.acted : Phase → Bool
  | .pending | .finished => true
  | .waiting | .opened => false

structure Thread (κ : Type) where
  call : κ
  phase : Phase
  deriving DecidableEq

/-- The next section of a call in some phase. -/
abbrev Sections (κ σ : Type) := κ → Phase → σ → Phase × σ

/-- Calls in progress and the state they share. -/
structure Pool (κ σ : Type) where
  threads : List (Thread κ)
  shared : σ

namespace Pool
variable {κ σ : Type} (sec : Sections κ σ)

def start (calls : List κ) (s : σ) : Pool κ σ := ⟨calls.map (Thread.mk · .waiting), s⟩

/-- The call at one index runs its next section. -/
def step (p : Pool κ σ) (i : ℕ) : Pool κ σ :=
  match p.threads[i]? with
  | some th =>
    let (phase, s) := sec th.call th.phase p.shared
    ⟨p.threads.set i ⟨th.call, phase⟩, s⟩
  | none => p

/-- The sections run in the order of a schedule. -/
def run (p : Pool κ σ) (sched : List ℕ) : Pool κ σ := sched.foldl (step sec) p

def Finished (p : Pool κ σ) : Prop := ∀ th ∈ p.threads, th.phase = .finished

instance (p : Pool κ σ) : Decidable p.Finished :=
  inferInstanceAs (Decidable (∀ th ∈ p.threads, th.phase = .finished))

@[simp] theorem run_cons (p : Pool κ σ) (i : ℕ) (sched : List ℕ) :
    run sec p (i :: sched) = run sec (step sec p i) sched := rfl

theorem run_append (p : Pool κ σ) (sched sched' : List ℕ) :
    run sec p (sched ++ sched') = run sec (run sec p sched) sched' := List.foldl_append

theorem step_eq {p : Pool κ σ} {i : ℕ} {th : Thread κ} (h : p.threads[i]? = some th) :
    step sec p i = ⟨p.threads.set i ⟨th.call, (sec th.call th.phase p.shared).1⟩,
      (sec th.call th.phase p.shared).2⟩ := by
  simp only [step, h]

theorem step_self {p : Pool κ σ} {i : ℕ} {th : Thread κ} (h : p.threads[i]? = some th) :
    (step sec p i).threads[i]? = some ⟨th.call, (sec th.call th.phase p.shared).1⟩ := by
  obtain ⟨hi, -⟩ := List.getElem?_eq_some_iff.mp h
  rw [step_eq sec h, List.getElem?_set_self hi]

theorem step_other (p : Pool κ σ) {i j : ℕ} (hij : i ≠ j) :
    (step sec p i).threads[j]? = p.threads[j]? := by
  cases h : p.threads[i]? with
  | none => simp only [step, h]
  | some th => rw [step_eq sec h, List.getElem?_set_ne hij]

/-- Where two sections end every call, threads are run to their end apart from the others. -/
theorem run_twice (hend : ∀ c ph s s', (sec c (sec c ph s).1 s').1 = .finished) (ks : List ℕ) :
    ∀ p : Pool κ σ, (∀ k ∈ ks, ∀ th ∈ (run sec p (ks.flatMap fun k => [k, k])).threads[k]?,
        th.phase = .finished) ∧
      ∀ j ∉ ks, (run sec p (ks.flatMap fun k => [k, k])).threads[j]? = p.threads[j]? := by
  induction ks with
  | nil => exact fun p => ⟨by simp, fun _ _ => rfl⟩
  | cons k ks ih =>
    intro p
    obtain ⟨hdone, hsame⟩ := ih (step sec (step sec p k) k)
    rw [List.flatMap_cons, show ∀ l : List ℕ, [k, k] ++ l = k :: k :: l from fun _ => rfl, run_cons,
      run_cons]
    refine ⟨fun k' hk' th hth => ?_, fun j hj => ?_⟩
    · by_cases hmem : k' ∈ ks
      · exact hdone k' hmem th hth
      -- no later pair of steps is of `k'`, so it is as its own two steps left it
      · obtain rfl : k' = k := (List.mem_cons.mp hk').resolve_right hmem
        rw [hsame k' hmem] at hth
        cases h : p.threads[k']? with
        | none =>
          have hnone : step sec p k' = p := by simp only [step, h]
          rw [hnone, hnone, h] at hth
          cases hth
        | some th' =>
          rw [step_self sec (step_self sec h)] at hth
          rw [← Option.some.inj hth]
          exact hend _ _ _ _
    · obtain ⟨hjk, hj⟩ := not_or.mp fun h => hj (List.mem_cons.mpr h)
      rw [hsame j hj, step_other sec _ (Ne.symm hjk), step_other sec _ (Ne.symm hjk)]

/-- All calls but two can be run to their end first. -/
theorem exists_others_finished (hend : ∀ c ph s s', (sec c (sec c ph s).1 s').1 = .finished)
    (calls : List κ) (s : σ) (i j : ℕ) : ∃ sched,
      (∀ k, k ≠ i → k ≠ j → ∀ th ∈ (run sec (start calls s) sched).threads[k]?,
        th.phase = .finished) ∧
      (run sec (start calls s) sched).threads[i]? = (calls[i]?).map (Thread.mk · .waiting) ∧
      (run sec (start calls s) sched).threads[j]? = (calls[j]?).map (Thread.mk · .waiting) := by
  have hstart : ∀ k, (start calls s).threads[k]? = (calls[k]?).map (Thread.mk · .waiting) :=
    fun k => List.getElem?_map
  obtain ⟨others, hothers⟩ : ∃ others : List ℕ,
      ∀ k, k ∈ others ↔ k < calls.length ∧ k ≠ i ∧ k ≠ j :=
    ⟨(List.range calls.length).filter fun k => decide (k ≠ i ∧ k ≠ j), by simp⟩
  obtain ⟨hdone, hsame⟩ := run_twice sec hend others (start calls s)
  refine ⟨others.flatMap fun k => [k, k], fun k hki hkj th hth => ?_, ?_, ?_⟩
  · by_cases hk : k < calls.length
    · exact hdone k ((hothers k).mpr ⟨hk, hki, hkj⟩) th hth
    · rw [hsame k fun h => hk ((hothers k).mp h).1, hstart,
        List.getElem?_eq_none (Nat.le_of_not_lt hk)] at hth
      cases hth
  · rw [hsame i (by simp [hothers]), hstart]
  · rw [hsame j (by simp [hothers]), hstart]

/-- One thread moves and the others stay. -/
theorem step_cases (p : Pool κ σ) (i : ℕ) : step sec p i = p ∨ ∃ th rest,
    p.threads[i]? = some th ∧ p.threads.Perm (th :: rest) ∧
      (step sec p i).threads.Perm (⟨th.call, (sec th.call th.phase p.shared).1⟩ :: rest) ∧
      (step sec p i).shared = (sec th.call th.phase p.shared).2 := by
  cases h : p.threads[i]? with
  | none => left; simp only [step, h]
  | some th =>
    right
    obtain ⟨hi, rfl⟩ := List.getElem?_eq_some_iff.mp h
    refine ⟨_, p.threads.eraseIdx i, rfl, (List.getElem_cons_eraseIdx_perm hi).symm, ?_, ?_⟩
    · rw [step_eq sec h]
      exact List.set_perm_cons_eraseIdx hi _
    · rw [step_eq sec h]

/-- The calls of a pool stay the same. -/
theorem calls_step (p : Pool κ σ) (i : ℕ) :
    (step sec p i).threads.map Thread.call = p.threads.map Thread.call := by
  cases h : p.threads[i]? with
  | none => simp only [step, h]
  | some th =>
    obtain ⟨hi, rfl⟩ := List.getElem?_eq_some_iff.mp h
    have hset : (p.threads.map Thread.call).set i p.threads[i].call =
        p.threads.map Thread.call := by
      rw [← List.getElem_map Thread.call (h := by simpa using hi), List.set_getElem_self]
    rw [step_eq sec h, List.map_set, hset]

theorem calls_run (p : Pool κ σ) (sched : List ℕ) :
    (run sec p sched).threads.map Thread.call = p.threads.map Thread.call := by
  induction sched generalizing p with
  | nil => rfl
  | cons i sched ih => rw [run_cons, ih, calls_step]

@[simp] theorem calls_start (calls : List κ) (s : σ) :
    (start calls s).threads.map Thread.call = calls := by
  simp [start, Function.comp_def]

end Pool

/-! ### Calls with keys -/

section Keyed
variable {κ σ τ ε : Type} [DecidableEq τ] (key : κ → τ)

/-- The threads of one key. -/
def threadsOf (t : τ) (threads : List (Thread κ)) : List (Thread κ) :=
  threads.filter fun th => decide (key th.call = t)

theorem phase_of_start {calls : List κ} {s : σ} {t : τ} {th : Thread κ}
    (h : th ∈ threadsOf key t (Pool.start calls s).threads) : th.phase = .waiting := by
  obtain ⟨c, -, rfl⟩ := List.mem_map.mp (List.mem_of_mem_filter h)
  rfl

theorem phase_of_finished {p : Pool κ σ} (hfin : p.Finished) {t : τ} {th : Thread κ}
    (h : th ∈ threadsOf key t p.threads) : th.phase = .finished :=
  hfin th (List.mem_of_mem_filter h)

/-- A thread may move in the presence of another: it does not act while the other has something to
    publish, nor publish while the other is about to act. -/
def Thread.Spares (th th' : Thread κ) : Prop :=
  (th.phase = .opened → th'.phase ≠ .pending) ∧ (th.phase = .pending → th'.phase ≠ .opened)

/-- The thread that moves next spares the others of its key. -/
def Undisturbed (p : Pool κ σ) (i : ℕ) : Prop :=
  ∀ th ∈ p.threads[i]?, ∀ th' ∈ p.threads, key th'.call = key th.call → th.Spares th'

/-- No thread is ever disturbed. -/
def AllUndisturbed (sec : Sections κ σ) : Pool κ σ → List ℕ → Prop
  | _, [] => True
  | p, i :: sched => Undisturbed key p i ∧ AllUndisturbed sec (Pool.step sec p i) sched

instance (th th' : Thread κ) : Decidable (th.Spares th') := inferInstanceAs (Decidable (_ ∧ _))

instance (p : Pool κ σ) (i : ℕ) : Decidable (Undisturbed key p i) :=
  inferInstanceAs (Decidable (∀ th ∈ p.threads[i]?, ∀ th' ∈ p.threads,
    key th'.call = key th.call → th.Spares th'))

instance AllUndisturbed.decidable (sec : Sections κ σ) : ∀ (p : Pool κ σ) (sched : List ℕ),
    Decidable (AllUndisturbed key sec p sched)
  | _, [] => isTrue trivial
  | p, i :: sched =>
    have := AllUndisturbed.decidable sec (Pool.step sec p i) sched
    inferInstanceAs (Decidable (_ ∧ _))

/-- Sections act on what the state has for the key of their call, and read nothing else. -/
structure Local (sec : Sections κ σ) (view : σ → τ → ε) (loc : Sections κ ε) : Prop where
  phase : ∀ c ph s, (sec c ph s).1 = (loc c ph (view s (key c))).1
  self : ∀ c ph s, view (sec c ph s).2 (key c) = (loc c ph (view s (key c))).2
  other : ∀ c ph s t, t ≠ key c → view (sec c ph s).2 t = view s t

variable {key} {sec : Sections κ σ} {view : σ → τ → ε} {loc : Sections κ ε}

omit [DecidableEq τ] in
/-- What one section does: to its thread, to the key of its call, and to the other threads. -/
theorem Local.step_spec (h : Local key sec view loc) {p : Pool κ σ} {i : ℕ} {c : κ} {ph : Phase}
    (hi : p.threads[i]? = some ⟨c, ph⟩) :
    (Pool.step sec p i).threads[i]? = some ⟨c, (loc c ph (view p.shared (key c))).1⟩ ∧
      view (Pool.step sec p i).shared (key c) = (loc c ph (view p.shared (key c))).2 ∧
      ∀ k, i ≠ k → (Pool.step sec p i).threads[k]? = p.threads[k]? := by
  refine ⟨?_, ?_, fun k hk => Pool.step_other sec p hk⟩
  · rw [Pool.step_self sec hi, h.phase]
  · rw [Pool.step_eq sec hi, h.self]

/-- What one thread of a key keeps while it spares the others of the key, every schedule in which no
    thread is disturbed keeps. -/
theorem Local.run_invariant (h : Local key sec view loc) {t : τ}
    {P : List (Thread κ) → ε → Prop} {p : Pool κ σ} {sched : List ℕ}
    (hfree : AllUndisturbed key sec p sched) (h0 : P (threadsOf key t p.threads) (view p.shared t))
    (hperm : ∀ {l l' e}, l.Perm l' → P l e → P l' e)
    (hstep : ∀ th rest e, (∀ th' ∈ rest, th.Spares th') → P (th :: rest) e →
      P (⟨th.call, (loc th.call th.phase e).1⟩ :: rest) (loc th.call th.phase e).2) :
    P (threadsOf key t (Pool.run sec p sched).threads) (view (Pool.run sec p sched).shared t) := by
  induction sched generalizing p with
  | nil => exact h0
  | cons i sched ih =>
    obtain ⟨hfirst, hrest⟩ := hfree
    refine ih hrest ?_
    rcases Pool.step_cases sec p i with hp | ⟨th, rest, hth, hbefore, hafter, hshared⟩
    · rwa [hp]
    -- the thread that runs is brought to the front, among those of its key if it has this key
    · have hfilter : ∀ {l l' : List (Thread κ)}, l.Perm l' →
          (threadsOf key t l).Perm (threadsOf key t l') := fun hl => hl.filter _
      refine hperm (hfilter hafter).symm ?_
      have hpre := hperm (hfilter hbefore) h0
      rw [hshared]
      rcases eq_or_ne (key th.call) t with rfl | ht
      · rw [threadsOf, List.filter_cons_of_pos (by simp)] at hpre ⊢
        rw [h.self, h.phase]
        refine hstep th _ _ (fun th' hth' => ?_) hpre
        obtain ⟨hmem, hkey⟩ := List.mem_filter.mp hth'
        exact hfirst th hth th' (hbefore.mem_iff.mpr (List.mem_cons_of_mem _ hmem))
          (of_decide_eq_true hkey)
      · rw [threadsOf, List.filter_cons_of_neg (by simpa using ht)] at hpre ⊢
        rwa [h.other _ _ _ _ (Ne.symm ht)]

/-- Orders of the calls of each key make up an order of all calls. -/
theorem exists_merge [DecidableEq κ] (l : List κ) (o : τ → List κ)
    (h : ∀ t, (o t).Perm (l.filter fun c => decide (key c = t))) :
    ∃ m : List κ, m.Perm l ∧ ∀ t, (m.filter fun c => decide (key c = t)) = o t := by
  have hkey : ∀ t, ∀ c ∈ o t, key c = t := fun t c hc => by
    simpa using List.of_mem_filter ((h t).mem_iff.mp hc)
  have hone : ∀ k t, ((o k).filter fun c => decide (key c = t)) = if k = t then o t else [] := by
    intro k t
    rcases eq_or_ne k t with rfl | hk
    · rw [if_pos rfl, List.filter_eq_self]
      exact fun c hc => decide_eq_true (hkey k c hc)
    · rw [if_neg hk, List.filter_eq_nil_iff]
      exact fun c hc => by simpa [hkey k c hc] using hk
  have hmany : ∀ ks : List τ, ks.Nodup → ∀ t,
      ((ks.flatMap o).filter fun c => decide (key c = t)) = if t ∈ ks then o t else [] := by
    intro ks hks t
    induction ks with
    | nil => simp
    | cons k ks ih =>
      obtain ⟨hk, hks⟩ := List.nodup_cons.mp hks
      rw [List.flatMap_cons, List.filter_append, hone, ih hks]
      rcases eq_or_ne k t with rfl | hkt
      · simp [hk]
      · simp [hkt, Ne.symm hkt]
  have hall : ∀ t, (((l.map key).dedup.flatMap o).filter fun c => decide (key c = t)) = o t := by
    intro t
    rw [hmany _ (List.nodup_dedup _)]
    by_cases ht : t ∈ (l.map key).dedup
    · rw [if_pos ht]
    · -- no call has this key
      have hnone : (l.filter fun c => decide (key c = t)) = [] := by
        rw [List.filter_eq_nil_iff]
        intro c hc
        simp only [List.mem_dedup, List.mem_map, not_exists, not_and] at ht
        simpa using ht c hc
      have hperm := h t
      rw [hnone] at hperm
      rw [if_neg ht, List.perm_nil.mp hperm]
  refine ⟨_, List.perm_iff_count.mpr fun c => ?_, hall⟩
  have hcount : ∀ l' : List κ, l'.count c =
      (l'.filter fun c' => decide (key c' = key c)).count c := fun l' =>
    (List.count_filter (by simp)).symm
  rw [hcount, hall, hcount l]
  exact (h (key c)).count_eq c

end Keyed

end Interleaving
