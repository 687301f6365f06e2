import Mathlib.Data.List.Induction

/-! Runs of a deterministic machine, with every step recorded.

    A machine reads an event, answers it and moves to a new state. `trace` keeps, for each event of
    a run, the state before, the answer and the state after, so that a property of whole runs
    ("between this step and that one", "since the last step that ...") is a property of a list. -/

/-- One step of a run. -/
structure TraceStep (σ ε ρ : Type) where
  pre : σ
  ev : ε
  out : ρ
  post : σ

namespace Trace
variable {σ ε ρ : Type} (step : σ → ε → ρ × σ)

/-- The state a run ends in. -/
def run (s : σ) (es : List ε) : σ := es.foldl (fun s e => (step s e).2) s

/-- The steps of a run, in order. -/
def trace : σ → List ε → List (TraceStep σ ε ρ)
  | _, [] => []
  | s, e :: es => ⟨s, e, (step s e).1, (step s e).2⟩ :: trace (step s e).2 es

@[simp] theorem run_cons (s : σ) (e : ε) (es : List ε) :
    run step s (e :: es) = run step (step s e).2 es := rfl

theorem run_append (s : σ) (es es' : List ε) :
    run step s (es ++ es') = run step (run step s es) es' := List.foldl_append

theorem trace_append (s : σ) (es es' : List ε) :
    trace step s (es ++ es') = trace step s es ++ trace step (run step s es) es' := by
  induction es generalizing s with
  | nil => rfl
  | cons e es ih => simp only [List.cons_append, trace, run_cons, ih]

theorem trace_concat (s : σ) (es : List ε) (e : ε) :
    trace step s (es ++ [e]) = trace step s es ++
      [⟨run step s es, e, (step (run step s es) e).1, (step (run step s es) e).2⟩] := by
  rw [trace_append]; rfl

theorem map_ev_trace (s : σ) (es : List ε) : (trace step s es).map (·.ev) = es := by
  induction es generalizing s with
  | nil => rfl
  | cons e es ih => rw [trace, List.map_cons, ih]

theorem ev_mem_of_mem_trace {s : σ} {es : List ε} {x : TraceStep σ ε ρ}
    (h : x ∈ trace step s es) : x.ev ∈ es := by
  rw [← map_ev_trace step s es]
  exact List.mem_map_of_mem h

/-- A split of the trace is a split of the events. -/
theorem trace_split {s : σ} : ∀ {es : List ε} {xs ys : List (TraceStep σ ε ρ)},
    trace step s es = xs ++ ys → ∃ es₁ es₂, es = es₁ ++ es₂ ∧ trace step s es₁ = xs ∧
      trace step (run step s es₁) es₂ = ys := by
  intro es xs
  induction xs generalizing s es with
  | nil => intro ys h; exact ⟨[], es, rfl, rfl, h⟩
  | cons x xs ih =>
    intro ys h
    cases es with
    | nil => simp [trace] at h
    | cons e es =>
      simp only [trace, List.cons_append, List.cons.injEq] at h
      obtain ⟨hx, hrest⟩ := h
      obtain ⟨es₁, es₂, rfl, h₁, h₂⟩ := ih hrest
      exact ⟨e :: es₁, es₂, rfl, by rw [trace, h₁, hx], h₂⟩

/-- Each step of a trace starts where the steps before it ended, is a step of the machine, and the
    steps after it start where it ends. -/
theorem trace_mid {s : σ} {es : List ε} {xs ys : List (TraceStep σ ε ρ)} {x : TraceStep σ ε ρ}
    (h : trace step s es = xs ++ x :: ys) : ∃ es₁ es₂, trace step s es₁ = xs ∧
      x.pre = run step s es₁ ∧ (x.out, x.post) = step x.pre x.ev ∧
      trace step x.post es₂ = ys := by
  obtain ⟨es₁, es₂, rfl, h₁, h₂⟩ := trace_split step h
  cases es₂ with
  | nil => simp [trace] at h₂
  | cons e es₂ =>
    simp only [trace, List.cons.injEq] at h₂
    obtain ⟨rfl, hrest⟩ := h₂
    exact ⟨es₁, es₂, h₁, rfl, rfl, hrest⟩

/-- A relation between the steps taken and the state reached, kept by one more step, holds after
    every run. -/
theorem trace_invariant {P : List (TraceStep σ ε ρ) → σ → Prop} {s : σ} (h0 : P [] s)
    (hstep : ∀ tr s e, P tr s → P (tr ++ [⟨s, e, (step s e).1, (step s e).2⟩]) (step s e).2)
    (es : List ε) : P (trace step s es) (run step s es) := by
  induction es using List.reverseRecOn with
  | nil => exact h0
  | append_singleton es e ih =>
    rw [trace_concat, run_append]
    exact hstep _ _ e ih

theorem run_concat (s : σ) (es : List ε) (e : ε) :
    run step s (es ++ [e]) = (step (run step s es) e).2 := run_append step s es [e]

omit step in
/-- A property of the prefixes of a run, one event at a time. -/
theorem prefix_induction {P : List ε → Prop} {es : List ε} (h0 : P [])
    (hstep : ∀ xs e, xs ++ [e] <+: es → P xs → P (xs ++ [e])) : ∀ xs, xs <+: es → P xs := by
  intro xs
  induction xs using List.reverseRecOn with
  | nil => exact fun _ => h0
  | append_singleton xs e ih =>
    intro h
    exact hstep xs e h (ih ((List.prefix_append xs [e]).trans h))

/-- What the initial state satisfies and every step preserves holds after every run. -/
theorem run_invariant {P : σ → Prop} {s : σ} (h0 : P s) (hstep : ∀ s e, P s → P (step s e).2)
    (es : List ε) : P (run step s es) := by
  induction es generalizing s with
  | nil => exact h0
  | cons e es ih => exact ih (hstep s e h0)

end Trace
