import Mathlib.Data.List.Basic

/-! Calls that may panic, next to the values they return when they do not. A panic is `none`; a call
    that computes a value step by step returns that value unless one of its steps panics:

        call   step ▶ step ▶ step ▶ some value        (or none at the first step that panics)
        value  the same steps, without the check -/

/-- The call returns this value, unless it panics. -/
def OrPanic {α : Type} (call : Option α) (value : α) : Prop := ∀ a, call = some a → a = value

namespace OrPanic
variable {α β σ : Type}

theorem some (a : α) : OrPanic (Option.some a) a := fun _ h => (Option.some.inj h).symm

/-- A call that is known to return. -/
theorem eq_some {call : Option α} {value : α} (h : OrPanic call value) (hret : call.isSome) :
    call = Option.some value := by
  obtain ⟨a, ha⟩ := Option.isSome_iff_exists.mp hret
  rw [ha, h a ha]

/-- One step, then the rest. -/
theorem bind {call : Option α} {value : α} {next : α → Option β} {result : β}
    (h : OrPanic call value) (hnext : OrPanic (next value) result) :
    OrPanic (call >>= next) result := by
  intro b hb
  obtain ⟨a, ha, hb⟩ := Option.bind_eq_some_iff.mp hb
  rw [h a ha] at hb
  exact hnext b hb

theorem map {call : Option α} {value : α} (f : α → β) (h : OrPanic call value) :
    OrPanic (call.map f) (f value) := by
  intro b hb
  obtain ⟨a, ha, rfl⟩ := Option.map_eq_some_iff.mp hb
  rw [h a ha]

/-- A loop panics with its first step that does. -/
theorem foldlM {step : σ → α → Option σ} {plain : σ → α → σ}
    (h : ∀ s a, OrPanic (step s a) (plain s a)) : ∀ (l : List α) (s : σ),
    OrPanic (l.foldlM step s) (l.foldl plain s)
  | [], s => some s
  | a :: l, s => by
    rw [List.foldlM_cons, List.foldl_cons]
    exact bind (h s a) (foldlM h l (plain s a))

theorem mapM {f : α → Option β} {plain : α → β} (h : ∀ a, OrPanic (f a) (plain a)) :
    ∀ l : List α, OrPanic (l.mapM f) (l.map plain)
  | [] => some []
  | a :: l => by
    rw [List.mapM_cons, List.map_cons]
    exact bind (h a) (bind (mapM h l) (some _))

/-- Such a traversal panics exactly when one of its calls does. -/
theorem mapM_eq_none {f : α → Option β} {l : List α} : l.mapM f = none ↔ ∃ a ∈ l, f a = none := by
  induction l with
  | nil => simp
  | cons a l ih =>
    rw [List.mapM_cons]
    cases ha : f a with
    | none => simp [ha]
    | some b =>
      simp only [List.mem_cons, exists_eq_or_imp, ha, reduceCtorEq, false_or, ← ih]
      cases l.mapM f with
      | none => simp
      | some bs => simp

end OrPanic
