import Mathlib.Data.List.Basic

/-! Rules for loops over a list: an invariant, a loop that cannot fail because its invariant says
    so, a loop simulated by another, and what one element of the list brings about. -/

namespace Loops
variable {σ τ α : Type} {l : List α} {s : σ}

/-- What every step keeps, the loop keeps. -/
theorem foldl_invariant {P : σ → Prop} {f : σ → α → σ} : ∀ {l : List α} {s : σ},
    (∀ s, ∀ a ∈ l, P s → P (f s a)) → P s → P (l.foldl f s)
  | [], _, _, h => h
  | a :: l, s, hstep, h =>
    foldl_invariant (l := l) (fun s b hb => hstep s b (List.mem_cons_of_mem a hb))
      (hstep s a List.mem_cons_self h)

/-- What one element brings about and every step keeps holds after the loop. -/
theorem foldl_reaches {P Q : σ → Prop} {f : σ → α → σ} {a : α} (ha : a ∈ l)
    (hP : ∀ s, ∀ b ∈ l, P s → P (f s b)) (hreach : ∀ s, P s → Q (f s a))
    (hQ : ∀ s b, Q s → Q (f s b)) (h : P s) : Q (l.foldl f s) := by
  obtain ⟨pre, post, rfl⟩ := List.append_of_mem ha
  rw [List.foldl_append, List.foldl_cons]
  have hpre : P (pre.foldl f s) :=
    foldl_invariant (fun s b hb => hP s b (List.mem_append_left _ hb)) h
  exact foldl_invariant (fun s b _ => hQ s b) (hreach _ hpre)

/-- A loop that may fail runs to its end while an invariant carries every step. -/
theorem foldlM_invariant {P : σ → Prop} {f : σ → α → Option σ} : ∀ {l : List α} {s : σ},
    (∀ s, ∀ a ∈ l, P s → ∃ s', f s a = some s' ∧ P s') → P s →
    ∃ s', l.foldlM f s = some s' ∧ P s'
  | [], s, _, h => ⟨s, rfl, h⟩
  | a :: l, s, hstep, h => by
    obtain ⟨s₁, hs₁, h₁⟩ := hstep s a List.mem_cons_self h
    obtain ⟨s₂, hs₂, h₂⟩ := foldlM_invariant
      (fun s b hb => hstep s b (List.mem_cons_of_mem a hb)) h₁
    exact ⟨s₂, by rw [List.foldlM_cons, hs₁]; exact hs₂, h₂⟩

/-- A loop that may fail does what another does, seen through `view`, as long as each step does and
    keeps the invariant. -/
theorem foldlM_simulates {P : σ → Prop} {view : σ → τ} {f : τ → α → Option τ} {g : σ → α → σ} :
    ∀ {l : List α} {s : σ},
    (∀ s, ∀ a ∈ l, P s → f (view s) a = some (view (g s a)) ∧ P (g s a)) → P s →
    l.foldlM f (view s) = some (view (l.foldl g s))
  | [], _, _, _ => rfl
  | a :: l, s, hstep, h => by
    obtain ⟨hf, hP⟩ := hstep s a List.mem_cons_self h
    rw [List.foldlM_cons, hf, List.foldl_cons]
    exact foldlM_simulates (fun s b hb => hstep s b (List.mem_cons_of_mem a hb)) hP

end Loops
