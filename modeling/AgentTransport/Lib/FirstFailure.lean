import Mathlib.Data.List.Basic

/-! Collecting the results of fallible computations. Each may panic (`none`), fail or return; they
    run one after the other, and the first that does not return ends the loop. -/

namespace Collections
variable {α β ε : Type}

/-- `map(f).collect::<Result<Vec<_>, _>>()`. -/
def collect (f : α → Option (Except ε β)) : List α → Option (Except ε (List β))
  | [] => some (.ok [])
  | a :: as =>
    match f a with
    | none => none
    | some (.error e) => some (.error e)
    | some (.ok b) => (collect f as).map fun r => r.map (b :: ·)

variable {f : α → Option (Except ε β)} {g : α → β} {p : α → Prop} {l : List α} {e : ε}

/-- All of them return, when `p` says which do and `g` says with what. -/
theorem collect_eq_ok_iff (hf : ∀ a b, f a = some (.ok b) ↔ p a ∧ g a = b) : ∀ {l : List α} {bs},
    collect f l = some (.ok bs) ↔ (∀ a ∈ l, p a) ∧ l.map g = bs
  | [], bs => by simp [collect]
  | a :: l, bs => by
    have hok : p a → f a = some (.ok (g a)) := fun h => (hf a _).mpr ⟨h, rfl⟩
    rw [collect, List.forall_mem_cons, List.map_cons]
    cases hfa : f a with
    | none =>
      have hp : ¬ p a := mt hok (by simp [hfa])
      simp [hp]
    | some r =>
      cases r with
      | error e =>
        have hp : ¬ p a := mt hok (by simp [hfa])
        simp [hp]
      -- the first one returns, so the rest decides
      | ok b =>
        obtain ⟨hp, hb⟩ := (hf a b).mp hfa
        have ih := @collect_eq_ok_iff hf l
        constructor
        · intro h
          obtain ⟨r, hr, hok⟩ := Option.map_eq_some_iff.mp h
          cases r with
          | error e => cases hok
          | ok rest =>
            obtain ⟨hall, hrest⟩ := ih.mp hr
            exact ⟨⟨hp, hall⟩, by rw [hb, hrest]; exact Except.ok.inj hok⟩
        · rintro ⟨⟨-, hall⟩, rfl⟩
          simp only [ih.mpr ⟨hall, rfl⟩, hb]
          rfl

/-- Where none panics, the loop does not. -/
theorem collect_ne_none : ∀ {l : List α}, (∀ a ∈ l, f a ≠ none) → collect f l ≠ none
  | [], _ => by simp [collect]
  | a :: l, h => by
    obtain ⟨ha, hl⟩ := List.forall_mem_cons.mp h
    have ih := collect_ne_none hl
    rw [collect]
    cases hfa : f a with
    | none => exact absurd hfa ha
    | some r => cases r <;> simp [ih]

/-- A failed loop failed at some element, after all before it had returned. -/
theorem collect_eq_error : ∀ {l : List α}, collect f l = some (.error e) →
    ∃ pre a post, l = pre ++ a :: post ∧ (∀ x ∈ pre, ∃ b, f x = some (.ok b)) ∧
      f a = some (.error e)
  | [], h => by simp [collect] at h
  | a :: l, h => by
    rw [collect] at h
    cases hfa : f a with
    | none => simp [hfa] at h
    | some r =>
      cases r with
      | error e' =>
        simp only [hfa] at h
        cases h
        exact ⟨[], a, l, rfl, by simp, hfa⟩
      | ok b =>
        simp only [hfa] at h
        obtain ⟨r, hr, herror⟩ := Option.map_eq_some_iff.mp h
        cases r with
        | ok rest => cases herror
        | error e' =>
          cases herror
          obtain ⟨pre, x, post, rfl, hpre, hx⟩ := collect_eq_error hr
          exact ⟨a :: pre, x, post, rfl, List.forall_mem_cons.mpr ⟨⟨b, hfa⟩, hpre⟩, hx⟩

/-- An element that fails makes the loop fail, there or before, unless an earlier one panics. -/
theorem collect_fails {a : α} {l : List α} (ha : f a = some (.error e)) : ∀ {pre : List α},
    (∀ x ∈ pre, f x ≠ none) → ∃ e', collect f (pre ++ a :: l) = some (.error e')
  | [], _ => ⟨e, by simp [collect, ha]⟩
  | x :: pre, h => by
    obtain ⟨hx, hpre⟩ := List.forall_mem_cons.mp h
    obtain ⟨e', ih⟩ := collect_fails ha (l := l) hpre
    rw [List.cons_append, collect]
    cases hfx : f x with
    | none => exact absurd hfx hx
    | some r =>
      cases r with
      | error e'' => exact ⟨e'', rfl⟩
      | ok b => exact ⟨e', by simp only [ih]; rfl⟩

/-- A property of all elements, in a loop that also counts them. -/
theorem forall_zipIdx : (∀ x ∈ l.zipIdx, p x.1) ↔ ∀ a ∈ l, p a := by
  constructor
  · intro h a ha
    obtain ⟨i, hi⟩ := List.mem_iff_getElem?.mp ha
    exact h (a, i) (List.mem_zipIdx_iff_getElem?.mpr hi)
  · intro h x hx
    exact h x.1 (List.fst_mem_of_mem_zipIdx hx)

end Collections
