import Mathlib.Data.List.Nodup
import Mathlib.Data.List.Basic

/-! Reading a path off a predecessor array.

    A search that records a predecessor for each node it improves reads its path back by following
    the predecessors from the destination. The array may hold a cycle, so the walk carries a bound
    on the path and gives up beyond it. Whatever the array holds, a walk that ends is simple:
    the rest of a walk depends on the current node alone, so a repeated node repeats for ever.

        dest ──▶ pred dest ──▶ ... ──▶ source      (stop)
                                  └──▶ none        (stop)
                                  └──▶ longer than k (give up) -/

namespace PredWalk
variable {α : Type}

/-- `Exits pred source c l`: the walk from `c` pushes exactly `l` and stops. -/
inductive Exits (pred : α → Option α) (source : α) : α → List α → Prop
  | stop {c} : pred c = none → Exits pred source c []
  | hit {c} : pred c = some source → Exits pred source c [source]
  | push {c p l} : pred c = some p → p ≠ source → Exits pred source p l →
      Exits pred source c (p :: l)

variable {pred : α → Option α} {source : α}

/-- A node starts one walk only. -/
theorem Exits.unique {c : α} {l l' : List α} (h : Exits pred source c l)
    (h' : Exits pred source c l') : l = l' := by
  induction h generalizing l' with
  | stop hc => cases h' <;> simp_all
  | hit hc =>
    cases h' with
    | stop hc' => simp_all
    | hit _ => rfl
    | push hc' hne _ => exact absurd (Option.some.inj (hc'.symm.trans hc)) hne
  | push hc hne _ ih =>
    cases h' with
    | stop hc' => simp_all
    | hit hc' => exact absurd (Option.some.inj (hc.symm.trans hc')) hne
    | push hc' _ hrest =>
      obtain rfl := Option.some.inj (hc.symm.trans hc')
      rw [ih hrest]

/-- A node pushed before the source starts a strictly shorter walk. -/
theorem Exits.shorter {c x : α} {l : List α} (h : Exits pred source c l) (hx : x ∈ l)
    (hne : x ≠ source) : ∃ l', Exits pred source x l' ∧ l'.length < l.length := by
  induction h with
  | stop _ => simp at hx
  | hit _ => exact absurd (List.mem_singleton.mp hx) hne
  | push _ _ hrest ih =>
    rcases List.mem_cons.mp hx with rfl | hx
    · exact ⟨_, hrest, by simp⟩
    · obtain ⟨l', hl', hlt⟩ := ih hx
      exact ⟨l', hl', by simp only [List.length_cons]; omega⟩

/-- A walk that stops visits no node twice. -/
theorem Exits.nodup {c : α} {l : List α} (h : Exits pred source c l) (hc : c ≠ source) :
    (c :: l).Nodup := by
  have hfresh : ∀ {c l}, Exits pred source c l → c ≠ source → c ∉ l := by
    intro c l h hc hmem
    obtain ⟨l', hl', hlt⟩ := h.shorter hmem hc
    rw [h.unique hl'] at hlt
    exact Nat.lt_irrefl _ hlt
  induction h with
  | stop _ => simp
  | hit _ => simpa using hc
  | push hp hne hrest ih =>
    exact List.nodup_cons.mpr ⟨hfresh (Exits.push hp hne hrest) hc, ih hne⟩

variable [DecidableEq α]

/-- Follow `pred` from `current`, pushing each node on `path`, until `source` has been pushed or a
    node without predecessor is reached; `none` once the path is longer than `k`. -/
def walk (pred : α → Option α) (source : α) (k : ℕ) : ℕ → List α → α → Option (List α)
  | 0, _, _ => none
  | fuel + 1, path, current =>
    match pred current with
    | none => some path
    | some p =>
      if p = source then some (path ++ [p])
      else if k < (path ++ [p]).length then none
      else walk pred source k fuel (path ++ [p]) p

/-- What `walk` returns is its path extended by the nodes of a walk that stops. -/
theorem walk_exits (k : ℕ) : ∀ (fuel : ℕ) (path : List α) (c : α) (out : List α),
    walk pred source k fuel path c = some out → ∃ l, Exits pred source c l ∧ out = path ++ l
  | 0, _, _, _, h => by simp [walk] at h
  | fuel + 1, path, c, out, h => by
    unfold walk at h
    cases hp : pred c with
    | none =>
      rw [hp] at h
      exact ⟨[], Exits.stop hp, by simpa using h.symm⟩
    | some p =>
      simp only [hp] at h
      by_cases hs : p = source
      · rw [if_pos hs] at h
        exact ⟨[source], Exits.hit (hs ▸ hp), by simpa [hs] using h.symm⟩
      · rw [if_neg hs] at h
        by_cases hk : k < (path ++ [p]).length
        · rw [if_pos hk] at h; simp at h
        · rw [if_neg hk] at h
          obtain ⟨l, hl, rfl⟩ := walk_exits k fuel (path ++ [p]) p out h
          exact ⟨p :: l, Exits.push hp hs hl, by simp⟩

/-- A walk that stops within the bound is found. -/
theorem Exits.walk_eq {k : ℕ} {c : α} {l : List α} (h : Exits pred source c l) :
    ∀ {fuel : ℕ} {path : List α}, l.length < fuel → path.length + l.length ≤ k →
      walk pred source k fuel path c = some (path ++ l) := by
  induction h with
  | stop hc =>
    intro fuel path hfuel _
    obtain ⟨fuel, rfl⟩ := Nat.exists_eq_succ_of_ne_zero (Nat.ne_zero_of_lt hfuel)
    rw [walk, hc, List.append_nil]
  | hit hc =>
    intro fuel path hfuel _
    obtain ⟨fuel, rfl⟩ := Nat.exists_eq_succ_of_ne_zero (Nat.ne_zero_of_lt hfuel)
    rw [walk, hc]
    exact if_pos rfl
  | @push c p l hc hne _ ih =>
    intro fuel path hfuel hk
    obtain ⟨fuel, rfl⟩ := Nat.exists_eq_succ_of_ne_zero (Nat.ne_zero_of_lt hfuel)
    rw [List.length_cons] at hfuel hk
    have hlen : (path ++ [p]).length = path.length + 1 := List.length_append
    have hbound : ¬ k < (path ++ [p]).length := by omega
    rw [walk, hc]
    simp only [if_neg hne, if_neg hbound]
    rw [ih (by omega) (by omega), List.append_assoc, List.singleton_append]

end PredWalk
