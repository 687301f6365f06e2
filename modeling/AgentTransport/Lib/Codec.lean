import Mathlib.Data.List.Basic

/-! Encoders that always answer and decoders that can refuse: how the two invert each other on a
    list when they do on its elements, and how an accepted input is taken apart. -/

namespace Codec
variable {A B C ε : Type}

/-- `Option::ok_or`: the value that must be there. -/
def okOr (o : Option A) (e : ε) : Except ε A := o.elim (.error e) .ok

@[simp] theorem okOr_some (a : A) (e : ε) : okOr (some a) e = .ok a := rfl

theorem okOr_eq_ok {o : Option A} {e : ε} {a : A} : okOr o e = .ok a ↔ o = some a := by
  cases o <;> simp [okOr]

/-- A decoder that accepts has accepted at every step. -/
theorem bind_eq_ok {x : Except ε A} {f : A → Except ε B} {b : B} :
    (x >>= f) = .ok b ↔ ∃ a, x = .ok a ∧ f a = .ok b := by
  cases x <;> simp [bind, Except.bind]

@[simp] theorem ok_bind (a : A) (f : A → Except ε B) : (Except.ok a >>= f) = f a := rfl

@[simp] theorem pure_eq_ok (a : A) : (pure a : Except ε A) = .ok a := rfl

/-- A loop that fails on the first missing value succeeds when every value is there. -/
theorem mapM_okOr_eq_ok {f : A → Option B} {e : ε} : ∀ {l : List A} {l' : List B},
    l.mapM (fun a => okOr (f a) e) = .ok l' ↔ l.mapM f = some l'
  | [], l' => by simp [List.mapM_nil]
  | a :: l, l' => by
    simp only [List.mapM_cons, bind_eq_ok, okOr_eq_ok, mapM_okOr_eq_ok, pure_eq_ok,
      Except.ok.injEq, Option.bind_eq_bind, Option.bind_eq_some_iff, Option.pure_def,
      Option.some.injEq]

section List
variable {dec : B → Except ε A} {enc : A → B}

/-- A list whose elements decode to what they were decodes to what it was. -/
theorem mapM_map_enc (h : ∀ a, dec (enc a) = .ok a) : ∀ l : List A, (l.map enc).mapM dec = .ok l
  | [] => rfl
  | a :: l => by
    rw [List.map_cons, List.mapM_cons, h a, ok_bind, mapM_map_enc h l]
    rfl

/-- What an accepted list encodes to is seen like the list, if that holds of its elements. -/
theorem map_enc_of_mapM {view : B → C} (h : ∀ b a, dec b = .ok a → view (enc a) = view b) :
    ∀ (l : List B) (as : List A), l.mapM dec = .ok as → (as.map enc).map view = l.map view
  | [], as, hl => by
    cases hl
    rfl
  | b :: l, as, hl => by
    rw [List.mapM_cons, bind_eq_ok] at hl
    obtain ⟨a, ha, hrest⟩ := hl
    obtain ⟨rest, htail, has⟩ := bind_eq_ok.mp hrest
    cases has
    rw [List.map_cons, List.map_cons, List.map_cons, h b a ha, map_enc_of_mapM h l rest htail]

end List

end Codec
