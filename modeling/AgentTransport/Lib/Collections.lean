import Mathlib.Algebra.BigOperators.Group.Finset.Piecewise
import Mathlib.Data.List.AList
import Mathlib.Data.List.Nodup

/-! Collections of a standard library that a program relies on: hash maps, whose iteration order is
    arbitrary, lists that are edited and counted by key, loops that stop at the first failure, and
    `retain` with a set of the keys seen so far. -/

namespace Collections

/-- A hash map: at most one value for each key. -/
abbrev HashMap (K V : Type) := AList (fun _ : K => V)

/-- The order in which one hash map yields its elements: some permutation, fixed by its hasher. -/
structure RandomState (α : Type) where
  order : List α → List α
  perm : ∀ l, (order l).Perm l

/-- The hasher that yields elements in insertion order. -/
def RandomState.insertion (α : Type) : RandomState α := ⟨id, fun l => List.Perm.refl l⟩

@[simp] theorem RandomState.mem_order {α : Type} (hs : RandomState α) {l : List α} {a : α} :
    a ∈ hs.order l ↔ a ∈ l := (hs.perm l).mem_iff

section HashMap
variable {K V : Type} [DecidableEq K]

/-- `entry(k).or_insert_with(new)` followed by an update of the entry. -/
def HashMap.upsert (m : HashMap K V) (k : K) (new : V) (f : V → V) : HashMap K V :=
  m.insert k (f ((m.lookup k).getD new))

/-- `if let Some(v) = get_mut(k) { *v = f(v) }`. -/
def HashMap.adjust (m : HashMap K V) (k : K) (f : V → V) : HashMap K V :=
  match m.lookup k with
  | some v => m.insert k (f v)
  | none => m

theorem lookup_upsert (m : HashMap K V) (k k' : K) (new : V) (f : V → V) :
    (m.upsert k new f).lookup k' =
      if k' = k then some (f ((m.lookup k).getD new)) else m.lookup k' := by
  rcases eq_or_ne k' k with rfl | h
  · simp [HashMap.upsert]
  · rw [if_neg h]; exact AList.lookup_insert_ne h

theorem lookup_adjust (m : HashMap K V) (k k' : K) (f : V → V) :
    (m.adjust k f).lookup k' = if k' = k then (m.lookup k).map f else m.lookup k' := by
  unfold HashMap.adjust
  rcases eq_or_ne k' k with rfl | h
  · cases hl : m.lookup k' <;> simp [hl]
  · rw [if_neg h]
    cases hl : m.lookup k with
    | none => rfl
    | some v => exact AList.lookup_insert_ne h

/-- The values of a hash map, in the order its hasher gives the keys. -/
def HashMap.values (hs : RandomState K) (m : HashMap K V) : List V :=
  (hs.order m.keys).filterMap m.lookup

theorem lookup_erase (m : HashMap K V) (k k' : K) :
    (m.erase k).lookup k' = if k' = k then none else m.lookup k' := by
  rcases eq_or_ne k' k with rfl | h
  · rw [if_pos rfl, AList.lookup_erase]
  · rw [if_neg h, AList.lookup_erase_ne h]

/-- A map from keys to lists of elements, each under its own key. -/
def HashMap.Indexes {α : Type} (key : α → K) (m : HashMap K (List α)) : Prop :=
  ∀ k l, m.lookup k = some l → ∀ a ∈ l, key a = k

section Indexes
variable {α : Type} {key : α → K} {m : HashMap K (List α)}

theorem filter_flatten_lookups (h : m.Indexes key) (k : K) {keys : List K} (hnd : keys.Nodup) :
    (keys.filterMap m.lookup).flatten.filter (fun a => key a = k) =
      if k ∈ keys then (m.lookup k).getD [] else [] := by
  induction keys with
  | nil => rfl
  | cons k' keys ih =>
    obtain ⟨hk', hnd⟩ := List.nodup_cons.mp hnd
    -- the entries under a key are all of that key, or none of them is of another
    have hfirst : ((m.lookup k').getD []).filter (fun a => key a = k) =
        if k = k' then (m.lookup k).getD [] else [] := by
      cases hl : m.lookup k' with
      | none =>
        rcases eq_or_ne k k' with rfl | hne
        · simp [hl]
        · simp [hne]
      | some l =>
        rcases eq_or_ne k k' with rfl | hne
        · rw [if_pos rfl, hl]
          exact List.filter_eq_self.mpr fun a ha => decide_eq_true (h k l hl a ha)
        · rw [if_neg hne]
          refine List.filter_eq_nil_iff.mpr fun a ha hka => hne ?_
          rw [← of_decide_eq_true hka, h k' l hl a ha]
    have hsplit : ((k' :: keys).filterMap m.lookup).flatten =
        (m.lookup k').getD [] ++ (keys.filterMap m.lookup).flatten := by
      cases hl : m.lookup k' <;> simp [hl]
    rw [hsplit, List.filter_append, hfirst, ih hnd]
    rcases eq_or_ne k k' with rfl | hne
    · simp [hk']
    · simp [hne]

/-- Flattening an index and filtering by a key is the lookup of that key, in any order. -/
theorem filter_flatten_values (h : m.Indexes key) (hs : RandomState K) (k : K) :
    (m.values hs).flatten.filter (fun a => key a = k) = (m.lookup k).getD [] := by
  rw [HashMap.values,
    filter_flatten_lookups h k ((hs.perm m.keys).nodup_iff.mpr (AList.keys_nodup m))]
  split_ifs with hk
  · rfl
  · rw [hs.mem_order, ← AList.mem_keys] at hk
    rw [AList.lookup_eq_none.mpr hk]
    rfl

/-- Lists with the same elements of each key, in the same order, are permutations of one
    another. -/
theorem perm_of_filter_eq (key : α → K) {l l' : List α}
    (h : ∀ k, l.filter (fun a => key a = k) = l'.filter (fun a => key a = k)) : l.Perm l' := by
  classical
  refine List.perm_iff_count.mpr fun a => ?_
  have hcount : ∀ xs : List α, (xs.filter (fun x => key x = key a)).count a = xs.count a :=
    fun xs => List.count_filter (decide_eq_true rfl)
  rw [← hcount l, h (key a), hcount l']

/-- An index that holds for each key the elements of a list with that key holds as many elements
    as the list. -/
theorem length_flatten_values {l : List α} (hs : RandomState K)
    (h : ∀ k, (m.lookup k).getD [] = l.filter (fun a => key a = k)) :
    (m.values hs).flatten.length = l.length := by
  have hindex : m.Indexes key := by
    intro k records hk a ha
    have hmem : a ∈ l.filter (fun a => key a = k) := by
      rw [← h k, hk]
      exact ha
    exact of_decide_eq_true (List.mem_filter.mp hmem).2
  refine (perm_of_filter_eq key fun k => ?_).length_eq
  rw [filter_flatten_values hindex hs k, h k]

end Indexes

end HashMap

/-- What is found in a list with one more element was there before, or is that element. -/
theorem getElem?_concat_eq_some {α : Type} {l : List α} {x y : α} {i : ℕ} :
    (l ++ [x])[i]? = some y ↔ l[i]? = some y ∨ i = l.length ∧ y = x := by
  rcases Nat.lt_trichotomy i l.length with hi | rfl | hi
  · rw [List.getElem?_append_left hi]
    exact (or_iff_left fun h => Nat.ne_of_lt hi h.1).symm
  · simp [eq_comm]
  · have hlen : (l ++ [x]).length ≤ i := by rw [List.length_append]; exact hi
    rw [List.getElem?_eq_none hlen, List.getElem?_eq_none (Nat.le_of_lt hi)]
    simp [Nat.ne_of_gt hi]

section Filter
variable {α κ M : Type} [DecidableEq κ] (key : α → κ)

/-- Dropping one key, and looking for one. -/
theorem filter_filter_ne (k k' : κ) (l : List α) :
    (l.filter fun x => key x ≠ k).filter (fun x => key x = k') =
      if k' = k then [] else l.filter fun x => key x = k' := by
  rw [List.filter_filter]
  split_ifs with h
  · subst h
    exact List.filter_eq_nil_iff.mpr fun x _ => by simp
  · refine List.filter_congr fun x _ => ?_
    by_cases hx : key x = k' <;> simp [hx, h]

/-- Replacing the element of one key, and looking for one. -/
theorem filter_replace (x : α) (k : κ) (l : List α) :
    (l.filter (fun y => key y ≠ key x) ++ [x]).filter (fun y => key y = k) =
      if k = key x then [x] else l.filter fun y => key y = k := by
  rw [List.filter_append, filter_filter_ne]
  split_ifs with h
  · simp [h]
  · simp [Ne.symm h]

/-- A sum over a list is the sum over the elements of each of its keys. -/
theorem sum_map_eq_sum_filter [AddCommMonoid M] (f : α → M) (l : List α) {keys : Finset κ}
    (h : ∀ x ∈ l, key x ∈ keys) :
    (l.map f).sum = ∑ k ∈ keys, ((l.filter fun x => key x = k).map f).sum := by
  induction l with
  | nil => simp
  | cons x l ih =>
    have hx : key x ∈ keys := h x List.mem_cons_self
    have hsplit : ∀ k, (((x :: l).filter fun y => key y = k).map f).sum =
        (if key x = k then f x else 0) + ((l.filter fun y => key y = k).map f).sum := by
      intro k
      by_cases hk : key x = k <;> simp [hk]
    simp only [hsplit]
    rw [Finset.sum_add_distrib, Finset.sum_ite_eq, if_pos hx, List.map_cons, List.sum_cons,
      ih fun y hy => h y (List.mem_cons_of_mem _ hy)]

/-- A list falls into the elements of each of its keys. -/
theorem length_eq_sum_filter (l : List α) {keys : Finset κ} (h : ∀ x ∈ l, key x ∈ keys) :
    l.length = ∑ k ∈ keys, (l.filter fun x => key x = k).length := by
  have hcount := sum_map_eq_sum_filter key (fun _ => 1) l h
  simpa using hcount

end Filter

section MapM
variable {α β : Type} {f : α → Option β}

/-- A loop that fails on the first failing element succeeds when every element does. -/
theorem mapM_eq_some_iff {l : List α} {l' : List β} :
    l.mapM f = some l' ↔ List.Forall₂ (fun a b => f a = some b) l l' := by
  induction l generalizing l' with
  | nil =>
    rw [List.mapM_nil, List.forall₂_nil_left_iff]
    exact Option.some_inj.trans eq_comm
  | cons a l ih =>
    rw [List.mapM_cons]
    constructor
    · intro h
      obtain ⟨b, hb, h⟩ := Option.bind_eq_some_iff.mp h
      obtain ⟨bs, hbs, h⟩ := Option.bind_eq_some_iff.mp h
      obtain rfl := Option.some.inj h
      exact .cons hb (ih.mp hbs)
    · intro h
      cases h with
      | cons hb hbs =>
        rw [hb, ih.mpr hbs]
        rfl

theorem mapM_eq_some_map {g : α → β} {l : List α} (h : ∀ a ∈ l, f a = some (g a)) :
    l.mapM f = some (l.map g) :=
  mapM_eq_some_iff.mpr (List.forall₂_map_right_iff.mpr (List.forall₂_same.mpr h))

theorem isSome_mapM_iff {l : List α} : (l.mapM f).isSome ↔ ∀ a ∈ l, (f a).isSome := by
  induction l with
  | nil => simp
  | cons a l ih =>
    rw [List.mapM_cons, List.forall_mem_cons, ← ih]
    cases f a with
    | none => simp
    | some b => cases l.mapM f <;> simp

end MapM

section Retain
variable {α κ : Type} [DecidableEq κ] (key : α → κ)

/-- `retain(|x| seen.insert(key(x)))`: keep the first element of each key. -/
def retainNew : List κ → List α → List α
  | _, [] => []
  | seen, x :: xs =>
    if key x ∈ seen then retainNew seen xs else x :: retainNew (key x :: seen) xs

theorem retainNew_sublist : ∀ (seen : List κ) (xs : List α), (retainNew key seen xs).Sublist xs
  | _, [] => List.Sublist.refl _
  | seen, x :: xs => by
    unfold retainNew
    by_cases h : key x ∈ seen
    · rw [if_pos h]; exact (retainNew_sublist seen xs).cons x
    · rw [if_neg h]; exact (retainNew_sublist (key x :: seen) xs).cons_cons x

theorem mem_of_mem_retainNew {seen : List κ} {xs : List α} {x : α}
    (h : x ∈ retainNew key seen xs) : x ∈ xs := (retainNew_sublist key seen xs).subset h

/-- Every key not seen before survives. -/
theorem exists_mem_retainNew : ∀ (seen : List κ) (xs : List α) (x : α), x ∈ xs → key x ∉ seen →
    ∃ y ∈ retainNew key seen xs, key y = key x
  | _, [], _, hx, _ => by simp at hx
  | seen, z :: zs, x, hx, hseen => by
    unfold retainNew
    by_cases hz : key z ∈ seen
    · rw [if_pos hz]
      rcases List.mem_cons.mp hx with rfl | hx
      · exact absurd hz hseen
      · exact exists_mem_retainNew seen zs x hx hseen
    · rw [if_neg hz]
      by_cases hk : key x = key z
      · exact ⟨z, List.mem_cons_self, hk.symm⟩
      · have hx' : x ∈ zs := (List.mem_cons.mp hx).resolve_left (fun h => hk (by rw [h]))
        have hns : key x ∉ key z :: seen := by simp [hk, hseen]
        obtain ⟨y, hy, hyk⟩ := exists_mem_retainNew (key z :: seen) zs x hx' hns
        exact ⟨y, List.mem_cons_of_mem _ hy, hyk⟩

/-- The keys that survive are new, and different. -/
theorem nodup_map_retainNew : ∀ (seen : List κ) (xs : List α),
    ((retainNew key seen xs).map key).Nodup ∧ ∀ x ∈ retainNew key seen xs, key x ∉ seen
  | _, [] => ⟨List.nodup_nil, by simp [retainNew]⟩
  | seen, x :: xs => by
    unfold retainNew
    by_cases h : key x ∈ seen
    · rw [if_pos h]
      exact nodup_map_retainNew seen xs
    · obtain ⟨hnd, hnew⟩ := nodup_map_retainNew (key x :: seen) xs
      rw [if_neg h, List.map_cons, List.nodup_cons]
      refine ⟨⟨fun hx => ?_, hnd⟩, fun y hy => ?_⟩
      · obtain ⟨y, hy, hyx⟩ := List.mem_map.mp hx
        exact hnew y hy (by simp [hyx])
      · rcases List.mem_cons.mp hy with rfl | hy
        · exact h
        · exact fun hseen => hnew y hy (List.mem_cons_of_mem _ hseen)

/-- The first element is new. -/
theorem head?_retainNew (xs : List α) : (retainNew key [] xs).head? = xs.head? := by
  cases xs with
  | nil => rfl
  | cons x xs => simp [retainNew]

theorem retainNew_ne_nil {xs : List α} (h : xs ≠ []) : retainNew key [] xs ≠ [] := by
  obtain ⟨x, hx⟩ := List.exists_mem_of_ne_nil xs h
  obtain ⟨y, hy, _⟩ := exists_mem_retainNew key [] xs x hx (by simp)
  exact List.ne_nil_of_mem hy

end Retain

/-! ### `Result::ok` -/

theorem eq_ok_of_toOption {ε α : Type} {e : Except ε α} {a : α} (h : e.toOption = some a) :
    e = .ok a := by
  cases e with
  | ok b => rw [Option.some.inj h]
  | error e => cases h

end Collections
