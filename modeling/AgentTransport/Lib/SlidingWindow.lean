import Mathlib.Algebra.Order.Group.Defs
import Mathlib.Algebra.Order.Monoid.Unbundled.Basic
import Mathlib.Data.Finset.Card

/-! Distinct keys in a sliding window over a log.

    Every record of a log has a key and a time, and the log is in time order. `within` is what a
    window that ends now still sees of it. Pruning the log to that window loses nothing a later
    window needs, and whether some window was ever crowded is decided one record at a time. -/

namespace SlidingWindow

section Distinct
variable {α κ : Type} [DecidableEq κ] (key : α → κ)

/-- The number of distinct keys of some records. -/
def distinct (l : List α) : ℕ := (l.map key).dedup.length

theorem distinct_eq_card (l : List α) : distinct key l = (l.map key).toFinset.card :=
  (List.card_toFinset _).symm

theorem distinct_mono {l l' : List α} (h : ∀ x ∈ l, x ∈ l') : distinct key l ≤ distinct key l' := by
  rw [distinct_eq_card, distinct_eq_card]
  refine Finset.card_le_card fun k hk => ?_
  rw [List.mem_toFinset, List.mem_map] at hk ⊢
  obtain ⟨x, hx, rfl⟩ := hk
  exact ⟨x, h x hx, rfl⟩

theorem distinct_concat_le (l : List α) (x : α) : distinct key (l ++ [x]) ≤ distinct key l + 1 := by
  rw [distinct_eq_card, distinct_eq_card, List.map_append, List.toFinset_append]
  refine (Finset.card_union_le _ _).trans (Nat.add_le_add_left ?_ _)
  simp

theorem distinct_pos {l : List α} (h : l ≠ []) : 0 < distinct key l := by
  obtain ⟨x, hx⟩ := List.exists_mem_of_ne_nil l h
  rw [distinct_eq_card]
  exact Finset.card_pos.mpr ⟨key x, List.mem_toFinset.mpr (List.mem_map_of_mem hx)⟩

end Distinct

/-- The log is in time order. -/
def Ordered {α τ : Type} [LE τ] (time : α → τ) (l : List α) : Prop :=
  l.Pairwise fun r r' => time r ≤ time r'

theorem Ordered.of_concat {α τ : Type} [LE τ] {time : α → τ} {l : List α} {x : α}
    (h : Ordered time (l ++ [x])) : Ordered time l ∧ ∀ r ∈ l, time r ≤ time x := by
  obtain ⟨hl, _, hx⟩ := List.pairwise_append.mp h
  exact ⟨hl, fun r hr => hx r hr x (List.mem_singleton_self x)⟩

section Window
variable {α κ τ : Type} [DecidableEq κ] [AddCommGroup τ] [LinearOrder τ] (key : α → κ)
  (time : α → τ) (width : τ)

/-- The records not older than `width` at time `s`. -/
def within (s : τ) (l : List α) : List α := l.filter fun r => decide (s - width ≤ time r)

/-- The records of the window that ends at time `s`. -/
def window (s : τ) (l : List α) : List α :=
  l.filter fun r => decide (s - width ≤ time r ∧ time r ≤ s)

/-- The window that ends at some record has at least `n` distinct keys. -/
def Crowded (n : ℕ) (l : List α) : Prop := ∃ r ∈ l, n ≤ distinct key (window time width (time r) l)

theorem within_append (s : τ) (l l' : List α) :
    within time width s (l ++ l') = within time width s l ++ within time width s l' :=
  List.filter_append ..

theorem within_eq_window {s : τ} {l : List α} (h : ∀ r ∈ l, time r ≤ s) :
    within time width s l = window time width s l :=
  List.filter_congr fun r hr => by simp [h r hr]

/-- Pruning for an earlier window keeps what a later one sees. -/
theorem within_within [IsOrderedAddMonoid τ] {s s' : τ} (h : s ≤ s') (l : List α) :
    within time width s' (within time width s l) = within time width s' l := by
  unfold within
  rw [List.filter_filter]
  refine List.filter_congr fun r _ => ?_
  rw [Bool.and_eq_left_iff_imp, decide_eq_true_iff, decide_eq_true_iff]
  exact (sub_le_sub_right h width).trans

variable {key time width}

/-- A log that never was crowded has few distinct keys in any window that ends now. -/
theorem distinct_within_lt [IsOrderedAddMonoid τ] {n : ℕ} (hn : 0 < n) {l : List α}
    (hl : Ordered time l) (h : ¬ Crowded key time width n l) {s : τ} (hs : ∀ r ∈ l, time r ≤ s) :
    distinct key (within time width s l) < n := by
  rcases List.eq_nil_or_concat l with rfl | ⟨l, x, rfl⟩
  · simpa [within, distinct] using hn
  · rw [List.concat_eq_append] at hl h hs ⊢
    have hlast : x ∈ l ++ [x] := by simp
    -- the window that ends at the last record sees as much
    refine lt_of_le_of_lt (distinct_mono key fun r hr => ?_)
      (not_le.mp fun hle => h ⟨x, hlast, hle⟩)
    obtain ⟨hr, hin⟩ := List.mem_filter.mp hr
    have hrx : time r ≤ time x := by
      rcases List.mem_append.mp hr with hr | hr
      · exact hl.of_concat.2 r hr
      · rw [List.mem_singleton.mp hr]
    refine List.mem_filter.mpr ⟨hr, ?_⟩
    rw [decide_eq_true_iff] at hin ⊢
    exact ⟨(sub_le_sub_right (hs x hlast) width).trans hin, hrx⟩

/-- One more record crowds a log only in the window that ends at it. -/
theorem crowded_concat {n : ℕ} {l : List α} {x : α} (hl : Ordered time (l ++ [x])) :
    Crowded key time width n (l ++ [x]) ↔ Crowded key time width n l ∨
      n ≤ distinct key (within time width (time x) (l ++ [x])) := by
  have hle : ∀ r ∈ l ++ [x], time r ≤ time x := by
    intro r hr
    rcases List.mem_append.mp hr with hr | hr
    · exact hl.of_concat.2 r hr
    · rw [List.mem_singleton.mp hr]
  constructor
  · rintro ⟨r, hr, hn⟩
    by_cases hrx : time r = time x
    · right
      rwa [within_eq_window _ _ hle, ← hrx]
    · -- the new record is later than this window
      left
      have hlt : time r < time x := lt_of_le_of_ne (hle r hr) hrx
      have hrl : r ∈ l := by
        rcases List.mem_append.mp hr with hr | hr
        · exact hr
        · exact absurd (by rw [List.mem_singleton.mp hr]) hrx
      refine ⟨r, hrl, ?_⟩
      rwa [window, List.filter_append, List.filter_cons_of_neg (by simp [hlt]), List.filter_nil,
        List.append_nil] at hn
  · rintro (⟨r, hr, hn⟩ | hn)
    · refine ⟨r, List.mem_append_left _ hr, hn.trans (distinct_mono key fun y hy => ?_)⟩
      obtain ⟨hy, hin⟩ := List.mem_filter.mp hy
      exact List.mem_filter.mpr ⟨List.mem_append_left _ hy, hin⟩
    · exact ⟨x, by simp, by rwa [within_eq_window _ _ hle] at hn⟩

/-- Every record sees itself. -/
theorem crowded_one {l : List α} [IsOrderedAddMonoid τ] (hw : 0 ≤ width) (hl : l ≠ []) :
    Crowded key time width 1 l := by
  obtain ⟨x, hx⟩ := List.exists_mem_of_ne_nil l hl
  have hself : x ∈ window time width (time x) l :=
    List.mem_filter.mpr ⟨hx, decide_eq_true ⟨sub_le_self _ hw, le_refl _⟩⟩
  exact ⟨x, hx, distinct_pos key (List.ne_nil_of_mem hself)⟩

end Window

end SlidingWindow
