import Mathlib.Order.Basic
import Mathlib.Data.List.Basic

/-! Undominated elements of a finite list under a strict order.

    Every element of a finite list is undominated or dominated by an undominated one. The relation
    need only be irreflexive and transitive: incomparable and equivalent elements are allowed. -/

namespace Dominance
variable {α : Type} (dom : α → α → Prop)

/-- `a` is dominated by nothing in `l`. -/
def Undominated (l : List α) (a : α) : Prop := ∀ b ∈ l, ¬ dom b a

variable {dom} (irrefl : ∀ a, ¬ dom a a) (trans : ∀ {a b c}, dom a b → dom b c → dom a c)
include irrefl trans

/-- Induction on the list: a new head either is beaten by the tail's witness or replaces it. -/
theorem exists_undominated_above : ∀ (l : List α) (a : α), a ∈ l →
    ∃ b ∈ l, Undominated dom l b ∧ (b = a ∨ dom b a)
  | [], _, ha => by simp at ha
  | x :: xs, a, ha => by
    classical
    -- it is enough to find a witness in the tail, or to use `x` itself
    have tail : ∀ b ∈ xs, Undominated dom xs b → (b = a ∨ dom b a) →
        ∃ b ∈ x :: xs, Undominated dom (x :: xs) b ∧ (b = a ∨ dom b a) := by
      intro b hb hund hba
      by_cases hxb : dom x b
      · refine ⟨x, List.mem_cons_self, ?_, Or.inr ?_⟩
        · intro c hc hcx
          rcases List.mem_cons.mp hc with rfl | hc
          · exact irrefl c hcx
          · exact hund c hc (trans hcx hxb)
        · rcases hba with rfl | hba
          · exact hxb
          · exact trans hxb hba
      · refine ⟨b, List.mem_cons_of_mem _ hb, ?_, hba⟩
        intro c hc
        rcases List.mem_cons.mp hc with rfl | hc
        · exact hxb
        · exact hund c hc
    rcases List.mem_cons.mp ha with rfl | ha
    · by_cases hx : ∃ c ∈ xs, dom c a
      · obtain ⟨c, hc, hca⟩ := hx
        obtain ⟨b, hb, hund, hbc⟩ := exists_undominated_above xs c hc
        refine tail b hb hund (Or.inr ?_)
        rcases hbc with rfl | hbc
        · exact hca
        · exact trans hbc hca
      · refine ⟨a, List.mem_cons_self, ?_, Or.inl rfl⟩
        intro c hc hca
        rcases List.mem_cons.mp hc with rfl | hc
        · exact irrefl c hca
        · exact hx ⟨c, hc, hca⟩
    · obtain ⟨b, hb, hund, hba⟩ := exists_undominated_above xs a ha
      exact tail b hb hund hba

end Dominance
