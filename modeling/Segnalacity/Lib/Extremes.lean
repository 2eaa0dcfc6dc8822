import Mathlib.Algebra.BigOperators.Group.List.Basic
import Mathlib.Algebra.Order.BigOperators.Group.List
import Mathlib.Algebra.Order.Field.Basic
import Mathlib.Order.Bounds.Basic

/-! # Running extremes and means

The smallest value met while scanning a list, kept in an accumulator that starts at a value nothing
exceeds, is the least element of the list (`isLeast_foldl_min`), and dually for the largest.
`Spans l lo hi` says that `lo` and `hi` are the two; the mean of the list lies between them
(`Spans.mean`). -/

namespace Extremes

section order
variable {α : Type} [LinearOrder α]

theorem isLeast_foldl_min_cons (a : α) (l : List α) :
    IsLeast {x | x ∈ a :: l} (l.foldl min a) := by
  induction l generalizing a with
  | nil =>
      refine ⟨List.mem_cons_self, fun x hx => ?_⟩
      rw [List.mem_singleton.mp hx]
      exact le_rfl
  | cons b l ih =>
      obtain ⟨hmem, hlower⟩ := ih (min a b)
      have hmin : l.foldl min (min a b) ≤ min a b := hlower List.mem_cons_self
      constructor
      · rcases List.mem_cons.mp hmem with heq | hin
        · show l.foldl min (min a b) ∈ a :: b :: l
          rw [heq]
          rcases min_choice a b with h | h
          · rw [h]
            exact List.mem_cons_self
          · rw [h]
            exact List.mem_cons_of_mem a List.mem_cons_self
        · exact List.mem_cons_of_mem a (List.mem_cons_of_mem b hin)
      · intro x hx
        rcases List.mem_cons.mp hx with rfl | hx
        · exact hmin.trans (min_le_left _ _)
        · rcases List.mem_cons.mp hx with rfl | hx
          · exact hmin.trans (min_le_right _ _)
          · exact hlower (List.mem_cons_of_mem _ hx)

/-- Of a list that is not empty, when the start is above all of it. -/
theorem isLeast_foldl_min {a : α} {l : List α} (hne : l ≠ []) (ha : ∀ x ∈ l, x ≤ a) :
    IsLeast {x | x ∈ l} (l.foldl min a) := by
  obtain ⟨hmem, hlower⟩ := isLeast_foldl_min_cons a l
  have hle : ∀ x ∈ l, l.foldl min a ≤ x := fun x hx => hlower (List.mem_cons_of_mem a hx)
  refine ⟨?_, hle⟩
  rcases List.mem_cons.mp hmem with heq | hin
  · obtain ⟨b, hb⟩ := List.exists_mem_of_ne_nil l hne
    have hba : b = l.foldl min a := le_antisymm ((ha b hb).trans heq.ge) (hle b hb)
    show l.foldl min a ∈ l
    rw [← hba]
    exact hb
  · exact hin

theorem isGreatest_foldl_max {a : α} {l : List α} (hne : l ≠ []) (ha : ∀ x ∈ l, a ≤ x) :
    IsGreatest {x | x ∈ l} (l.foldl max a) :=
  isLeast_foldl_min (α := αᵒᵈ) hne ha

/-- The least and the greatest element of a list. -/
structure Spans (l : List α) (lo hi : α) : Prop where
  least : IsLeast {x | x ∈ l} lo
  greatest : IsGreatest {x | x ∈ l} hi

theorem spans_foldl {a b : α} {l : List α} (hne : l ≠ []) (ha : ∀ x ∈ l, x ≤ a)
    (hb : ∀ x ∈ l, b ≤ x) : Spans l (l.foldl min a) (l.foldl max b) :=
  ⟨isLeast_foldl_min hne ha, isGreatest_foldl_max hne hb⟩

/-- A value lies between the extremes when it lies between two elements. -/
theorem Spans.between_iff {l : List α} {lo hi x : α} (h : Spans l lo hi) :
    lo ≤ x ∧ x ≤ hi ↔ (∃ a ∈ l, a ≤ x) ∧ ∃ b ∈ l, x ≤ b := by
  constructor
  · rintro ⟨hlo, hhi⟩
    exact ⟨⟨lo, h.least.1, hlo⟩, hi, h.greatest.1, hhi⟩
  · rintro ⟨⟨a, ha, hax⟩, b, hb, hxb⟩
    exact ⟨(h.least.2 ha).trans hax, hxb.trans (h.greatest.2 hb)⟩

/-- An interval that has all the elements has the extremes. -/
theorem Spans.narrowest {l : List α} {lo hi c d : α} (h : Spans l lo hi)
    (hall : ∀ x ∈ l, c ≤ x ∧ x ≤ d) : c ≤ lo ∧ hi ≤ d :=
  ⟨(hall lo h.least.1).1, (hall hi h.greatest.1).2⟩

end order

/-- The mean lies between them. -/
theorem Spans.mean {K : Type} [Field K] [LinearOrder K] [IsStrictOrderedRing K] {l : List K}
    {a b : K} (h : Spans l a b) : a ≤ l.sum / l.length ∧ l.sum / l.length ≤ b := by
  have hne : l ≠ [] := List.ne_nil_of_mem h.least.1
  have hpos : (0 : K) < l.length := Nat.cast_pos.mpr (List.length_pos_of_ne_nil hne)
  constructor
  · rw [le_div_iff₀ hpos, mul_comm, ← nsmul_eq_mul]
    exact List.card_nsmul_le_sum l a fun x hx => h.least.2 hx
  · rw [div_le_iff₀ hpos, mul_comm, ← nsmul_eq_mul]
    exact List.sum_le_card_nsmul l b fun x hx => h.greatest.2 hx

end Extremes
