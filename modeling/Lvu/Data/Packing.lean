import Mathlib.Algebra.GroupWithZero.Nat
import Mathlib.Algebra.BigOperators.Group.List.Basic
import Mathlib.Algebra.Order.Group.Nat

/-!
# Packing a list into pages

A page is taken from the front of a list: so many items at most, and no item that takes its weight
past a limit, but for the first one.

* `page_prefix`, `length_page_le`, `page_ne_nil` : a page is a prefix, within the limit, and not
  empty.
-/

namespace Lvu.Packing

open List

variable {α : Type*} (weight : α → ℕ)

/-- The weight of a list. -/
def total (items : List α) : ℕ := (items.map weight).sum

/-- The page that goes on from `count` items of weight `sum`. -/
def page (maxCount maxWeight : ℕ) : ℕ → ℕ → List α → List α
  | _, _, [] => []
  | count, sum, item :: rest =>
    if count < maxCount then
      if count ≠ 0 ∧ maxWeight < sum + weight item then []
      else if maxWeight ≤ sum + weight item then [item]
      else item :: page maxCount maxWeight (count + 1) (sum + weight item) rest
    else []

variable {weight} {maxCount maxWeight count sum : ℕ} {items rest : List α}

@[simp] theorem total_nil : total weight [] = 0 := rfl

@[simp] theorem total_cons (item : α) : total weight (item :: items) = weight item + total weight items :=
  sum_cons

@[simp] theorem total_append : total weight (items ++ rest) = total weight items + total weight rest := by
  simp [total]

theorem page_prefix (weight : α → ℕ) (maxCount maxWeight count sum : ℕ) (items : List α) :
    page weight maxCount maxWeight count sum items <+: items := by
  induction items generalizing count sum with
  | nil => exact prefix_rfl
  | cons item rest ih =>
    unfold page
    split_ifs
    · exact nil_prefix
    · exact prefix_append [item] rest
    · exact cons_prefix_cons.2 ⟨rfl, ih _ _⟩
    · exact nil_prefix

theorem length_page_le (hcount : count ≤ maxCount) :
    count + (page weight maxCount maxWeight count sum items).length ≤ maxCount := by
  induction items generalizing count sum with
  | nil => exact hcount
  | cons item rest ih =>
    unfold page
    split_ifs with hlt
    · exact hcount
    · exact hlt
    · have := @ih (count + 1) (sum + weight item) hlt
      rw [length_cons]
      omega
    · exact hcount

theorem page_ne_nil (hpos : 0 < maxCount) (hitems : items ≠ []) :
    page weight maxCount maxWeight 0 0 items ≠ [] := by
  cases items with
  | nil => exact absurd rfl hitems
  | cons item rest =>
    unfold page
    rw [if_pos hpos, if_neg fun h => h.1 rfl]
    split_ifs
    · exact cons_ne_nil _ _
    · exact cons_ne_nil _ _

/-- A page that goes on keeps the weight limit. -/
theorem packed_page_from (hsum : count ≠ 0 → sum < maxWeight) {before after : List α} {item : α}
    (heq : page weight maxCount maxWeight count sum items = before ++ item :: after)
    (hsome : count ≠ 0 ∨ before ≠ []) :
    sum + total weight before < maxWeight ∧ sum + total weight before + weight item ≤ maxWeight := by
  induction items generalizing count sum before with
  | nil => simp [page] at heq
  | cons first rest ih =>
    unfold page at heq
    split_ifs at heq with hlt hover hfull
    · simp at heq
    · -- the page ends with this item
      obtain ⟨rfl, hrest⟩ | ⟨x, hbefore, hrest⟩ := cons_eq_append_iff.1 heq
      · obtain ⟨rfl, -⟩ := List.cons.inj hrest
        have hcount : count ≠ 0 := hsome.resolve_right fun h => h rfl
        have hsum' := hsum hcount
        have hfits : ¬ maxWeight < sum + weight item := fun h => hover ⟨hcount, h⟩
        simp only [total_nil]
        omega
      · simp at hrest
    · obtain ⟨rfl, hrest⟩ | ⟨before', rfl, hrest⟩ := cons_eq_append_iff.1 heq
      · obtain ⟨rfl, -⟩ := List.cons.inj hrest
        have hcount : count ≠ 0 := hsome.resolve_right fun h => h rfl
        have hsum' := hsum hcount
        simp only [total_nil]
        omega
      · have := ih (fun _ => not_le.1 hfull) hrest (.inl (Nat.succ_ne_zero count))
        rw [total_cons]
        omega
    · simp at heq

/-- A page of more than one item is within the limit. -/
theorem total_page_le (weight : α → ℕ) (maxCount : ℕ) (items : List α)
    (hsum : count ≠ 0 → sum < maxWeight) :
    count + (page weight maxCount maxWeight count sum items).length ≤ 1 ∨
      sum + total weight (page weight maxCount maxWeight count sum items) ≤ maxWeight := by
  rcases eq_nil_or_concat (page weight maxCount maxWeight count sum items) with
    hnil | ⟨before, item, heq⟩
  · rw [hnil]
    by_cases hcount : count = 0
    · exact .inl (by simp [hcount])
    · exact .inr (hsum hcount).le
  · rw [concat_eq_append] at heq
    by_cases hsome : count ≠ 0 ∨ before ≠ []
    · have := (packed_page_from hsum heq hsome).2
      rw [heq, total_append, total_cons, total_nil]
      omega
    · obtain ⟨rfl, rfl⟩ : count = 0 ∧ before = [] := by simpa using hsome
      rw [heq]
      exact .inl le_rfl

end Lvu.Packing
