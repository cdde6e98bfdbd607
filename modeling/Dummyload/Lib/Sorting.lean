import Mathlib.Data.Prod.Lex
import Mathlib.Order.Defs.Unbundled
import Mathlib.Tactic.Common

/-!
# Dummyload.Lib.Sorting

Sorting by a **strict weak order** that is given as a comparison function, as the sorting
functions of programming languages have it. Elements that the order does not tell
apart may come in any order, so a sort is any function that rearranges its argument and
leaves no pair the wrong way round.

The first elements of a sorted list are the greatest: none of the others comes before one
of them (`Sorts.take_before`). A comparison of keys is a strict weak order
(`isStrictWeakOrder_of_key`).
-/

namespace Lib.Sorting

variable {α β : Type*}

/-- `ys` is `xs`, sorted. -/
structure Sorts (comp : α → α → Bool) (xs ys : List α) : Prop where
  perm : ys.Perm xs
  sorted : ys.Pairwise fun a b => comp b a = false

/-- A function that sorts by every strict weak order. -/
structure Sorter (α : Type*) where
  sort : (α → α → Bool) → List α → List α
  sorts : ∀ (comp : α → α → Bool) (xs : List α),
    IsStrictWeakOrder α (fun a b => comp a b = true) → Sorts comp xs (sort comp xs)

/-- The order of the keys. -/
theorem isStrictWeakOrder_of_key [LinearOrder β] (key : α → β) :
    IsStrictWeakOrder α fun a b => decide (key a < key b) = true where
  irrefl a h := lt_irrefl _ (of_decide_eq_true h)
  trans a b c hab hbc :=
    decide_eq_true ((of_decide_eq_true hab).trans (of_decide_eq_true hbc))
  incomp_trans a b c hab hbc := by
    simp only [decide_eq_true_eq, not_lt] at hab hbc ⊢
    exact ⟨hbc.1.trans hab.1, hab.2.trans hbc.2⟩

variable {comp : α → α → Bool} {xs ys : List α} {n : ℕ}

/-- None of the others comes before one of the first. -/
theorem Sorts.take_before (h : Sorts comp xs ys) {a b : α} (ha : a ∈ ys.take n)
    (hb : b ∈ ys.drop n) : comp b a = false := by
  have hsplit := h.sorted
  rw [← List.take_append_drop n ys] at hsplit
  exact (List.pairwise_append.mp hsplit).2.2 a ha b hb

theorem Sorts.take_perm (h : Sorts comp xs ys) : (ys.take n ++ ys.drop n).Perm xs := by
  rw [List.take_append_drop]
  exact h.perm

/-- Merge sort is one. -/
def Sorter.merge (α : Type*) : Sorter α where
  sort comp xs := xs.mergeSort fun a b => !comp b a
  sorts comp xs hcomp := by
    have htrans : ∀ a b c : α, (!comp b a) = true → (!comp c b) = true → (!comp c a) = true := by
      intro a b c hba hcb
      simp only [Bool.not_eq_true'] at hba hcb ⊢
      by_contra hca
      rw [Bool.not_eq_false] at hca
      -- `c` comes before `a`, so `b` is apart from one of them
      by_cases hab : comp a b = true
      · have hcb' := hcomp.trans c a b hca hab
        rw [hcb] at hcb'
        cases hcb'
      · by_cases hbc : comp b c = true
        · have hba' := hcomp.trans b c a hbc hca
          rw [hba] at hba'
          cases hba'
        · have hapart := hcomp.incomp_trans c b a ⟨by simp [hcb], hbc⟩ ⟨by simp [hba], hab⟩
          exact hapart.1 hca
    have htotal : ∀ a b : α, (!comp b a || !comp a b) = true := by
      intro a b
      by_contra hboth
      simp only [Bool.or_eq_true, Bool.not_eq_true', not_or, Bool.not_eq_false] at hboth
      exact hcomp.irrefl a (hcomp.trans a b a hboth.2 hboth.1)
    refine ⟨List.mergeSort_perm _ _, ?_⟩
    refine (List.pairwise_mergeSort htrans htotal xs).imp fun {a b} h => ?_
    simpa using h

end Lib.Sorting
