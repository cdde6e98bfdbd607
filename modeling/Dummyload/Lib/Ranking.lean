import Mathlib.Dynamics.FixedPoints.Basic

/-!
# Dummyload.Lib.Ranking

Iterates of a function that reach a set by a **ranking**: outside the set each step
lowers a natural number, and the set is not left again.

The step need only behave so on a set `D` that it maps into itself, the states in
which the system can be.
-/

namespace Lib.Ranking

variable {α : Type*} {g : α → α} {D S : Set α} {μ : α → ℕ}

/-- `g` leads from `D` to `S`, in as many steps as `μ` says. -/
structure Leads (g : α → α) (D S : Set α) (μ : α → ℕ) : Prop where
  domain : Set.MapsTo g D D
  stays : ∀ x ∈ D, x ∈ S → g x ∈ S
  lowers : ∀ x ∈ D, x ∉ S → μ (g x) < μ x

theorem Leads.iterate_mem_of_mem (h : Leads g D S μ) {x : α} {k : ℕ} (hx : x ∈ D) (hS : x ∈ S) :
    g^[k] x ∈ S := by
  induction k generalizing x with
  | zero => exact hS
  | succ k ih =>
      rw [Function.iterate_succ_apply]
      exact ih (h.domain hx) (h.stays x hx hS)

/-- No more steps are needed than the rank of the start. -/
theorem Leads.iterate_mem (h : Leads g D S μ) {x : α} (hx : x ∈ D) {k : ℕ} (hk : μ x ≤ k) :
    g^[k] x ∈ S := by
  induction k generalizing x with
  | zero =>
      by_contra hS
      have hlt := h.lowers x hx hS
      omega
  | succ k ih =>
      rw [Function.iterate_succ_apply]
      by_cases hS : x ∈ S
      · exact h.iterate_mem_of_mem (h.domain hx) (h.stays x hx hS)
      · have hlt := h.lowers x hx hS
        exact ih (h.domain hx) (by omega)

/-- Where the set consists of fixed points, the iterates are constant from there on. -/
theorem Leads.iterate_eq (h : Leads g D S μ) (hfix : ∀ x ∈ D, x ∈ S → Function.IsFixedPt g x)
    {x : α} (hx : x ∈ D) {k n : ℕ} (hk : μ x ≤ k) (hn : k ≤ n) : g^[n] x = g^[k] x := by
  have hpt := hfix _ (h.domain.iterate k hx) (h.iterate_mem hx hk)
  rw [← Nat.sub_add_cancel hn, Function.iterate_add_apply]
  exact hpt.iterate (n - k)

end Lib.Ranking
