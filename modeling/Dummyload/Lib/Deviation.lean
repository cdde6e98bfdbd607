import Mathlib.Algebra.Order.Group.Abs
import Mathlib.Algebra.BigOperators.Group.List.Basic
import Mathlib.Data.List.Infix
import Mathlib.Tactic.Abel

/-!
# Dummyload.Lib.Deviation

Lists of numbers whose partial sums stay in a half-open interval `[lo, hi)`: the
deviations of a schedule from what it should have delivered so far. A window then
deviates by less than the length of the interval, and lists of sum zero can be
joined.
-/

namespace Lib.Deviation

variable {G : Type*} [AddCommGroup G] [LinearOrder G] {lo hi : G}

/-- Every partial sum is in `[lo, hi)`. -/
def Within (lo hi : G) (ds : List G) : Prop := ∀ ps, ps <+: ds → lo ≤ ps.sum ∧ ps.sum < hi

theorem within_nil (hlo : lo ≤ 0) (hhi : 0 < hi) : Within lo hi ([] : List G) := by
  intro ps hps
  rw [List.prefix_nil.mp hps, List.sum_nil]
  exact ⟨hlo, hhi⟩

/-- Behind a list of sum zero another one starts afresh. -/
theorem Within.append {ds es : List G} (hds : Within lo hi ds) (hsum : ds.sum = 0)
    (hes : Within lo hi es) : Within lo hi (ds ++ es) := by
  intro ps hps
  rcases List.prefix_or_prefix_of_prefix hps (List.prefix_append ds es) with hps | ⟨qs, rfl⟩
  · exact hds ps hps
  · rw [List.sum_append, hsum, zero_add]
    exact hes qs ((List.prefix_append_right_inj ds).mp hps)

theorem Within.flatten {dss : List (List G)} (hlo : lo ≤ 0) (hhi : 0 < hi)
    (h : ∀ ds ∈ dss, Within lo hi ds ∧ ds.sum = 0) : Within lo hi dss.flatten := by
  induction dss with
  | nil => exact within_nil hlo hhi
  | cons ds dss ih =>
      obtain ⟨⟨hds, hsum⟩, hdss⟩ := List.forall_mem_cons.mp h
      exact hds.append hsum (ih hdss)

section Ordered

variable [IsOrderedAddMonoid G]

/-- The first number moves the interval for those behind it. -/
theorem within_cons {d : G} {ds : List G} (hlo : lo ≤ 0) (hhi : 0 < hi)
    (h : Within (lo - d) (hi - d) ds) : Within lo hi (d :: ds) := by
  intro ps hps
  rcases List.prefix_cons_iff.mp hps with rfl | ⟨qs, rfl, hqs⟩
  · exact within_nil hlo hhi [] List.prefix_rfl
  · obtain ⟨hlo', hhi'⟩ := h qs hqs
    rw [List.sum_cons]
    exact ⟨sub_le_iff_le_add'.mp hlo', lt_sub_iff_add_lt'.mp hhi'⟩

/-- A window is the difference of two partial sums. -/
theorem Within.abs_sum_lt {ds ws : List G} (h : Within lo hi ds) (hws : ws <:+: ds) :
    |ws.sum| < hi - lo := by
  obtain ⟨ps, ss, rfl⟩ := hws
  obtain ⟨hlo₁, hhi₁⟩ := h ps (by rw [List.append_assoc]; exact List.prefix_append _ _)
  obtain ⟨hlo₂, hhi₂⟩ := h (ps ++ ws) (List.prefix_append _ _)
  rw [List.sum_append] at hlo₂ hhi₂
  have hw : ws.sum = (ps.sum + ws.sum) - ps.sum := by abel
  rw [hw, abs_sub_lt_iff]
  constructor
  · exact (sub_lt_sub_right hhi₂ _).trans_le (sub_le_sub_left hlo₁ _)
  · exact (sub_lt_sub_right hhi₁ _).trans_le (sub_le_sub_left hlo₂ _)

end Ordered

end Lib.Deviation
