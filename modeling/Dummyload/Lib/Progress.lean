import Dummyload.Lib.Monitor
import Dummyload.Lib.Machine
import Mathlib

/-!
# Dummyload.Lib.Progress

**How long a run can go on.** A rank that every step lowers bounds the runs of a
machine; steps that the environment is free to add (spurious wake-ups, say) may
raise it by one, and are then counted twice. If only some of the steps lower it, say those of one
thread, it bounds how many of these there are.

For a machine whose threads are a list, the rank is a sum over the list, and one
thread moves at a time.
-/

namespace Lib.Progress

open Lib.Machine

section Runs

variable {σ ι : Type*} {step : σ → ι → Option σ}

/-- What the steps meeting `P` do to `rank`: none raises it and the `counted` ones lower it,
but those that are `extra` may raise it by one. -/
def Lowers (step : σ → ι → Option σ) (Inv : σ → Prop) (P : ι → Prop) (counted extra : ι → Bool)
    (rank : σ → Nat) : Prop :=
  ∀ s i t, Inv s → P i → step s i = some t →
    rank t + (if counted i then 1 else 0) ≤ rank s + if extra i then 2 else 0

variable {Inv : σ → Prop} {P : ι → Prop} {extra : ι → Bool} {rank : σ → Nat} {s t : σ}
  {is : List ι}

/-- **The rank rule.** -/
theorem countP_le {counted : ι → Bool} (hinv : ∀ s i t, Inv s → P i → step s i = some t → Inv t)
    (hlowers : Lowers step Inv P counted extra rank) (hs : Inv s) (hP : ∀ i ∈ is, P i)
    (hrun : run step s is = some t) :
    Inv t ∧ is.countP counted + rank t ≤ rank s + 2 * is.countP extra := by
  induction is generalizing s with
  | nil =>
      obtain rfl : s = t := by simpa using hrun
      exact ⟨hs, by simp⟩
  | cons i is ih =>
      obtain ⟨u, hu, hrun⟩ := run_cons_eq_some.mp hrun
      obtain ⟨hi, his⟩ := List.forall_mem_cons.mp hP
      obtain ⟨ht, hrest⟩ := ih (hinv s i u hs hi hu) his hrun
      have hfirst := hlowers s i u hs hi hu
      refine ⟨ht, ?_⟩
      rw [List.countP_cons, List.countP_cons]
      cases hextra : extra i with
      | true => simp only [hextra, if_true] at hfirst ⊢; omega
      | false => simp only [hextra, Bool.false_eq_true, if_false] at hfirst ⊢; omega

/-- When every step lowers the rank. -/
theorem length_le (hinv : ∀ s i t, Inv s → P i → step s i = some t → Inv t)
    (hlowers : Lowers step Inv P (fun _ => true) extra rank) (hs : Inv s) (hP : ∀ i ∈ is, P i)
    (hrun : run step s is = some t) :
    Inv t ∧ is.length + rank t ≤ rank s + 2 * is.countP extra := by
  have hcount := countP_le hinv hlowers hs hP hrun
  rwa [List.countP_true] at hcount

end Runs

section Threads

variable {α : Type*} {ts : List α} {i : Nat} {a : α}

/-- The rank of the list, when one of the threads moves. -/
theorem sum_move (h : ts[i]? = some a) (f : α → Nat) (b : α) :
    ((ts.set i b).map f).sum + f a = (ts.map f).sum + f b := by
  obtain ⟨before, after, rfl, hset⟩ := Lib.Monitor.exists_split h
  rw [hset]
  simp only [List.map_append, List.map_cons, List.sum_append, List.sum_cons]
  omega

end Threads

end Lib.Progress
