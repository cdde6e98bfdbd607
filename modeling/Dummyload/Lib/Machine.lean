import Mathlib.Data.List.Basic
import Mathlib.Tactic.Common

/-!
# Dummyload.Lib.Machine

Runs of a **partial transition function** `step : σ → ι → Option σ`.

The inputs `ι` carry every choice the environment makes (results of system
calls, what a callback does next, which event is dispatched), so a run is a
list of inputs and the machine itself stays executable. `none` means that the
input is not possible in that state.

The rules below are the ones the developments over a machine use: an invariant
preserved by one step holds along every run, possibly only along the runs whose
steps all meet a condition on the state and the input.
-/

namespace Lib.Machine

variable {σ ι : Type*}

/-- Feed the inputs one after the other. -/
def run (step : σ → ι → Option σ) (s : σ) (is : List ι) : Option σ :=
  is.foldlM step s

/-- Every step that the run takes meets `P` (in the state it is taken in). -/
def Meets (step : σ → ι → Option σ) (P : σ → ι → Prop) : σ → List ι → Prop
  | _, [] => True
  | s, i :: is => P s i ∧ ∀ t, step s i = some t → Meets step P t is

variable {step : σ → ι → Option σ}

@[simp] theorem run_nil (s : σ) : run step s [] = some s := rfl

@[simp] theorem run_cons (s : σ) (i : ι) (is : List ι) :
    run step s (i :: is) = (step s i).bind fun t => run step t is := rfl

/-- Inverting a run of at least one step. -/
theorem run_cons_eq_some {s u : σ} {i : ι} {is : List ι} :
    run step s (i :: is) = some u ↔ ∃ t, step s i = some t ∧ run step t is = some u := by
  rw [run_cons, Option.bind_eq_some_iff]

@[simp] theorem meets_nil {P : σ → ι → Prop} {s : σ} : Meets step P s [] := trivial

theorem meets_cons {P : σ → ι → Prop} {s : σ} {i : ι} {is : List ι} :
    Meets step P s (i :: is) ↔ P s i ∧ ∀ t, step s i = some t → Meets step P t is := Iff.rfl

instance decidableMeets {P : σ → ι → Prop} [∀ s i, Decidable (P s i)] :
    (s : σ) → (is : List ι) → Decidable (Meets step P s is)
  | _, [] => .isTrue trivial
  | s, i :: is =>
    match h : step s i with
    | none => decidable_of_iff (P s i) (by simp [meets_cons, h])
    | some t =>
      have := decidableMeets (P := P) t is
      decidable_of_iff (P s i ∧ Meets step P t is) (by simp [meets_cons, h])

/-- A condition on the inputs alone is met when every input meets it. -/
theorem meets_of_forall {P : ι → Prop} {s : σ} {is : List ι} (h : ∀ i ∈ is, P i) :
    Meets step (fun _ i => P i) s is := by
  induction is generalizing s with
  | nil => trivial
  | cons i is ih =>
      obtain ⟨hi, his⟩ := List.forall_mem_cons.mp h
      exact ⟨hi, fun t _ => ih his⟩

/-- **The invariant rule, for conditional runs.** What one step that meets `P`
preserves holds after every run whose steps meet `P`. -/
theorem invariant_of_meets {P : σ → ι → Prop} {Inv : σ → Prop}
    (hstep : ∀ s i t, Inv s → P s i → step s i = some t → Inv t)
    {s t : σ} {is : List ι} (hs : Inv s) (hP : Meets step P s is)
    (hrun : run step s is = some t) : Inv t := by
  induction is generalizing s with
  | nil =>
      obtain rfl : s = t := by simpa using hrun
      exact hs
  | cons i is ih =>
      obtain ⟨u, hu, hut⟩ := run_cons_eq_some.mp hrun
      exact ih (hstep s i u hs hP.1 hu) (hP.2 u hu) hut

/-- **The invariant rule.** What one step preserves holds after every run. -/
theorem invariant {Inv : σ → Prop}
    (hstep : ∀ s i t, Inv s → step s i = some t → Inv t)
    {s t : σ} {is : List ι} (hs : Inv s) (hrun : run step s is = some t) : Inv t := by
  exact invariant_of_meets (fun s i t hs _ h => hstep s i t hs h) hs
    (meets_of_forall (P := fun _ => True) fun _ _ => trivial) hrun

/-- When the steps that meet `P` are possible and keep the invariant, a run of such steps is
possible to its end. -/
theorem exists_run_of_meets {P : σ → ι → Prop} {Inv : σ → Prop}
    (hstep : ∀ s i, Inv s → P s i → ∃ t, step s i = some t ∧ Inv t) {s : σ} {is : List ι}
    (hs : Inv s) (hP : Meets step P s is) : ∃ t, run step s is = some t ∧ Inv t := by
  induction is generalizing s with
  | nil => exact ⟨s, rfl, hs⟩
  | cons i is ih =>
      obtain ⟨u, hu, hinv⟩ := hstep s i hs hP.1
      obtain ⟨t, ht, hinv'⟩ := ih hinv (hP.2 u hu)
      exact ⟨t, run_cons_eq_some.mpr ⟨u, hu, ht⟩, hinv'⟩

/-- The beginning of a run whose steps meet `P`. -/
theorem meets_of_prefix {P : σ → ι → Prop} {s : σ} {is is' : List ι} (h : is <+: is')
    (hP : Meets step P s is') : Meets step P s is := by
  obtain ⟨js, rfl⟩ := h
  induction is generalizing s with
  | nil => trivial
  | cons i is ih => exact ⟨hP.1, fun t ht => ih (hP.2 t ht)⟩

/-- The steps of a run are possible. -/
theorem meets_isSome {s t : σ} {is : List ι} (hrun : run step s is = some t) :
    Meets step (fun s i => (step s i).isSome = true) s is := by
  induction is generalizing s with
  | nil => trivial
  | cons i is ih =>
      obtain ⟨u, hu, hrun⟩ := run_cons_eq_some.mp hrun
      refine ⟨Option.isSome_iff_exists.mpr ⟨u, hu⟩, fun v hv => ?_⟩
      obtain rfl := Option.some.inj (hu.symm.trans hv)
      exact ih hrun

/-- In a run whose steps meet `P`, they meet whatever `P` and the invariant imply. -/
theorem meets_imp {P Q : σ → ι → Prop} {Inv : σ → Prop}
    (hstep : ∀ s i t, Inv s → P s i → step s i = some t → Inv t)
    (hPQ : ∀ s i, Inv s → P s i → Q s i) {s : σ} {is : List ι} (hs : Inv s)
    (hP : Meets step P s is) : Meets step Q s is := by
  induction is generalizing s with
  | nil => trivial
  | cons i is ih =>
      exact ⟨hPQ s i hs hP.1, fun t ht => ih (hstep s i t hs hP.1 ht) (hP.2 t ht)⟩

theorem meets_and {P Q : σ → ι → Prop} {s : σ} {is : List ι} :
    Meets step (fun s i => P s i ∧ Q s i) s is ↔ Meets step P s is ∧ Meets step Q s is := by
  induction is generalizing s with
  | nil => simp
  | cons i is ih =>
      rw [meets_cons, meets_cons, meets_cons]
      constructor
      · intro h
        exact ⟨⟨h.1.1, fun t ht => (ih.mp (h.2 t ht)).1⟩, h.1.2, fun t ht => (ih.mp (h.2 t ht)).2⟩
      · intro h
        exact ⟨⟨h.1.1, h.2.1⟩, fun t ht => ih.mpr ⟨h.1.2 t ht, h.2.2 t ht⟩⟩

/-- Two conditions that agree on the steps that are possible are met by the same runs. -/
theorem meets_congr_of_run {P Q : σ → ι → Prop}
    (hPQ : ∀ s i t, step s i = some t → (P s i ↔ Q s i)) {s t : σ} {is : List ι}
    (hrun : run step s is = some t) : Meets step P s is ↔ Meets step Q s is := by
  induction is generalizing s with
  | nil => simp
  | cons i is ih =>
      obtain ⟨u, hu, hrun⟩ := run_cons_eq_some.mp hrun
      rw [meets_cons, meets_cons, hPQ s i u hu, hu]
      refine and_congr_right fun _ => ?_
      constructor
      · intro h v hv
        obtain rfl := Option.some.inj hv
        exact (ih hrun).mp (h u rfl)
      · intro h v hv
        obtain rfl := Option.some.inj hv
        exact (ih hrun).mpr (h u rfl)

/-- Two conditions that an invariant makes equivalent are met by the same runs, if the
steps that meet them keep the invariant. -/
theorem meets_congr_of_meets {P Q : σ → ι → Prop} {Inv : σ → Prop}
    (hstep : ∀ s i t, Inv s → P s i → step s i = some t → Inv t)
    (hPQ : ∀ s i, Inv s → (P s i ↔ Q s i)) {s : σ} {is : List ι} (hs : Inv s) :
    Meets step P s is ↔ Meets step Q s is := by
  induction is generalizing s with
  | nil => simp
  | cons i is ih =>
      rw [meets_cons, meets_cons, ← hPQ s i hs]
      refine and_congr_right fun hP => forall_congr' fun t => ?_
      constructor
      · exact fun h ht => (ih (hstep s i t hs hP ht)).mp (h ht)
      · exact fun h ht => (ih (hstep s i t hs hP ht)).mpr (h ht)

/-- Two conditions that an invariant makes equivalent are met by the same runs. -/
theorem meets_congr {P Q : σ → ι → Prop} {Inv : σ → Prop}
    (hstep : ∀ s i t, Inv s → step s i = some t → Inv t)
    (hPQ : ∀ s i, Inv s → (P s i ↔ Q s i)) {s : σ} {is : List ι} (hs : Inv s) :
    Meets step P s is ↔ Meets step Q s is :=
  meets_congr_of_meets (fun s i t hs _ h => hstep s i t hs h) hPQ hs

end Lib.Machine
