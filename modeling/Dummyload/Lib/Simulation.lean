import Dummyload.Lib.Machine

/-!
# Dummyload.Lib.Simulation

**Forward simulation** of a partial transition function by a labelled transition
relation. What the machine shows to the outside is a label per step, or nothing;
if every step is matched by a step of the relation with that label (by no step
when there is no label), then every run is matched by a path with its trace. Only the
steps that a run takes have to be matched: those that meet a condition.

Where the specification is a function, and the machine only promises something within
a precondition, the rule is `run_refines`.
-/

namespace Lib.Simulation

open Lib.Machine (run run_cons_eq_some Meets)

variable {σ τ ι ℓ : Type*}

/-- The labels of a path, in order. -/
inductive Path (Step : τ → ℓ → τ → Prop) : τ → List ℓ → τ → Prop
  | nil (t : τ) : Path Step t [] t
  | cons {t u v : τ} {l : ℓ} {ls : List ℓ} : Step t l u → Path Step u ls v → Path Step t (l :: ls) v

/-- The labels that the machine shows while it consumes the inputs. -/
def trace (step : σ → ι → Option σ) (label : σ → ι → Option ℓ) : σ → List ι → List ℓ
  | _, [] => []
  | s, i :: is =>
    (label s i).toList ++ match step s i with
      | some s' => trace step label s' is
      | none => []

variable {step : σ → ι → Option σ} {label : σ → ι → Option ℓ} {Step : τ → ℓ → τ → Prop}

theorem trace_cons {s s' : σ} {i : ι} (h : step s i = some s') (is : List ι) :
    trace step label s (i :: is) = (label s i).toList ++ trace step label s' is := by
  rw [trace, h]

/-- **Forward simulation**, of the runs whose steps meet `P`. -/
theorem simulation {P : σ → ι → Prop} {R : σ → τ → Prop}
    (hsilent : ∀ s t i s', R s t → P s i → step s i = some s' → label s i = none → R s' t)
    (hlabel : ∀ s t i s' l, R s t → P s i → step s i = some s' → label s i = some l →
      ∃ t', Step t l t' ∧ R s' t')
    {s s' : σ} {t : τ} {is : List ι} (hR : R s t) (hP : Meets step P s is)
    (hrun : run step s is = some s') :
    ∃ t', Path Step t (trace step label s is) t' ∧ R s' t' := by
  induction is generalizing s t with
  | nil =>
      obtain rfl : s = s' := by simpa using hrun
      exact ⟨t, .nil t, hR⟩
  | cons i is ih =>
      obtain ⟨u, hu, hrun⟩ := run_cons_eq_some.mp hrun
      obtain ⟨hi, his⟩ := hP
      rw [trace_cons hu]
      cases hl : label s i with
      | none => exact ih (hsilent s t i u hR hi hu hl) (his u hu) hrun
      | some l =>
          obtain ⟨t₁, ht₁, hR₁⟩ := hlabel s t i u l hR hi hu hl
          obtain ⟨t', hpath, hR'⟩ := ih hR₁ (his u hu) hrun
          exact ⟨t', .cons ht₁ hpath, hR'⟩

/-- **Never again.** `Barred l s` says that from `s` on no label is shown that `l` rules
out. When each step brings this about for the label it shows, keeps it for those shown
before and respects it, then no label of the trace is ruled out by an earlier one. -/
theorem pairwise_trace {P : σ → ι → Prop} {Inv : σ → Prop} {R : ℓ → ℓ → Prop}
    (Barred : ℓ → σ → Prop) (hstep : ∀ s i s', Inv s → step s i = some s' → Inv s')
    (hshown : ∀ s i s' l, Inv s → P s i → step s i = some s' → label s i = some l → Barred l s')
    (hkept : ∀ s i s' l, Inv s → step s i = some s' → Barred l s → Barred l s')
    (hrespected : ∀ s i s' l l', Inv s → step s i = some s' → Barred l s →
      label s i = some l' → R l l')
    {s s' : σ} {is : List ι} (hs : Inv s) (hP : Meets step P s is)
    (hrun : run step s is = some s') : (trace step label s is).Pairwise R := by
  -- what was ruled out before `s` is shown by no later step
  have hnever : ∀ {s : σ} {is : List ι} {l : ℓ}, Inv s → Barred l s → run step s is = some s' →
      ∀ l' ∈ trace step label s is, R l l' := by
    intro s is l hs hbarred hrun
    induction is generalizing s with
    | nil => exact fun l' hl' => absurd hl' List.not_mem_nil
    | cons i is ih =>
        obtain ⟨u, hu, hrun⟩ := run_cons_eq_some.mp hrun
        rw [trace_cons hu]
        intro l' hl'
        rcases List.mem_append.mp hl' with hl' | hl'
        · exact hrespected s i u l l' hs hu hbarred (Option.mem_toList.mp hl')
        · exact ih (hstep s i u hs hu) (hkept s i u l hs hu hbarred) hrun l' hl'
  induction is generalizing s with
  | nil => exact List.Pairwise.nil
  | cons i is ih =>
      obtain ⟨u, hu, hrun⟩ := run_cons_eq_some.mp hrun
      have hinv := hstep s i u hs hu
      have hrest := ih hinv (hP.2 u hu) hrun
      rw [trace_cons hu]
      cases hl : label s i with
      | none => exact hrest
      | some l =>
          have hbarred := hshown s i u l hs hP.1 hu hl
          exact List.pairwise_cons.mpr ⟨hnever hinv hbarred hrun, hrest⟩

/-- **Refinement within a precondition.** When a step that meets `P` is always possible and
does under `abs` what `next` does, then so is and does a run whose steps meet `P`. -/
theorem run_refines {P : σ → ι → Prop} {abs : σ → τ} {next : τ → ι → τ}
    (hstep : ∀ s i, P s i → ∃ t, step s i = some t ∧ abs t = next (abs s) i) {s : σ} {is : List ι}
    (hP : Meets step P s is) : ∃ t, run step s is = some t ∧ abs t = is.foldl next (abs s) := by
  induction is generalizing s with
  | nil => exact ⟨s, rfl, rfl⟩
  | cons i is ih =>
      obtain ⟨u, hu, habs⟩ := hstep s i hP.1
      obtain ⟨t, ht, habs'⟩ := ih (hP.2 u hu)
      refine ⟨t, run_cons_eq_some.mpr ⟨u, hu, ht⟩, ?_⟩
      rw [habs', habs, List.foldl_cons]

end Lib.Simulation
