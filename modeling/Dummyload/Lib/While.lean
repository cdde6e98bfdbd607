import Mathlib.Logic.Relation
import Mathlib.Tactic.Common

/-!
# Dummyload.Lib.While

`while (cond) { body }` over an explicit state, for a body that may abort (a
failed assertion). The loop is executed with fuel, so it stays computable; that
it returns means that *some* fuel is enough (`Finishes`), that it never does
means that no fuel is (`Spins`).
-/

namespace Lib.While

variable {σ : Type*}

/-- How an execution with bounded fuel ends. -/
inductive Exit (σ : Type*)
  /-- The condition became false in this state. -/
  | finished (s : σ)
  /-- The body aborted. -/
  | aborted
  /-- The fuel ran out before either of these. -/
  | outOfFuel
  deriving Repr, DecidableEq

/-- `while (cond) { body }`, at most `fuel` tests of the condition. -/
def exec (cond : σ → Bool) (body : σ → Option σ) : Nat → σ → Exit σ
  | 0, _ => .outOfFuel
  | fuel + 1, s =>
    if cond s then
      match body s with
      | some t => exec cond body fuel t
      | none => .aborted
    else .finished s

/-- The loop returns, in state `t`. -/
def Finishes (cond : σ → Bool) (body : σ → Option σ) (s t : σ) : Prop :=
  ∃ fuel, exec cond body fuel s = .finished t

/-- The loop never ends. -/
def Spins (cond : σ → Bool) (body : σ → Option σ) (s : σ) : Prop :=
  ∀ fuel, exec cond body fuel s = .outOfFuel

variable {cond : σ → Bool} {body : σ → Option σ} {s t u : σ}

/-! ### One iteration -/

theorem exec_exit (h : cond s = false) (fuel : Nat) :
    exec cond body (fuel + 1) s = .finished s := by
  simp [exec, h]

theorem exec_step (hc : cond s = true) (hb : body s = some t) (fuel : Nat) :
    exec cond body (fuel + 1) s = exec cond body fuel t := by
  simp [exec, hc, hb]

theorem exec_abort (hc : cond s = true) (hb : body s = none) (fuel : Nat) :
    exec cond body (fuel + 1) s = .aborted := by
  simp [exec, hc, hb]

theorem finishes_exit (h : cond s = false) : Finishes cond body s s :=
  ⟨1, exec_exit h 0⟩

/-- One iteration does not change how the loop ends. -/
theorem finishes_step (hc : cond s = true) (hb : body s = some t) :
    Finishes cond body s u ↔ Finishes cond body t u := by
  constructor
  · intro hex
    obtain ⟨fuel, h⟩ := hex
    cases fuel with
    | zero => cases h
    | succ fuel => exact ⟨fuel, by rwa [exec_step hc hb] at h⟩
  · intro hex
    obtain ⟨fuel, h⟩ := hex
    exact ⟨fuel + 1, by rwa [exec_step hc hb]⟩

theorem spins_step (hc : cond s = true) (hb : body s = some t) :
    Spins cond body s ↔ Spins cond body t := by
  constructor
  · intro h fuel
    rw [← exec_step hc hb]
    exact h (fuel + 1)
  · intro h fuel
    cases fuel with
    | zero => rfl
    | succ fuel => rw [exec_step hc hb, h fuel]

/-- A body that changes nothing while the condition holds spins for ever. -/
theorem spins_of_stuck (hc : cond s = true) (hb : body s = some s) : Spins cond body s := by
  intro fuel
  induction fuel with
  | zero => rfl
  | succ fuel ih => rw [exec_step hc hb, ih]

/-! ### Several iterations -/

/-- Some iterations of the loop take `s` to `t`. -/
def Steps (cond : σ → Bool) (body : σ → Option σ) : σ → σ → Prop :=
  Relation.ReflTransGen fun s t => cond s = true ∧ body s = some t

theorem Steps.head (hc : cond s = true) (hb : body s = some t) (h : Steps cond body t u) :
    Steps cond body s u :=
  Relation.ReflTransGen.head ⟨hc, hb⟩ h

theorem Steps.finishes_iff (h : Steps cond body s t) :
    Finishes cond body s u ↔ Finishes cond body t u := by
  induction h using Relation.ReflTransGen.head_induction_on with
  | refl => rfl
  | head hst _ ih => rw [finishes_step hst.1 hst.2, ih]

theorem Steps.spins_iff (h : Steps cond body s t) :
    Spins cond body s ↔ Spins cond body t := by
  induction h using Relation.ReflTransGen.head_induction_on with
  | refl => rfl
  | head hst _ ih => rw [spins_step hst.1 hst.2, ih]

theorem Steps.tail (h : Steps cond body s t) (hc : cond t = true) (hb : body t = some u) :
    Steps cond body s u :=
  Relation.ReflTransGen.tail h ⟨hc, hb⟩

/-- Iterations followed by one that makes the condition false. -/
theorem Steps.exit (h : Steps cond body s t) (hc : cond t = true) (hb : body t = some u)
    (hu : cond u = false) : Finishes cond body s u :=
  (h.tail hc hb).finishes_iff.mpr (finishes_exit hu)

/-! ### An execution ends in one way -/

/-- More fuel does not change an outcome that was reached. -/
theorem exec_mono {fuel fuel' : Nat} (hle : fuel ≤ fuel')
    (h : exec cond body fuel s ≠ .outOfFuel) :
    exec cond body fuel' s = exec cond body fuel s := by
  induction fuel generalizing fuel' s with
  | zero => exact absurd rfl h
  | succ fuel ih =>
      obtain ⟨fuel', rfl⟩ : ∃ k, fuel' = k + 1 := ⟨fuel' - 1, by omega⟩
      by_cases hc : cond s = true
      · cases hb : body s with
        | none => rw [exec_abort hc hb, exec_abort hc hb]
        | some t =>
            rw [exec_step hc hb] at h ⊢
            rw [exec_step hc hb]
            exact ih (by omega) h
      · rw [exec_exit (by simpa using hc), exec_exit (by simpa using hc)]

theorem Finishes.unique (h : Finishes cond body s t) (h' : Finishes cond body s u) : t = u := by
  obtain ⟨m, hm⟩ := h
  obtain ⟨n, hn⟩ := h'
  have h₁ := exec_mono (Nat.le_max_left m n) (by rw [hm]; simp)
  have h₂ := exec_mono (Nat.le_max_right m n) (by rw [hn]; simp)
  rw [h₁, hm, hn] at h₂
  exact Exit.finished.inj h₂

/-- A loop that returns never aborts on the way. -/
theorem Finishes.not_aborted (h : Finishes cond body s t) (fuel : Nat) :
    exec cond body fuel s ≠ .aborted := by
  intro habort
  obtain ⟨n, hn⟩ := h
  have h₁ := exec_mono (Nat.le_max_left n fuel) (by rw [hn]; simp)
  have h₂ := exec_mono (Nat.le_max_right n fuel) (by rw [habort]; simp)
  rw [h₁, hn, habort] at h₂
  cases h₂

theorem Spins.not_finishes (h : Spins cond body s) : ¬ Finishes cond body s t := by
  intro hex
  obtain ⟨fuel, hf⟩ := hex
  rw [h fuel] at hf
  cases hf

/-- A loop that has finished did so because its condition is false. -/
theorem Finishes.cond_eq_false (h : Finishes cond body s t) : cond t = false := by
  obtain ⟨fuel, h⟩ := h
  induction fuel generalizing s with
  | zero => cases h
  | succ fuel ih =>
      by_cases hc : cond s = true
      · cases hb : body s with
        | none => rw [exec_abort hc hb] at h; cases h
        | some r =>
            rw [exec_step hc hb] at h
            exact ih h
      · rw [exec_exit (by simpa using hc)] at h
        obtain rfl := Exit.finished.inj h
        simpa using hc

/-! ### Two loops in step -/

/-- From related states the loops test alike, and what one body does the other one
does as well, up to `R`. -/
structure InStep {τ : Type*} (cond : σ → Bool) (body : σ → Option σ) (cond' : τ → Bool)
    (body' : τ → Option τ) (R : σ → τ → Prop) : Prop where
  cond : ∀ {s s'}, R s s' → cond s = cond' s'
  body : ∀ {s s' t}, R s s' → body s = some t → ∃ t', body' s' = some t' ∧ R t t'

section InStep

variable {τ : Type*} {cond' : τ → Bool} {body' : τ → Option τ} {R : σ → τ → Prop} {s' : τ}

/-- With the same fuel both loops finish, or both run out of it. -/
theorem InStep.exec (h : InStep cond body cond' body' R) (hs : R s s') (fuel : Nat) :
    (∀ t, exec cond body fuel s = .finished t →
      ∃ t', exec cond' body' fuel s' = .finished t' ∧ R t t') ∧
    (exec cond body fuel s = .outOfFuel → exec cond' body' fuel s' = .outOfFuel) := by
  induction fuel generalizing s s' with
  | zero => exact ⟨fun t ht => (by cases ht), fun _ => rfl⟩
  | succ fuel ih =>
      have htest := h.cond hs
      by_cases hc : cond s = true
      · have hc' : cond' s' = true := htest ▸ hc
        cases hb : body s with
        | none =>
            rw [exec_abort hc hb]
            exact ⟨fun t ht => (by cases ht), fun ht => (by cases ht)⟩
        | some r =>
            obtain ⟨r', hb', hr⟩ := h.body hs hb
            rw [exec_step hc hb, exec_step hc' hb']
            exact ih hr
      · have hc' : cond' s' = false := htest ▸ (by simpa using hc)
        rw [exec_exit (by simpa using hc), exec_exit hc']
        refine ⟨fun t ht => ?_, fun ht => (by cases ht)⟩
        obtain rfl := Exit.finished.inj ht
        exact ⟨s', rfl, hs⟩

theorem InStep.finishes (h : InStep cond body cond' body' R) (hs : R s s')
    (hf : Finishes cond body s t) : ∃ t', Finishes cond' body' s' t' ∧ R t t' := by
  obtain ⟨fuel, hf⟩ := hf
  obtain ⟨t', hf', ht⟩ := (InStep.exec h hs fuel).1 t hf
  exact ⟨t', ⟨fuel, hf'⟩, ht⟩

theorem InStep.spins (h : InStep cond body cond' body' R) (hs : R s s')
    (hspin : Spins cond body s) : Spins cond' body' s' :=
  fun fuel => (InStep.exec h hs fuel).2 (hspin fuel)

end InStep

end Lib.While
