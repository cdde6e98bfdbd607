import Dummyload.Lib.Ranking
import Dummyload.Load.DutyCycle

/-!
# Dummyload.Load.Fixed

`fixed` (`examples/dummyload/dummyload.cpp`), the closed-loop control: each round
compares the CPU rate with `g_percent`, moves `su` by one and calls `load(su)`.

The machine is a response `f`: what is measured in a round is `f` of what the round
before has loaded. On 0..100 it does not decrease and reaches the target at 100.
-/

namespace Dummyload.Load

/-! ### The code -/

/-- `su` after the first two `if`s of a round. -/
def adjusted (percent cpuRate su : Int) : Int :=
  let su := if cpuRate > percent then su - 1 else if cpuRate < percent then su + 1 else su
  if su < 0 then 0 else su

/-- The `su` that a round of `fixed` loads; `su` is that of the round before. -/
def fixed (percent cpuRate su : Int) : Int :=
  let su := adjusted percent cpuRate su
  if su > 100 then percent else su

/-! ### The loop -/

/-- A round whose measurement is the response to the last load. -/
def round (percent : Int) (f : Int → Int) (su : Int) : Int := fixed percent (f su) su

/-- `su` after `k` rounds. -/
def closedLoop (percent : Int) (f : Int → Int) (su : Int) (k : Nat) : Int :=
  (round percent f)^[k] su

/-- The values that `su` should have. -/
def levels : Set Int := Set.Icc 0 100

/-- The machine: more load does not lower the rate, and full load reaches the target. -/
structure Plant (percent : Int) (f : Int → Int) : Prop where
  mono : MonotoneOn f levels
  reaches : percent ≤ f 100

/-- The level overshoots. -/
def Above (percent : Int) (f : Int → Int) : Set Int := {s | s ∈ levels ∧ f s > percent}

/-- What is meant by convergence within 100 rounds. -/
structure Converges (percent : Int) (f : Int → Int) (su : Int) : Prop where
  stays : ∀ k, closedLoop percent f su k ∈ levels
  never_resets : ∀ k, adjusted percent (f (closedLoop percent f su k))
    (closedLoop percent f su k) ≤ 100
  settles : (∃ c ∈ levels, f c = percent) →
    ∃ c ∈ levels, f c = percent ∧ ∀ k ≥ 100, closedLoop percent f su k = c
  hunts : (∀ c ∈ levels, f c ≠ percent) →
    ∃ s, IsLeast (Above percent f) s ∧
      ∀ k ≥ 100, closedLoop percent f su k = max (s - 1) 0 ∨ closedLoop percent f su k = s

/-! ### One round -/

section Round

variable {percent su : Int} {f : Int → Int}

/-- What a round does to a level: one down, one up, or nothing. -/
theorem adjusted_eq (percent : Int) (f : Int → Int) (hsu : 0 ≤ su) :
    (f su > percent ∧ adjusted percent (f su) su = max (su - 1) 0) ∨
    (f su < percent ∧ adjusted percent (f su) su = su + 1) ∨
    (f su = percent ∧ adjusted percent (f su) su = su) := by
  rw [adjusted]
  rcases lt_trichotomy (f su) percent with hlt | heq | hgt
  · refine .inr (.inl ⟨hlt, ?_⟩)
    rw [if_neg hlt.not_gt, if_pos hlt, if_neg (by omega)]
  · refine .inr (.inr ⟨heq, ?_⟩)
    rw [if_neg heq.not_gt, if_neg heq.not_lt, if_neg (by omega)]
  · refine .inl ⟨hgt, ?_⟩
    rw [if_pos hgt]
    split
    · omega
    · omega

/-- Full load is never raised, so nothing exceeds 100. -/
theorem Plant.adjusted_mem (h : Plant percent f) (hsu : su ∈ levels) :
    adjusted percent (f su) su ∈ levels := by
  obtain ⟨hlo, hhi⟩ := Set.mem_Icc.mp hsu
  rw [levels, Set.mem_Icc]
  rcases adjusted_eq percent f hlo with ⟨-, heq⟩ | ⟨hlt, heq⟩ | ⟨-, heq⟩
  · omega
  · have hne : su ≠ 100 := by
      rintro rfl
      exact absurd h.reaches (not_le.mpr hlt)
    omega
  · omega

/-- The reset is not taken. -/
theorem Plant.round_eq (h : Plant percent f) (hsu : su ∈ levels) :
    round percent f su = adjusted percent (f su) su :=
  if_neg (not_lt.mpr (h.adjusted_mem hsu).2)

theorem Plant.mapsTo (h : Plant percent f) : Set.MapsTo (round percent f) levels levels := by
  intro su hsu
  rw [h.round_eq hsu]
  exact h.adjusted_mem hsu

/-- A level with the target rate is kept. -/
theorem Plant.isFixedPt (h : Plant percent f) (hsu : su ∈ levels) (hrate : f su = percent) :
    Function.IsFixedPt (round percent f) su := by
  rcases adjusted_eq percent f hsu.1 with ⟨hgt, -⟩ | ⟨hlt, -⟩ | ⟨-, heq⟩
  · exact absurd hrate hgt.ne'
  · exact absurd hrate hlt.ne
  · exact (h.round_eq hsu).trans heq

/-! ### Where the rounds lead -/

/-- The other levels come closer to one with the target rate. -/
theorem Plant.leads_to_plateau (h : Plant percent f) {c : Int} (hc : c ∈ levels)
    (hrate : f c = percent) :
    Lib.Ranking.Leads (round percent f) levels {s | f s = percent} fun s => (s - c).natAbs where
  domain := h.mapsTo
  stays := by
    intro s hs hmem
    rwa [(h.isFixedPt hs hmem).eq]
  lowers := by
    intro s hs hmem
    have hc₀ := hc.1
    rw [h.round_eq hs]
    rcases adjusted_eq percent f hs.1 with ⟨hgt, heq⟩ | ⟨hlt, heq⟩ | ⟨heq, -⟩
    · have hcs : c < s := by
        by_contra hle
        have hmono := h.mono hs hc (not_lt.mp hle)
        omega
      omega
    · have hsc : s < c := by
        by_contra hle
        have hmono := h.mono hc hs (not_lt.mp hle)
        omega
      omega
    · exact absurd heq hmem

/-- Full load overshoots if no level has the target rate. -/
theorem Plant.exists_least_above (h : Plant percent f) (hne : ∀ c ∈ levels, f c ≠ percent) :
    ∃ s, IsLeast (Above percent f) s := by
  have hfull : (100 : Int) ∈ levels := Set.mem_Icc.mpr ⟨by norm_num, le_rfl⟩
  have hmem : 100 ∈ Above percent f := ⟨hfull, lt_of_le_of_ne h.reaches (hne 100 hfull).symm⟩
  obtain ⟨s, hs, hleast⟩ := Int.exists_least_of_bdd (P := (· ∈ Above percent f))
    ⟨0, fun _ hz => hz.1.1⟩ ⟨100, hmem⟩
  exact ⟨s, hs, hleast⟩

/-- The levels from the least one that overshoots on do so. -/
theorem Plant.above_iff (h : Plant percent f) {s : Int} (hs : IsLeast (Above percent f) s)
    (hsu : su ∈ levels) : f su > percent ↔ s ≤ su := by
  obtain ⟨⟨hslevel, hsgt⟩, hleast⟩ := hs
  constructor
  · exact fun hgt => hleast ⟨hsu, hgt⟩
  · exact fun hle => hsgt.trans_le (h.mono hslevel hsu hle)

/-- The two levels around the target, of which the lower may be cut off. -/
def Around (s : Int) : Set Int := {x | x = max (s - 1) 0 ∨ x = s}

/-- Where no level has the target rate, `su` comes to the two around it and stays there. -/
theorem Plant.leads_around (h : Plant percent f) (hne : ∀ c ∈ levels, f c ≠ percent) {s : Int}
    (hs : IsLeast (Above percent f) s) :
    Lib.Ranking.Leads (round percent f) levels (Around s) fun x => (x - s).natAbs where
  domain := h.mapsTo
  stays := by
    intro x hx hmem
    have habove := h.above_iff hs hx
    have hs₀ := hs.1.1.1
    rw [h.round_eq hx]
    rcases adjusted_eq percent f hx.1 with ⟨hgt, heq⟩ | ⟨hlt, heq⟩ | ⟨heq, -⟩
    · have hle := habove.mp hgt
      have hxs : x = s := by
        rcases hmem with hmem | hmem
        · omega
        · exact hmem
      exact .inl (by rw [heq, hxs])
    · have hxs : x < s := not_le.mp fun hle => absurd (habove.mpr hle) hlt.not_gt
      have hxs' : x = s - 1 := by
        rcases hmem with hmem | hmem
        · omega
        · omega
      exact .inr (by omega)
    · exact absurd heq (hne x hx)
  lowers := by
    intro x hx hmem
    obtain ⟨hx₁, hx₂⟩ := not_or.mp hmem
    have hs₀ := hs.1.1.1
    have habove := h.above_iff hs hx
    rw [h.round_eq hx]
    rcases adjusted_eq percent f hx.1 with ⟨hgt, heq⟩ | ⟨hlt, heq⟩ | ⟨heq, -⟩
    · have hle := habove.mp hgt
      omega
    · have hxs : x < s := not_le.mp fun hle => absurd (habove.mpr hle) hlt.not_gt
      omega
    · exact absurd heq (hne x hx)

end Round

/-! ### Convergence -/

/-- No two levels are more than 100 rounds apart. -/
theorem natAbs_sub_le {s t : Int} (hs : s ∈ levels) (ht : t ∈ levels) : (s - t).natAbs ≤ 100 := by
  obtain ⟨hs₀, hs₁⟩ := Set.mem_Icc.mp hs
  obtain ⟨ht₀, ht₁⟩ := Set.mem_Icc.mp ht
  omega

/-- `fixed` converges for every target that full load reaches, from every level. -/
theorem fixed_converges {percent su : Int} {f : Int → Int} (h : Plant percent f)
    (hsu : su ∈ levels) : Converges percent f su where
  stays := fun k => h.mapsTo.iterate k hsu
  never_resets := fun k => (h.adjusted_mem (h.mapsTo.iterate k hsu)).2
  settles := by
    rintro ⟨c, hc, hrate⟩
    have hleads := h.leads_to_plateau hc hrate
    have hrank := natAbs_sub_le hsu hc
    refine ⟨closedLoop percent f su 100, h.mapsTo.iterate 100 hsu, hleads.iterate_mem hsu hrank, ?_⟩
    intro k hk
    exact hleads.iterate_eq (fun s hs hmem => h.isFixedPt hs hmem) hsu hrank hk
  hunts := by
    intro hne
    obtain ⟨s, hs⟩ := h.exists_least_above hne
    refine ⟨s, hs, fun k hk => ?_⟩
    exact (h.leads_around hne hs).iterate_mem hsu ((natAbs_sub_le hsu hs.1.1).trans hk)

/-- A machine of four cores, one of which is busy anyway; each level adds three quarters
of a percent. -/
def quarterPlant (su : Int) : Int := 25 + 3 * su / 4

theorem quarterPlant_plant : Plant 80 quarterPlant where
  mono := by
    intro s _ t _ hle
    unfold quarterPlant
    omega
  reaches := by decide

/-- The target is met at level 74 from idle. -/
theorem fixed_converges_quarterPlant : Converges 80 quarterPlant 0 :=
  fixed_converges quarterPlant_plant (Set.mem_Icc.mpr ⟨le_rfl, by norm_num⟩)

/-- What a round of the loop loads is what the machine is busy with: so many slots of
the hundred. -/
theorem load_closedLoop {percent su : Int} {f : Int → Int} (h : Plant percent f)
    (hsu : su ∈ levels) (k : Nat) :
    ∃ busy, load (closedLoop percent f su k) = some busy ∧
      (busy.count true : Int) = closedLoop percent f su k := by
  obtain ⟨busy, hload, ⟨-, hcount⟩, -⟩ := load_eq_some (closedLoop percent f su k)
  obtain ⟨hlo, hhi⟩ := Set.mem_Icc.mp (h.mapsTo.iterate k hsu)
  refine ⟨busy, hload, hcount.trans ?_⟩
  rw [closedLoop, clamp]
  omega

end Dummyload.Load
