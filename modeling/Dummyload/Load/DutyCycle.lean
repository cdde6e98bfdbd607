import Dummyload.Lib.Deviation
import Mathlib

/-!
# Dummyload.Load.DutyCycle

`load` (`examples/dummyload/dummyload.cpp`), the open-loop control: 100 slots of 10 ms,
in each of which the threads are busy or not. The busy ones are chosen with an error
accumulator, as in Bresenham's line algorithm.

The accumulator is what the slots so far lack of the percentage asked for, up to a
scale (`slots_within`), so the invariant of the loop is a statement about windows.
-/

namespace Dummyload.Load

/-! ### The code -/

/-- The rest of the loop, `n` rounds from `err` and `count`: what `g_busy` is set to in
each of them, and the final `count`. -/
def slots (percent : Int) : Nat → Int → Int → List Bool × Int
  | 0, _, count => ([], count)
  | n + 1, err, count =>
    if err > 0 then
      let (rest, count) := slots percent n (err + 2 * (percent - 100)) (count + 1)
      (true :: rest, count)
    else
      let (rest, count) := slots percent n (err + 2 * percent) count
      (false :: rest, count)

/-- `load(percent)`: what `g_busy` is in its slots. A failed assertion is `none`. -/
def load (percent : Int) : Option (List Bool) :=
  let percent := max 0 percent
  let percent := min 100 percent
  let err := 2 * percent - 100
  let loop := slots percent 100 err 0
  if loop.2 = percent then some loop.1 else none

/-! ### What it should deliver -/

/-- The percentage that a call asks for. -/
def clamp (percent : Int) : Int := min 100 (max 0 percent)

/-- A slot: whether it was busy, and the percentage asked for. -/
abbrev Slot := Bool × Int

/-- The slots of one call. -/
def callSlots (percent : Int) (busy : List Bool) : List Slot := busy.map (·, clamp percent)

/-- The slots of a sequence of calls. -/
def timeline (percents : List Int) (calls : List (List Bool)) : List Slot :=
  (List.zipWith callSlots percents calls).flatten

def busySlots (w : List Slot) : Nat := w.countP (·.1)

/-- The number of slots that should have been busy. -/
def requested (w : List Slot) : ℚ := (w.map fun s => (s.2 : ℚ) / 100).sum

/-- In every window the busy slots are those requested, but for less than one. -/
def EvenlySpread (slots : List Slot) : Prop :=
  ∀ w, w <:+: slots → |(busySlots w : ℚ) - requested w| < 1

/-- A call has 100 slots, of which the percentage asked for is busy. -/
def Fulfils (percent : Int) (busy : List Bool) : Prop :=
  busy.length = 100 ∧ (busy.count true : Int) = clamp percent

/-! ### Deviations -/

/-- What one slot adds to the difference between delivered and requested. -/
def deviation (s : Slot) : ℚ := (if s.1 then 1 else 0) - (s.2 : ℚ) / 100

theorem sum_deviation (w : List Slot) :
    (w.map deviation).sum = busySlots w - requested w := by
  induction w with
  | nil => simp [busySlots, requested]
  | cons s w ih =>
      rw [List.map_cons, List.sum_cons, ih]
      obtain ⟨busy, percent⟩ := s
      cases busy with
      | true => simp [deviation, busySlots, requested]; ring
      | false => simp [deviation, busySlots, requested]; ring

theorem clamp_mem (percent : Int) : clamp percent ∈ Set.Icc 0 100 := by
  rw [clamp, Set.mem_Icc]
  omega

/-! ### The loop -/

theorem length_slots (percent : Int) (n : Nat) (err count : Int) :
    (slots percent n err count).1.length = n := by
  induction n generalizing err count with
  | zero => rfl
  | succ n ih =>
      rw [slots]
      split
      · exact congrArg (· + 1) (ih _ _)
      · exact congrArg (· + 1) (ih _ _)

/-- `count` counts the busy slots. -/
theorem count_slots (percent : Int) (n : Nat) (err count : Int) :
    (slots percent n err count).2 = count + ((slots percent n err count).1.count true : Int) := by
  induction n generalizing err count with
  | zero => simp [slots]
  | succ n ih =>
      rw [slots]
      split
      · have h := ih (err + 2 * (percent - 100)) (count + 1)
        simp only [List.count_cons_self]
        omega
      · have h := ih (err + 2 * percent) count
        simp only [ne_eq, Bool.false_eq_true, not_false_eq_true, List.count_cons_of_ne]
        omega

/-- The least sum of deviations that the slots to come can have. -/
def lowest (percent err : Int) : ℚ := ((err - 2 * percent : Int) : ℚ) / 200

theorem lowest_nonpos {percent err : Int} (h : err ≤ 2 * percent) : lowest percent err ≤ 0 := by
  have hcast : ((err - 2 * percent : Int) : ℚ) ≤ 0 := by exact_mod_cast Int.sub_nonpos_of_le h
  exact div_nonpos_of_nonpos_of_nonneg hcast (by norm_num)

theorem lowest_add_one_pos {percent err : Int} (h : 2 * percent - 200 < err) :
    0 < lowest percent err + 1 := by
  have hcast : ((2 * percent - 200 : Int) : ℚ) < (err : ℚ) := by exact_mod_cast h
  push_cast at hcast
  rw [lowest]
  push_cast
  linarith

/-- **The invariant of the loop**: `err` stays above `2 * percent - 200` and never
exceeds `2 * percent`. Each slot moves the interval of the others by its deviation. -/
theorem slots_within {percent : Int} (hpercent : percent ∈ Set.Icc 0 100) (n : Nat)
    (err count : Int) (hlo : 2 * percent - 200 < err) (hhi : err ≤ 2 * percent) :
    Lib.Deviation.Within (lowest percent err) (lowest percent err + 1)
      ((slots percent n err count).1.map fun busy => deviation (busy, percent)) := by
  obtain ⟨hp₀, hp₁⟩ := Set.mem_Icc.mp hpercent
  induction n generalizing err count with
  | zero => exact Lib.Deviation.within_nil (lowest_nonpos hhi) (lowest_add_one_pos hlo)
  | succ n ih =>
      rw [slots]
      split
      · have hrest := ih (err + 2 * (percent - 100)) (count + 1) (by omega) (by omega)
        have hmove : lowest percent (err + 2 * (percent - 100)) =
            lowest percent err - deviation (true, percent) := by
          simp only [lowest, deviation, if_true]
          push_cast
          ring
        rw [hmove, sub_add_eq_add_sub] at hrest
        exact Lib.Deviation.within_cons (lowest_nonpos hhi) (lowest_add_one_pos hlo) hrest
      · have hrest := ih (err + 2 * percent) count (by omega) (by omega)
        have hmove : lowest percent (err + 2 * percent) =
            lowest percent err - deviation (false, percent) := by
          simp only [lowest, deviation, Bool.false_eq_true, if_false]
          push_cast
          ring
        rw [hmove, sub_add_eq_add_sub] at hrest
        exact Lib.Deviation.within_cons (lowest_nonpos hhi) (lowest_add_one_pos hlo) hrest

/-! ### One call -/

theorem callSlots_deviation (percent : Int) (busy : List Bool) :
    (callSlots percent busy).map deviation =
      busy.map fun busy => deviation (busy, clamp percent) := by
  rw [callSlots, List.map_map]
  rfl

theorem busySlots_callSlots (percent : Int) (busy : List Bool) :
    busySlots (callSlots percent busy) = busy.count true := by
  rw [busySlots, callSlots, List.countP_map, List.count]
  exact List.countP_congr fun b _ => by simp

theorem requested_callSlots (percent : Int) {busy : List Bool} (h : busy.length = 100) :
    requested (callSlots percent busy) = clamp percent := by
  have hconst : (callSlots percent busy).map (fun s => (s.2 : ℚ) / 100) =
      List.replicate 100 ((clamp percent : ℚ) / 100) := by
    rw [callSlots, List.map_map, ← h]
    simp [Function.comp_def]
  rw [requested, hconst, List.sum_replicate, nsmul_eq_mul]
  push_cast
  ring

/-- In the loop of a call the slots are never half a slot ahead and never more than half
a slot behind. -/
theorem callSlots_within (percent : Int) :
    Lib.Deviation.Within (-1 / 2) (1 / 2)
      ((callSlots percent (slots (clamp percent) 100 (2 * clamp percent - 100) 0).1).map
        deviation) := by
  have hmem := clamp_mem percent
  obtain ⟨hp₀, hp₁⟩ := Set.mem_Icc.mp hmem
  have h := slots_within hmem 100 (2 * clamp percent - 100) 0 (by omega) (by omega)
  have hlo : lowest (clamp percent) (2 * clamp percent - 100) = -1 / 2 := by
    rw [lowest]
    push_cast
    ring
  have hhi : (-1 / 2 : ℚ) + 1 = 1 / 2 := by norm_num
  rw [hlo, hhi] at h
  rwa [callSlots_deviation]

/-- An integer less than half a slot away from what was asked for is what was asked for. -/
theorem count_eq_of_within {percent : Int} {busy : List Bool} (hlength : busy.length = 100)
    (h : Lib.Deviation.Within (-1 / 2) (1 / 2) ((callSlots percent busy).map deviation)) :
    (busy.count true : Int) = clamp percent := by
  obtain ⟨hlo, hhi⟩ := h _ List.prefix_rfl
  rw [sum_deviation, busySlots_callSlots, requested_callSlots percent hlength] at hlo hhi
  have hgt : (clamp percent : ℚ) < ((busy.count true : Int) + 1 : Int) := by
    push_cast
    linarith
  have hlt : (((busy.count true : Int) : Int) : ℚ) < (clamp percent + 1 : Int) := by
    push_cast
    linarith
  exact le_antisymm (Int.lt_add_one_iff.mp (Int.cast_lt.mp hlt))
    (Int.lt_add_one_iff.mp (Int.cast_lt.mp hgt))

/-- `load` meets its assertion and delivers what was asked for; at the end nothing is
owed, so the next call starts afresh. -/
theorem load_eq_some (percent : Int) :
    ∃ busy, load percent = some busy ∧ Fulfils percent busy ∧
      Lib.Deviation.Within (-1 / 2) (1 / 2) ((callSlots percent busy).map deviation) ∧
      ((callSlots percent busy).map deviation).sum = 0 := by
  have hlength := length_slots (clamp percent) 100 (2 * clamp percent - 100) 0
  have hwithin := callSlots_within percent
  have hbusy := count_eq_of_within hlength hwithin
  have hcount := count_slots (clamp percent) 100 (2 * clamp percent - 100) 0
  rw [zero_add, hbusy] at hcount
  refine ⟨(slots (clamp percent) 100 (2 * clamp percent - 100) 0).1, if_pos hcount,
    ⟨hlength, hbusy⟩, hwithin, ?_⟩
  rw [sum_deviation, busySlots_callSlots, requested_callSlots percent hlength, sub_eq_zero]
  exact_mod_cast hbusy

/-! ### Any number of calls -/

theorem loads_eq_some (percents : List Int) :
    ∃ calls, percents.mapM load = some calls ∧ List.Forall₂ Fulfils percents calls ∧
      ∀ ds ∈ (List.zipWith callSlots percents calls).map (List.map deviation),
        Lib.Deviation.Within (-1 / 2) (1 / 2) ds ∧ ds.sum = 0 := by
  induction percents with
  | nil => exact ⟨[], rfl, .nil, fun _ h => absurd h List.not_mem_nil⟩
  | cons percent percents ih =>
      obtain ⟨busy, hload, hfulfils, hcall⟩ := load_eq_some percent
      obtain ⟨calls, hloads, hall, hcalls⟩ := ih
      refine ⟨busy :: calls, ?_, .cons hfulfils hall, ?_⟩
      · rw [List.mapM_cons, hload, hloads]
        rfl
      · exact List.forall_mem_cons.mpr ⟨hcall, hcalls⟩

/-- Whatever is asked for, every call meets its assertion and delivers it, and every
window of slots, within a call or across calls, has the share of busy slots it should
have, but for less than one slot. -/
theorem load_evenlySpread (percents : List Int) :
    ∃ calls, percents.mapM load = some calls ∧ List.Forall₂ Fulfils percents calls ∧
      EvenlySpread (timeline percents calls) := by
  obtain ⟨calls, hloads, hall, hcalls⟩ := loads_eq_some percents
  refine ⟨calls, hloads, hall, ?_⟩
  intro w hw
  have hwithin := Lib.Deviation.Within.flatten (by norm_num) (by norm_num) hcalls
  rw [← List.map_flatten] at hwithin
  have hlt := hwithin.abs_sum_lt (hw.map deviation)
  rw [sum_deviation] at hlt
  norm_num at hlt
  exact hlt

/-- Half of the time, every other slot. -/
example : (load 50).map (List.take 6) = some [false, true, false, true, false, true] := by decide

end Dummyload.Load
