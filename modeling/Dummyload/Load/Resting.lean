import Dummyload.Load.Threads

/-!
# Dummyload.Load.Resting

The threads of `dummyload` come to rest: in an idle slot they are all waiting after
a few steps (`idle_slot_settles`), and past the control loop `dummyload()` joins them
and returns (`dummyload_returns`).

Both are bounds on how long a run can go on, by a rank of where each thread stands.
A spurious wake-up takes a thread one step back.
-/

namespace Dummyload.Load

open Lib.Machine (run)
open Lib.Monitor (Condition)

namespace System

variable {sys sys' : System}

/-- A woken thread and one that has just tested `g_done` are about to do the same. -/
theorem apply_eq_of_ready {t : Thread} (ht : t = .entering ∨ ∃ w, t = .waiting w ∧ w ≠ .blocked)
    {f : Thread → Nat} (hnotified : f (.waiting .notified) = f .entering)
    (hawake : f (.waiting .awake) = f .entering) : f t = f .entering := by
  rcases ht with rfl | ⟨w, rfl, hw⟩
  · rfl
  · cases w with
    | blocked => exact absurd rfl hw
    | notified => exact hnotified
    | awake => exact hawake

/-! ### Idle slots -/

/-- The thread that takes a step; `none` for a step of `dummyload()`. -/
def thread : Input → Option Nat
  | .test i | .enter i | .awakes i | .burnt i => some i
  | _ => none

/-- A step of a thread, and not of `dummyload()`. -/
abbrev OfThread (input : Input) : Prop := (thread input).isSome = true

/-- How many steps a thread may still take in an idle slot. -/
def idleRank : Thread → Nat
  | .testing => 2
  | .entering => 1
  | .waiting .blocked => 0
  | .waiting _ => 1
  | .burning => 3
  | .exited => 0

/-- `sys` in the idle slot that began with these calls of `busy`. -/
def Idle (started : List Nat) (sys : System) : Prop :=
  sys.busy = false ∧ sys.started = started

/-- The same for thread `j`. -/
def threadRank (j : Nat) (sys : System) : Nat := sys.threads[j]?.elim 0 idleRank

theorem threadRank_le (j : Nat) (sys : System) : threadRank j sys ≤ 3 := by
  rw [threadRank]
  cases sys.threads[j]? with
  | none => exact Nat.zero_le 3
  | some t =>
      cases t with
      | waiting w => cases w <;> decide
      | _ => decide

/-- A thread moves, and the other ones stay where they are. -/
theorem threadRank_setThread {i : Nat} {a b : Thread} {extra : Nat}
    (hi : sys.threads[i]? = some a) (hrank : idleRank b + 1 ≤ idleRank a + extra) (j : Nat) :
    threadRank j (sys.setThread i b) + (if i = j then 1 else 0) ≤
      threadRank j sys + if i = j then extra else 0 := by
  rw [threadRank, threadRank, System.setThread]
  by_cases hij : i = j
  · subst hij
    rw [List.getElem?_set_self (List.getElem?_eq_some_iff.mp hi).1, hi, if_pos rfl, if_pos rfl]
    exact hrank
  · rw [List.getElem?_set_ne hij, if_neg hij, if_neg hij]

theorem idle_step {started : List Nat} {input : Input} (h : Idle started sys)
    (hinput : OfThread input) (hstep : step sys input = some sys') :
    Idle started sys' ∧ ∀ j,
      threadRank j sys' + (if thread input = some j then 1 else 0) ≤
        threadRank j sys + if input = .awakes j then 2 else 0 := by
  obtain ⟨hidle, hstarted⟩ := h
  cases step_moves hstep with
  | @test i hi =>
      have hrank : idleRank (if sys.done then .exited else .entering) + 1 ≤
          idleRank .testing + 0 := by
        split <;> decide
      refine ⟨⟨hidle, hstarted⟩, fun j => ?_⟩
      simpa [thread] using threadRank_setThread hi hrank j
  | @enter i t hi ht =>
      have hready : idleRank t = 1 := apply_eq_of_ready (f := idleRank) ht rfl rfl
      have hrank : idleRank (.waiting .blocked) + 1 ≤ idleRank t + 0 := by
        rw [hready]
        decide
      rw [System.enter, hidle]
      refine ⟨⟨hidle, hstarted⟩, fun j => ?_⟩
      simpa [thread] using threadRank_setThread hi hrank j
  | @awakes i hi =>
      have hrank : idleRank (.waiting .awake) + 1 ≤ idleRank (.waiting .blocked) + 2 := by decide
      refine ⟨⟨hidle, hstarted⟩, fun j => ?_⟩
      simpa [thread] using threadRank_setThread hi hrank j
  | @burnt i hi =>
      have hrank : idleRank .testing + 1 ≤ idleRank .burning + 0 := by decide
      refine ⟨⟨hidle, hstarted⟩, fun j => ?_⟩
      have hmove := threadRank_setThread hi hrank j
      simpa [thread, threadRank] using hmove
  | _ => cases hinput

/-- In a slot in which `g_busy` is not set, whatever the order of the threads: no thread starts
to burn, each is at most once at the end of `busy`, and it takes no more than three steps, and
two for each of its spurious wake-ups, to the point where all of them wait. -/
theorem idle_slot_settles {numThreads type : Int} {inputs slot : List Input}
    {sys sys' : System} (hrun : run step (dummyload numThreads type) inputs = some sys)
    (hidle : sys.busy = false) (hslot : ∀ input ∈ slot, OfThread input)
    (hruns : run step sys slot = some sys') :
    sys'.started = sys.started ∧
      (∀ i, sys'.finished.count i ≤ sys.finished.count i + 1) ∧
      (∀ i, slot.countP (thread · = some i) ≤ 3 + 2 * slot.count (.awakes i)) ∧
      ((∀ input, OfThread input → spurious input = false → sys'.step input = none) →
        ∀ t ∈ sys'.threads, t = .waiting .blocked ∨ t = .exited) := by
  have hinv : ∀ s i t, Idle sys.started s → OfThread i → step s i = some t →
      Idle sys.started t := fun s i t hs hi h => (idle_step hs hi h).1
  obtain ⟨-, hstarted⟩ := Lib.Machine.invariant_of_meets hinv ⟨hidle, rfl⟩
    (Lib.Machine.meets_of_forall hslot) hruns
  have h := sound_run hrun
  have h' := Lib.Machine.invariant (fun _ _ _ => sound_step) h hruns
  refine ⟨hstarted, fun i => ?_, fun i => ?_, fun hstuck t ht => ?_⟩
  · have hcount := h.counts i
    have hcount' := h'.counts i
    rw [hstarted, hcount] at hcount'
    split at hcount' <;> omega
  · have hlowers : Lib.Progress.Lowers step (Idle sys.started) OfThread
        (fun input => decide (thread input = some i)) (fun input => decide (input = .awakes i))
        (threadRank i) := by
      intro s input t hs hinput h
      simpa using (idle_step hs hinput h).2 i
    obtain ⟨-, hcount⟩ := Lib.Progress.countP_le hinv hlowers ⟨hidle, rfl⟩ hslot hruns
    have hrank := threadRank_le i sys
    have hawakes : slot.count (.awakes i) = slot.countP fun input => decide (input = .awakes i) :=
      List.countP_congr fun input _ => by simp
    omega
  · by_contra hne
    obtain ⟨hblocked, hexited⟩ := not_or.mp hne
    obtain ⟨i, hi⟩ := List.mem_iff_getElem?.mp ht
    obtain ⟨input, hinput, hsome⟩ := exists_step_of_thread hi hexited hblocked
    have hnone : sys'.step input = none := by
      fin_cases hinput <;> exact hstuck _ rfl rfl
    rw [hnone] at hsome
    cases hsome

/-- An idle slot of `load(50)` begins. -/
def idleRun : List Input := [.start, .switch, .load 50, .slot]

/-- The thread looks for work twice in it. -/
def idleSlot : List Input := [.test 0, .enter 0, .awakes 0, .enter 0]

theorem idle_slot_settles_idleRun : ∃ sys sys',
    run step (dummyload 1 1) idleRun = some sys ∧ run step sys idleSlot = some sys' ∧
      sys'.started = sys.started ∧ (∀ i, sys'.finished.count i ≤ sys.finished.count i + 1) ∧
      ∀ i, idleSlot.countP (thread · = some i) ≤ 3 + 2 * idleSlot.count (.awakes i) := by
  have hmap : ((run step (dummyload 1 1) idleRun).bind fun sys =>
      (run step sys idleSlot).map fun _ => sys.busy) = some false := by
    decide +kernel
  obtain ⟨sys, hrun, hmap⟩ := Option.bind_eq_some_iff.mp hmap
  obtain ⟨sys', hslot, hidle⟩ := Option.map_eq_some_iff.mp hmap
  obtain ⟨hstarted, hfinished, hsteps, -⟩ := idle_slot_settles hrun hidle (by decide) hslot
  exact ⟨sys, sys', hrun, hslot, hstarted, hfinished, hsteps⟩

/-! ### The end -/

/-- How many steps a thread may still take when there is no control loop. -/
def endRank (busy done : Bool) : Thread → Nat
  | .testing => if done then 1 else 6
  | .entering => if busy then 3 else 5
  | .waiting .blocked => 4
  | .waiting _ => if busy then 3 else 5
  | .burning => 2
  | .exited => 0

theorem endRank_done_le (busy done : Bool) (t : Thread) :
    endRank busy true t ≤ endRank busy done t := by
  cases t with
  | testing => cases done <;> simp [endRank]
  | waiting w => cases w <;> exact Nat.le_refl _
  | _ => exact Nat.le_refl _

theorem endRank_broadcast_le (busy done : Bool) (t : Thread) :
    endRank true done (if gCond.status t = some .blocked then gCond.wake t else t) ≤
      endRank busy done t := by
  cases t with
  | entering => cases busy <;> simp [gCond, endRank]
  | waiting w => cases w <;> cases busy <;> simp [gCond, endRank]
  | _ => exact Nat.le_refl _

/-- The same for `dummyload()`, with the threads that it has not started. -/
def callerRank (sys : System) : Nat :=
  match sys.caller with
  | .starting => 7 * (sys.numThreads - sys.threads.length) + sys.numThreads + 4
  | .loading _ => 0
  | .stopping => sys.numThreads + 3
  | .releasing => sys.numThreads + 2
  | .joining i => sys.numThreads - i + 1
  | .returned => 0

def endSum (sys : System) : Nat :=
  (sys.threads.map (endRank sys.busy sys.done)).sum + sys.callerRank

/-- Without a control loop, `g_busy` is set only after `g_done`. -/
structure Ending (n : Nat) (type : Int) (sys : System) : Prop extends Sound n type sys where
  no_load : ∀ rest, sys.caller ≠ .loading rest
  done_of_busy : sys.busy = true → sys.done = true
  busy_of_burning : ∀ t ∈ sys.threads, t = .burning → sys.busy = true

section Ending

variable {n i : Nat} {type : Int} {a b : Thread} {input : Input}

/-- One thread moves, and its rank drops by more than `extra` allows for. -/
theorem Ending.move (h : Ending n type sys) {started finished : List Nat} (extra : Nat)
    (hsound : Sound n type { sys.setThread i b with started := started, finished := finished })
    (hi : sys.threads[i]? = some a) (hb : b = .burning → sys.busy = true)
    (hrank : endRank sys.busy sys.done b + 1 ≤ endRank sys.busy sys.done a + extra) :
    Ending n type { sys.setThread i b with started := started, finished := finished } ∧
      endSum { sys.setThread i b with started := started, finished := finished } + 1 ≤
        sys.endSum + extra := by
  have hsum := Lib.Progress.sum_move hi (endRank sys.busy sys.done) b
  refine ⟨{ toSound := hsound, no_load := h.no_load, done_of_busy := h.done_of_busy,
            busy_of_burning := fun t ht => ?_ }, ?_⟩
  · rcases List.mem_or_eq_of_mem_set ht with ht | rfl
    · exact h.busy_of_burning t ht
    · exact hb
  · have hcaller : callerRank { sys.setThread i b with started := started, finished := finished } =
        sys.callerRank := by
      simp only [callerRank, System.setThread, List.length_set]
    show ((sys.threads.set i b).map (endRank sys.busy sys.done)).sum + _ + 1 ≤ sys.endSum + extra
    rw [hcaller, endSum]
    omega

/-- `dummyload()` goes on without a critical section, and no thread moves. -/
theorem Ending.setCaller (h : Ending n type sys) {caller : Caller}
    (hsound : Sound n type { sys with caller := caller }) (hload : ∀ rest, caller ≠ .loading rest)
    (hrank : callerRank { sys with caller := caller } + 1 ≤ sys.callerRank) :
    Ending n type { sys with caller := caller } ∧
      endSum { sys with caller := caller } + 1 ≤ sys.endSum := by
  refine ⟨{ toSound := hsound, no_load := hload, done_of_busy := h.done_of_busy,
            busy_of_burning := h.busy_of_burning }, ?_⟩
  rw [endSum, endSum, Nat.add_assoc]
  exact Nat.add_le_add_left hrank _

theorem Ending.start (h : Ending n type sys)
    (hsound : Sound n type { sys with threads := sys.threads ++ [.testing] })
    (hcaller : sys.caller = .starting) (hmore : sys.threads.length < sys.numThreads) :
    Ending n type { sys with threads := sys.threads ++ [.testing] } ∧
      endSum { sys with threads := sys.threads ++ [.testing] } + 1 ≤ sys.endSum := by
  refine ⟨{ toSound := hsound, no_load := h.no_load, done_of_busy := h.done_of_busy,
            busy_of_burning := fun t ht => ?_ }, ?_⟩
  · rcases List.mem_append.mp ht with ht | ht
    · exact h.busy_of_burning t ht
    · obtain rfl := List.mem_singleton.mp ht
      exact nofun
  · have hrank : endRank sys.busy sys.done .testing ≤ 6 := by
      cases hdone : sys.done <;> simp [endRank]
    simp only [endSum, callerRank, hcaller, List.map_append, List.map_singleton, List.sum_append,
      List.sum_singleton, List.length_append, List.length_singleton]
    omega

theorem Ending.stop (h : Ending n type sys)
    (hsound : Sound n type { sys with done := true, caller := .releasing })
    (hcaller : sys.caller = .stopping) :
    Ending n type { sys with done := true, caller := .releasing } ∧
      endSum { sys with done := true, caller := .releasing } + 1 ≤ sys.endSum := by
  refine ⟨{ toSound := hsound, no_load := nofun, done_of_busy := fun _ => rfl,
            busy_of_burning := h.busy_of_burning }, ?_⟩
  have hranks : (sys.threads.map (endRank sys.busy true)).sum ≤
      (sys.threads.map (endRank sys.busy sys.done)).sum :=
    List.sum_le_sum fun t _ => endRank_done_le sys.busy sys.done t
  rw [endSum, endSum, callerRank, callerRank, hcaller]
  exact Nat.add_le_add_right hranks (sys.numThreads + 3)

/-- Whoever is blocked is woken, and then burns once. -/
theorem Ending.release (h : Ending n type sys)
    (hsound : Sound n type (sys.setBusy true (.joining 0)))
    (hcaller : sys.caller = .releasing) :
    Ending n type (sys.setBusy true (.joining 0)) ∧
      endSum (sys.setBusy true (.joining 0)) + 1 ≤ sys.endSum := by
  refine ⟨{ toSound := hsound, no_load := nofun,
            done_of_busy := fun _ => h.releasing hcaller, busy_of_burning := fun _ _ _ => rfl }, ?_⟩
  have hranks : ((gCond.broadcast sys.threads).map (endRank true sys.done)).sum ≤
      (sys.threads.map (endRank sys.busy sys.done)).sum := by
    rw [Condition.broadcast, List.map_map]
    exact List.sum_le_sum fun t _ => endRank_broadcast_le sys.busy sys.done t
  rw [endSum, endSum, callerRank, callerRank, hcaller]
  exact Nat.add_le_add_right hranks (sys.numThreads + 2)

/-- A thread in the critical section waits, or burns after `g_done` was set. -/
theorem Ending.enter (h : Ending n type sys) (hsound : Sound n type (sys.enter i))
    (hi : sys.threads[i]? = some a) (ha : a = .entering ∨ ∃ w, a = .waiting w ∧ w ≠ .blocked) :
    Ending n type (sys.enter i) ∧ (sys.enter i).endSum + 1 ≤ sys.endSum := by
  have hrank : endRank sys.busy sys.done a = if sys.busy then 3 else 5 :=
    apply_eq_of_ready (f := endRank sys.busy sys.done) ha rfl rfl
  rw [System.enter] at hsound ⊢
  cases hbusy : sys.busy with
  | true =>
      rw [hbusy] at hrank
      rw [if_pos hbusy] at hsound
      rw [if_pos rfl]
      refine h.move 0 hsound hi (fun _ => hbusy) ?_
      rw [hbusy, hrank]
      rfl
  | false =>
      rw [hbusy] at hrank
      rw [if_neg (by simp [hbusy])] at hsound
      rw [if_neg Bool.false_ne_true]
      refine h.move 0 hsound hi (fun h => by cases h) ?_
      rw [hbusy, hrank]
      rfl

theorem ending_step (htype : type ∉ [1, 2, 3]) (h : Ending n type sys)
    (hstep : step sys input = some sys') :
    Ending n type sys' ∧ sys'.endSum + 1 ≤ sys.endSum + if spurious input then 2 else 0 := by
  have hsound := sound_step h.toSound hstep
  cases step_moves hstep with
  | start hcaller hmore => exact h.start hsound hcaller hmore
  | controls hcaller hall hcontrol =>
      rw [h.type_eq] at hcontrol
      exact absurd hcontrol htype
  | stops hcaller hall _ =>
      refine h.setCaller hsound nofun ?_
      rw [callerRank, callerRank, hcaller]
      dsimp only
      omega
  | load hcaller => exact absurd hcaller (h.no_load [])
  | slot hcaller => exact absurd hcaller (h.no_load _)
  | stop hcaller => exact h.stop hsound hcaller
  | release hcaller => exact h.release hsound hcaller
  | @join i hcaller hi =>
      have hlength := (h.length_eq_of_joining hcaller).1
      have hlt := (List.getElem?_eq_some_iff.mp hi).1
      rw [hlength, ← h.numThreads_eq] at hlt
      refine h.setCaller hsound nofun ?_
      rw [callerRank, callerRank, hcaller]
      dsimp only
      omega
  | ret hcaller =>
      refine h.setCaller hsound nofun ?_
      rw [callerRank, callerRank, hcaller]
      exact Nat.le_add_left 1 _
  | @test i hi =>
      refine h.move _ hsound hi (by split <;> exact nofun) ?_
      cases hdone : sys.done with
      | true => simp [endRank]
      | false =>
          have hidle : sys.busy = false := by
            rw [← Bool.not_eq_true]
            intro hbusy
            rw [h.done_of_busy hbusy] at hdone
            cases hdone
          simp [endRank, hidle]
  | @enter i t hi ht => exact h.enter hsound hi ht
  | @awakes i hi =>
      refine h.move _ hsound hi nofun ?_
      show (if sys.busy then 3 else 5) + 1 ≤ 4 + 2
      split <;> decide
  | @burnt i hi =>
      have hdone := h.done_of_busy (h.busy_of_burning _ (List.mem_of_getElem? hi) rfl)
      refine h.move _ hsound hi nofun ?_
      simp [endRank, hdone, spurious]

end Ending

/-- With a type that has no control loop, `dummyload()` returns: no run is longer than eight
steps for each thread and four more, spurious wake-ups apart, and one that cannot go on has
joined every thread. -/
theorem dummyload_returns {numThreads type : Int} {inputs : List Input} {sys : System}
    (htype : type ∉ [1, 2, 3])
    (hrun : run step (dummyload numThreads type) inputs = some sys) :
    inputs.length ≤ 8 * (dummyload numThreads type).numThreads + 4 + 2 * inputs.countP spurious ∧
      ((∀ input, spurious input = false → sys.step input = none) →
        sys.caller = .returned ∧
          sys.threads = List.replicate (dummyload numThreads type).numThreads .exited) := by
  have hstart : Ending (dummyload numThreads type).numThreads type (dummyload numThreads type) :=
    { toSound := sound_dummyload numThreads type
      no_load := nofun
      done_of_busy := nofun
      busy_of_burning := fun t ht => absurd ht List.not_mem_nil }
  have hlowers : Lib.Progress.Lowers step (Ending (dummyload numThreads type).numThreads type)
      (fun _ => True) (fun _ => true) spurious endSum :=
    fun s i t hs _ h => (ending_step htype hs h).2
  obtain ⟨hending, hlength⟩ := Lib.Progress.length_le
    (fun s i t hs _ h => (ending_step htype hs h).1) hlowers hstart (fun _ _ => trivial) hrun
  refine ⟨?_, fun hstuck => ?_⟩
  · have hsum : (dummyload numThreads type).endSum =
        7 * (dummyload numThreads type).numThreads + (dummyload numThreads type).numThreads + 4 :=
      Nat.zero_add _
    omega
  · have hcaller : sys.caller = .returned := by
      by_contra hne
      obtain ⟨input, hinput, hsome⟩ := hending.exists_step hne
      rw [hstuck input hinput] at hsome
      cases hsome
    exact ⟨hcaller, hending.threads_of_returned hcaller⟩

/-- One thread waits and the other has not looked yet when `g_done` is set. -/
def endRun : List Input :=
  [.start, .start, .switch, .test 0, .enter 0, .stop, .release, .enter 0, .burnt 0, .test 0,
    .test 1, .join, .join, .ret]

theorem dummyload_returns_endRun : ∃ sys,
    run step (dummyload 2 0) endRun = some sys ∧
      endRun.length ≤ 8 * 2 + 4 + 2 * endRun.countP spurious ∧
      ((∀ input, spurious input = false → sys.step input = none) →
        sys.caller = .returned ∧ sys.threads = [.exited, .exited]) := by
  obtain ⟨sys, hrun⟩ := Option.isSome_iff_exists.mp
    (by decide +kernel : (run step (dummyload 2 0) endRun).isSome = true)
  have hreturns := dummyload_returns (by decide) hrun
  exact ⟨sys, hrun, hreturns⟩

end System

end Dummyload.Load
