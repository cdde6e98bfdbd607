import Dummyload.Lib.Progress
import Dummyload.Load.DutyCycle

/-!
# Dummyload.Load.Threads

The threads of `dummyload` (`examples/dummyload/dummyload.cpp`): `threadFunc` burns
time while `g_busy` says so, `load` sets `g_busy` slot by slot, and at the end
`dummyload()` sets `g_done` and joins the threads.

A step is what a thread does from one lock of `g_mutex` to the next release, or one
of the things it does without the mutex. Every order of these is a run, with spurious
wake-ups of `g_cond.wait()` wherever they are possible.

No wake-up of `g_cond` is lost: nobody is left blocked in a busy slot, or when
`dummyload()` joins the threads (`nobody_left_waiting`).
-/

namespace Dummyload.Load

open Lib.Machine (run)
open Lib.Monitor (Wait Condition)

/-! ### The code -/

/-- A thread, in `threadFunc()`. -/
inductive Thread
  /-- Before the test of `while (g_done.get() == 0)`. -/
  | testing
  /-- Past the test, and not in the critical section yet. -/
  | entering
  /-- In `g_cond.wait()`. -/
  | waiting (w : Wait)
  /-- In `busy(g_cycles)`. -/
  | burning
  | exited
  deriving DecidableEq, Repr

/-- Where the call `dummyload(numThreads, type)` stands. -/
inductive Caller
  /-- In the loop that starts the threads. -/
  | starting
  /-- In `fixed()`, `cosine()` or `sawtooth()`: the slots that are left of the last call
  of `load`. -/
  | loading (rest : List Bool)
  /-- Before `g_done.getAndSet(1)`. -/
  | stopping
  /-- Before the critical section after it. -/
  | releasing
  /-- Before `threads[i]->join()`. -/
  | joining (i : Nat)
  | returned
  deriving DecidableEq, Repr

structure System where
  numThreads : Nat
  type : Int
  /-- Whether `g_done` is not 0. -/
  done : Bool := false
  /-- `g_busy`. -/
  busy : Bool := false
  threads : List Thread := []
  caller : Caller := .starting
  /-- The threads that called `busy(g_cycles)`, one entry for each call. -/
  started : List Nat := []
  /-- The same for the calls that have returned. -/
  finished : List Nat := []
  deriving DecidableEq, Repr

def gCond : Condition Thread where
  status
    | .waiting w => some w
    | _ => none
  wake _ := .waiting .notified
  status_wake _ _ := rfl

/-- `dummyload(numThreads, type)` is called. -/
def dummyload (numThreads type : Int) : System where
  numThreads := (if numThreads < 1 then 1 else numThreads).toNat
  type := type

/-- What a thread does next. -/
inductive Input
  /-- `dummyload` starts a thread. -/
  | start
  /-- `switch (type)`. -/
  | switch
  /-- `load(percent)` is called, with whatever the control has worked out. -/
  | load (percent : Int)
  /-- The critical section of a slot. -/
  | slot
  /-- `g_done.getAndSet(1)`. -/
  | stop
  /-- The critical section after it. -/
  | release
  /-- A `join()` returns. -/
  | join
  /-- `dummyload` returns. -/
  | ret
  /-- Thread `i` tests `g_done`. -/
  | test (i : Nat)
  /-- Thread `i` gets the mutex and tests `g_busy`. -/
  | enter (i : Nat)
  /-- Thread `i` is woken without a signal. -/
  | awakes (i : Nat)
  /-- The call of `busy` by thread `i` returns. -/
  | burnt (i : Nat)
  deriving DecidableEq, Repr

namespace System

/-- A critical section of `dummyload()`: `g_busy = busy; g_cond.notifyAll()`. -/
def setBusy (sys : System) (busy : Bool) (caller : Caller) : System :=
  { sys with busy := busy, threads := gCond.broadcast sys.threads, caller := caller }

def setThread (sys : System) (i : Nat) (t : Thread) : System :=
  { sys with threads := sys.threads.set i t }

/-- A thread in the critical section of `threadFunc`, up to `wait()` or its end. -/
def enter (sys : System) (i : Nat) : System :=
  if sys.busy then { sys.setThread i .burning with started := sys.started ++ [i] }
  else sys.setThread i (.waiting .blocked)

def step (sys : System) : Input → Option System
  | .start =>
    if sys.caller = .starting ∧ sys.threads.length < sys.numThreads then
      some { sys with threads := sys.threads ++ [.testing] }
    else none
  | .switch =>
    if sys.caller = .starting ∧ sys.threads.length = sys.numThreads then
      some { sys with
        caller := if sys.type ∈ [1, 2, 3] then .loading [] else .stopping }
    else none
  | .load percent =>
    -- `fixed`, `cosine` and `sawtooth` call `load` for ever
    if sys.caller = .loading [] then
      (Load.load percent).map fun slots => { sys with caller := .loading slots }
    else none
  | .slot =>
    match sys.caller with
    | .loading (busy :: rest) => some (sys.setBusy busy (.loading rest))
    | _ => none
  | .stop =>
    if sys.caller = .stopping then some { sys with done := true, caller := .releasing } else none
  | .release =>
    if sys.caller = .releasing then some (sys.setBusy true (.joining 0)) else none
  | .join =>
    match sys.caller with
    | .joining i =>
      if sys.threads[i]? = some .exited then some { sys with caller := .joining (i + 1) } else none
    | _ => none
  | .ret =>
    if sys.caller = .joining sys.numThreads then some { sys with caller := .returned } else none
  | .test i =>
    match sys.threads[i]? with
    | some .testing => some (sys.setThread i (if sys.done then .exited else .entering))
    | _ => none
  | .enter i =>
    match sys.threads[i]? with
    | some .entering => some (sys.enter i)
    | some (.waiting w) => if w = .blocked then none else some (sys.enter i)
    | _ => none
  | .awakes i =>
    match sys.threads[i]? with
    | some (.waiting .blocked) => some (sys.setThread i (.waiting .awake))
    | _ => none
  | .burnt i =>
    match sys.threads[i]? with
    | some .burning =>
      some { sys.setThread i .testing with finished := sys.finished ++ [i] }
    | _ => none

/-! ### What a step does -/

/-- Every outcome of a step, with the tests that lead there. -/
inductive Moves (sys : System) : Input → System → Prop
  | start (hcaller : sys.caller = .starting) (hmore : sys.threads.length < sys.numThreads) :
      Moves sys .start { sys with threads := sys.threads ++ [.testing] }
  | controls (hcaller : sys.caller = .starting) (hall : sys.threads.length = sys.numThreads)
      (htype : sys.type ∈ [1, 2, 3]) : Moves sys .switch { sys with caller := .loading [] }
  | stops (hcaller : sys.caller = .starting) (hall : sys.threads.length = sys.numThreads)
      (htype : sys.type ∉ [1, 2, 3]) : Moves sys .switch { sys with caller := .stopping }
  | load {percent : Int} {slots : List Bool} (hcaller : sys.caller = .loading []) :
      Moves sys (.load percent) { sys with caller := .loading slots }
  | slot {busy : Bool} {rest : List Bool} (hcaller : sys.caller = .loading (busy :: rest)) :
      Moves sys .slot (sys.setBusy busy (.loading rest))
  | stop (hcaller : sys.caller = .stopping) :
      Moves sys .stop { sys with done := true, caller := .releasing }
  | release (hcaller : sys.caller = .releasing) :
      Moves sys .release (sys.setBusy true (.joining 0))
  | join {i : Nat} (hcaller : sys.caller = .joining i) (hi : sys.threads[i]? = some .exited) :
      Moves sys .join { sys with caller := .joining (i + 1) }
  | ret (hcaller : sys.caller = .joining sys.numThreads) :
      Moves sys .ret { sys with caller := .returned }
  | test {i : Nat} (hi : sys.threads[i]? = some .testing) :
      Moves sys (.test i) (sys.setThread i (if sys.done then .exited else .entering))
  | enter {i : Nat} {t : Thread} (hi : sys.threads[i]? = some t)
      (ht : t = .entering ∨ ∃ w, t = .waiting w ∧ w ≠ .blocked) :
      Moves sys (.enter i) (sys.enter i)
  | awakes {i : Nat} (hi : sys.threads[i]? = some (.waiting .blocked)) :
      Moves sys (.awakes i) (sys.setThread i (.waiting .awake))
  | burnt {i : Nat} (hi : sys.threads[i]? = some .burning) :
      Moves sys (.burnt i)
        { sys.setThread i .testing with finished := sys.finished ++ [i] }

variable {sys sys' : System}

/-- Everything that is proved of runs is read off these outcomes. -/
theorem step_moves {i : Input} (h : step sys i = some sys') : Moves sys i sys' := by
  cases i with
  | start =>
      rw [step, Option.ite_none_right_eq_some] at h
      obtain ⟨⟨hcaller, hmore⟩, h⟩ := h
      obtain rfl := Option.some.inj h
      exact .start hcaller hmore
  | switch =>
      rw [step, Option.ite_none_right_eq_some] at h
      obtain ⟨⟨hcaller, hall⟩, h⟩ := h
      obtain rfl := Option.some.inj h
      split
      · rename_i htype
        exact .controls hcaller hall htype
      · rename_i htype
        exact .stops hcaller hall htype
  | load percent =>
      rw [step, Option.ite_none_right_eq_some] at h
      obtain ⟨hcaller, h⟩ := h
      obtain ⟨slots, -, rfl⟩ := Option.map_eq_some_iff.mp h
      exact .load hcaller
  | slot =>
      rw [step] at h
      split at h
      · rename_i busy rest hcaller
        obtain rfl := Option.some.inj h
        exact .slot hcaller
      · cases h
  | stop =>
      rw [step, Option.ite_none_right_eq_some] at h
      obtain ⟨hcaller, h⟩ := h
      obtain rfl := Option.some.inj h
      exact .stop hcaller
  | release =>
      rw [step, Option.ite_none_right_eq_some] at h
      obtain ⟨hcaller, h⟩ := h
      obtain rfl := Option.some.inj h
      exact .release hcaller
  | join =>
      rw [step] at h
      split at h
      · rename_i i hcaller
        rw [Option.ite_none_right_eq_some] at h
        obtain ⟨hi, h⟩ := h
        obtain rfl := Option.some.inj h
        exact .join hcaller hi
      · cases h
  | ret =>
      rw [step, Option.ite_none_right_eq_some] at h
      obtain ⟨hcaller, h⟩ := h
      obtain rfl := Option.some.inj h
      exact .ret hcaller
  | test i =>
      rw [step] at h
      split at h
      · rename_i hi
        obtain rfl := Option.some.inj h
        exact .test hi
      · cases h
  | enter i =>
      rw [step] at h
      split at h
      · rename_i hi
        obtain rfl := Option.some.inj h
        exact .enter hi (Or.inl rfl)
      · rename_i w hi
        split at h
        · cases h
        · rename_i hw
          obtain rfl := Option.some.inj h
          exact .enter hi (Or.inr ⟨w, rfl, hw⟩)
      · cases h
  | awakes i =>
      rw [step] at h
      split at h
      · rename_i hi
        obtain rfl := Option.some.inj h
        exact .awakes hi
      · cases h
  | burnt i =>
      rw [step] at h
      split at h
      · rename_i hi
        obtain rfl := Option.some.inj h
        exact .burnt hi
      · cases h

/-! ### The invariant -/

/-- How many threads have been joined, of `n`. -/
def joined (n : Nat) : Caller → Nat
  | .joining i => i
  | .returned => n
  | _ => 0

/-- `dummyload()` is past the control loop, and has woken the threads. -/
def Released : Caller → Prop
  | .joining _ | .returned => True
  | _ => False

structure Sound (n : Nat) (type : Int) (sys : System) : Prop where
  numThreads_eq : sys.numThreads = n
  type_eq : sys.type = type
  length_le : sys.threads.length ≤ n
  length_eq : sys.caller ≠ .starting → sys.threads.length = n
  awake : sys.busy = true → gCond.count .blocked sys.threads = 0
  released : Released sys.caller → sys.busy = true ∧ sys.done = true
  releasing : sys.caller = .releasing → sys.done = true
  exited : ∀ i < joined n sys.caller, sys.threads[i]? = some .exited
  /-- A thread has finished what it started, but for the call it is in. -/
  counts : ∀ i, sys.started.count i =
    sys.finished.count i + if sys.threads[i]? = some .burning then 1 else 0

section Invariant

variable {n i : Nat} {type : Int} {a b : Thread}

theorem sound_dummyload (numThreads type : Int) :
    Sound (dummyload numThreads type).numThreads type (dummyload numThreads type) where
  numThreads_eq := rfl
  type_eq := rfl
  length_le := Nat.zero_le _
  length_eq h := absurd rfl h
  awake _ := rfl
  released h := h.elim
  releasing h := by cases h
  exited i hi := absurd hi (Nat.not_lt_zero i)
  counts i := rfl

/-- `dummyload()` goes on, without a critical section. -/
theorem Sound.setCaller (h : Sound n type sys) {caller : Caller}
    (hlength : sys.threads.length = n)
    (hreleased : Released caller → sys.busy = true ∧ sys.done = true)
    (hreleasing : caller = .releasing → sys.done = true)
    (hexited : ∀ i < joined n caller, sys.threads[i]? = some .exited) :
    Sound n type { sys with caller := caller } where
  numThreads_eq := h.numThreads_eq
  type_eq := h.type_eq
  length_le := h.length_le
  length_eq _ := hlength
  awake := h.awake
  released := hreleased
  releasing := hreleasing
  exited := hexited
  counts := h.counts

/-- Whatever `g_busy` becomes, nobody is blocked after the broadcast. -/
theorem Sound.setBusy (h : Sound n type sys) {busy : Bool} {caller : Caller}
    (hlength : sys.threads.length = n) (hreleased : Released caller → busy = true ∧ sys.done = true)
    (hreleasing : caller = .releasing → sys.done = true) (hjoined : joined n caller = 0) :
    Sound n type (sys.setBusy busy caller) where
  numThreads_eq := h.numThreads_eq
  type_eq := h.type_eq
  length_le := (Condition.length_broadcast sys.threads).trans_le h.length_le
  length_eq _ := (Condition.length_broadcast sys.threads).trans hlength
  awake _ := Condition.count_blocked_broadcast sys.threads
  released := hreleased
  releasing := hreleasing
  exited i hi := by
    rw [System.setBusy, hjoined] at hi
    exact absurd hi (Nat.not_lt_zero i)
  counts i := by
    simp only [System.setBusy,
      Condition.getElem?_broadcast_iff (rfl : gCond.status .burning = none)]
    exact h.counts i

/-- One thread moves. -/
theorem Sound.move (h : Sound n type sys) (hi : sys.threads[i]? = some a) (ha : a ≠ .exited)
    (hb : sys.busy = true → gCond.status b ≠ some .blocked) {started finished : List Nat}
    (hcounts : ∀ j, started.count j =
      finished.count j + if (sys.threads.set i b)[j]? = some .burning then 1 else 0) :
    Sound n type { sys.setThread i b with started := started, finished := finished } where
  numThreads_eq := h.numThreads_eq
  type_eq := h.type_eq
  length_le := by
    show (sys.threads.set i b).length ≤ n
    rw [List.length_set]
    exact h.length_le
  length_eq hcaller := by
    show (sys.threads.set i b).length = n
    rw [List.length_set]
    exact h.length_eq hcaller
  awake hbusy := by
    have hmove := Condition.count_move (c := gCond) hi .blocked b
    rw [if_neg (hb hbusy), h.awake hbusy] at hmove
    show gCond.count .blocked (sys.threads.set i b) = 0
    omega
  released := h.released
  releasing := h.releasing
  exited j hj := by
    have hexited := h.exited j hj
    have hne : i ≠ j := fun hij => ha (Option.some.inj (hi.symm.trans (hij ▸ hexited)))
    show (sys.threads.set i b)[j]? = some .exited
    rw [List.getElem?_set_ne hne]
    exact hexited
  counts := hcounts

/-- The count of `busy` calls, when a thread moves that is not in one before or after. -/
theorem Sound.counts_set (h : Sound n type sys) (hi : sys.threads[i]? = some a)
    (ha : a ≠ .burning) (hb : b ≠ .burning) (j : Nat) : sys.started.count j =
      sys.finished.count j + if (sys.threads.set i b)[j]? = some .burning then 1 else 0 := by
  rw [h.counts j]
  by_cases hij : i = j
  · subst hij
    have hlt := (List.getElem?_eq_some_iff.mp hi).1
    rw [hi, List.getElem?_set_self hlt, if_neg (fun h => ha (Option.some.inj h)),
      if_neg (fun h => hb (Option.some.inj h))]
  · rw [List.getElem?_set_ne hij]

/-- A thread in the critical section waits in an idle slot, and burns in a busy one. -/
theorem Sound.enter (h : Sound n type sys) (hi : sys.threads[i]? = some a) (ha : a ≠ .exited)
    (hburning : a ≠ .burning) : Sound n type (sys.enter i) := by
  rw [System.enter]
  split
  · refine h.move hi ha (fun _ => by decide) fun j => ?_
    show _ = sys.finished.count j + _
    rw [List.count_append, h.counts j]
    by_cases hij : i = j
    · subst hij
      have hlt := (List.getElem?_eq_some_iff.mp hi).1
      simp [hi, hburning, List.getElem?_set_self hlt]
    · simp [List.getElem?_set_ne hij, hij]
  · rename_i hidle
    exact h.move hi ha (fun hbusy => absurd hbusy hidle) (h.counts_set hi hburning nofun)

theorem sound_step {input : Input} (h : Sound n type sys) (hstep : step sys input = some sys') :
    Sound n type sys' := by
  cases step_moves hstep with
  | start hcaller hmore =>
      exact { h with
        length_le := by
          rw [List.length_append, List.length_singleton, ← h.numThreads_eq]
          exact hmore
        length_eq := fun hne => absurd hcaller hne
        awake := fun hbusy => by
          rw [Condition.count_concat, h.awake hbusy]
          rfl
        exited := fun i hi => by
          rw [hcaller] at hi
          exact absurd hi (Nat.not_lt_zero i)
        counts := fun i => by
          rw [h.counts i, List.getElem?_append]
          by_cases hi : i < sys.threads.length
          · rw [if_pos hi]
          · rw [if_neg hi, List.getElem?_eq_none (Nat.not_lt.mp hi), if_neg nofun, if_neg]
            rw [List.getElem?_singleton]
            split <;> exact nofun }
  | controls hcaller hall htype =>
      exact h.setCaller (hall.trans h.numThreads_eq) nofun nofun fun i hi =>
        absurd hi (Nat.not_lt_zero i)
  | stops hcaller hall htype =>
      exact h.setCaller (hall.trans h.numThreads_eq) nofun nofun fun i hi =>
        absurd hi (Nat.not_lt_zero i)
  | load hcaller =>
      have hlength := h.length_eq (by rw [hcaller]; exact nofun)
      exact h.setCaller hlength nofun nofun fun i hi => absurd hi (Nat.not_lt_zero i)
  | slot hcaller =>
      have hlength := h.length_eq (by rw [hcaller]; exact nofun)
      exact h.setBusy hlength nofun nofun rfl
  | stop hcaller =>
      have hlength := h.length_eq (by rw [hcaller]; exact nofun)
      exact { h with
        length_eq := fun _ => hlength
        released := nofun
        releasing := fun _ => rfl
        exited := fun i hi => absurd hi (Nat.not_lt_zero i) }
  | release hcaller =>
      have hlength := h.length_eq (by rw [hcaller]; exact nofun)
      exact h.setBusy hlength (fun _ => ⟨rfl, h.releasing hcaller⟩) nofun rfl
  | @join i hcaller hi =>
      have hlength := h.length_eq (by rw [hcaller]; exact nofun)
      refine h.setCaller hlength (fun _ => h.released (by rw [hcaller]; trivial)) nofun ?_
      intro j hj
      rcases Nat.lt_succ_iff_lt_or_eq.mp hj with hlt | rfl
      · exact h.exited j (by rw [hcaller]; exact hlt)
      · exact hi
  | ret hcaller =>
      have hlength := h.length_eq (by rw [hcaller]; exact nofun)
      refine h.setCaller hlength (fun _ => h.released (by rw [hcaller]; trivial)) nofun ?_
      intro j hj
      refine h.exited j ?_
      rw [hcaller, joined, h.numThreads_eq]
      exact hj
  | test hi =>
      refine h.move hi nofun ?_ (h.counts_set hi nofun ?_)
      · intro
        split <;> decide
      · split <;> exact nofun
  | enter hi ht =>
      refine h.enter hi ?_ ?_
      · rintro rfl
        simp at ht
      · rintro rfl
        simp at ht
  | awakes hi => exact h.move hi nofun (fun _ => by decide) (h.counts_set hi nofun nofun)
  | @burnt i hi =>
      refine h.move hi nofun (fun _ => by decide) fun j => ?_
      show sys.started.count j = _
      rw [List.count_append, h.counts j]
      by_cases hij : i = j
      · subst hij
        have hlt := (List.getElem?_eq_some_iff.mp hi).1
        simp [hi, List.getElem?_set_self hlt]
      · simp [List.getElem?_set_ne hij, hij]

theorem sound_run {numThreads type : Int} {inputs : List Input}
    (hrun : run step (dummyload numThreads type) inputs = some sys) :
    Sound (dummyload numThreads type).numThreads type sys :=
  Lib.Machine.invariant (fun _ _ _ => sound_step) (sound_dummyload numThreads type) hrun

end Invariant

/-! ### Nobody is forgotten -/

/-- A step that no code takes: `wait()` ends for no reason. -/
def spurious : Input → Bool
  | .awakes _ => true
  | _ => false

section Progress

variable {n i : Nat} {type : Int} {t : Thread}

/-- A thread that is not blocked, and has not exited, can go on. -/
theorem exists_step_of_thread (hi : sys.threads[i]? = some t) (hexited : t ≠ .exited)
    (hblocked : t ≠ .waiting .blocked) :
    ∃ input ∈ [Input.test i, .enter i, .burnt i], (sys.step input).isSome = true := by
  cases t with
  | testing => exact ⟨.test i, by simp, by simp [step, hi]⟩
  | entering => exact ⟨.enter i, by simp, by simp [step, hi]⟩
  | waiting w =>
      have hw : w ≠ .blocked := fun hw => hblocked (congrArg _ hw)
      exact ⟨.enter i, by simp, by simp [step, hi, hw]⟩
  | burning => exact ⟨.burnt i, by simp, by simp [step, hi]⟩
  | exited => exact absurd rfl hexited

theorem Sound.not_blocked (h : Sound n type sys) (hbusy : sys.busy = true)
    (hi : sys.threads[i]? = some t) : t ≠ .waiting .blocked := by
  rintro rfl
  have hpos : 0 < gCond.count .blocked sys.threads :=
    Condition.count_pos_iff.mpr ⟨_, List.mem_of_getElem? hi, rfl⟩
  rw [h.awake hbusy] at hpos
  exact Nat.lt_irrefl 0 hpos

theorem Sound.length_eq_of_joining (h : Sound n type sys) {i : Nat}
    (hcaller : sys.caller = .joining i) : sys.threads.length = n ∧ i ≤ n := by
  have hlength := h.length_eq (by rw [hcaller]; exact nofun)
  refine ⟨hlength, Nat.not_lt.mp fun hlt => ?_⟩
  have hn := h.exited n (by rw [hcaller]; exact hlt)
  rw [List.getElem?_eq_none hlength.le] at hn
  cases hn

/-- While threads are being joined, the next one can be, or can still go on. -/
theorem Sound.exists_step_of_joining (h : Sound n type sys) {i : Nat}
    (hcaller : sys.caller = .joining i) :
    ∃ input, spurious input = false ∧ (sys.step input).isSome = true := by
  obtain ⟨hlength, hle⟩ := h.length_eq_of_joining hcaller
  rcases Nat.eq_or_lt_of_le hle with rfl | hlt
  · exact ⟨.ret, rfl, by simp [step, hcaller, h.numThreads_eq]⟩
  · obtain ⟨t, hi⟩ : ∃ t, sys.threads[i]? = some t :=
      ⟨_, List.getElem?_eq_getElem (hlength.symm ▸ hlt)⟩
    by_cases ht : t = .exited
    · subst ht
      exact ⟨.join, rfl, by simp [step, hcaller, hi]⟩
    · have hbusy := (h.released (by rw [hcaller]; trivial)).1
      obtain ⟨input, hinput, hstep⟩ := exists_step_of_thread hi ht (h.not_blocked hbusy hi)
      refine ⟨input, ?_, hstep⟩
      fin_cases hinput <;> rfl

/-- Something can always happen before `dummyload()` returns. -/
theorem Sound.exists_step (h : Sound n type sys) (hcaller : sys.caller ≠ .returned) :
    ∃ input, spurious input = false ∧ (sys.step input).isSome = true := by
  cases hc : sys.caller with
  | starting =>
      have hle := h.length_le
      rw [← h.numThreads_eq] at hle
      rcases Nat.eq_or_lt_of_le hle with heq | hlt
      · exact ⟨.switch, rfl, by simp [step, hc, heq]⟩
      · exact ⟨.start, rfl, by simp [step, hc, hlt]⟩
  | loading rest =>
      cases rest with
      | nil =>
          obtain ⟨slots, hload, -⟩ := load_eq_some 0
          exact ⟨.load 0, rfl, by simp [step, hc, hload]⟩
      | cons busy rest => exact ⟨.slot, rfl, by simp [step, hc]⟩
  | stopping => exact ⟨.stop, rfl, by simp [step, hc]⟩
  | releasing => exact ⟨.release, rfl, by simp [step, hc]⟩
  | joining i => exact h.exists_step_of_joining hc
  | returned => exact absurd hc hcaller

theorem Sound.threads_of_returned (h : Sound n type sys) (hcaller : sys.caller = .returned) :
    sys.threads = List.replicate n .exited := by
  have hlength := h.length_eq (by rw [hcaller]; exact nofun)
  refine List.eq_replicate_iff.mpr ⟨hlength, fun t ht => ?_⟩
  obtain ⟨i, hi⟩ := List.mem_iff_getElem?.mp ht
  have hlt : i < n := hlength ▸ (List.getElem?_eq_some_iff.mp hi).1
  have hexited := h.exited i (by rw [hcaller]; exact hlt)
  exact Option.some.inj (hi.symm.trans hexited)

end Progress

/-- Whatever the order of the steps: in a busy slot no thread is left waiting, and each that
has not exited can go on; before `dummyload()` returns there is always a step to take, and when
it has returned every thread has exited. -/
theorem nobody_left_waiting {numThreads type : Int} {inputs : List Input} {sys : System}
    (hrun : run step (dummyload numThreads type) inputs = some sys) :
    (sys.busy = true → ∀ i t, sys.threads[i]? = some t → t ≠ .exited →
      t ≠ .waiting .blocked ∧
        ∃ input ∈ [Input.test i, .enter i, .burnt i], (sys.step input).isSome = true) ∧
    (sys.caller ≠ .returned →
      ∃ input, spurious input = false ∧ (sys.step input).isSome = true) ∧
    (sys.caller = .returned →
      sys.threads = List.replicate (dummyload numThreads type).numThreads .exited) := by
  have h := sound_run hrun
  refine ⟨fun hbusy i t hi ht => ?_, h.exists_step, h.threads_of_returned⟩
  have hblocked := h.not_blocked hbusy hi
  exact ⟨hblocked, exists_step_of_thread hi ht hblocked⟩

/-- A thread that was waiting when a busy slot began, and the slot after it. -/
def busySlotRun : List Input := [.start, .switch, .load 100, .test 0, .enter 0, .slot]

theorem nobody_left_waiting_busySlotRun : ∃ sys,
    run step (dummyload 1 1) busySlotRun = some sys ∧
      sys.threads = [.waiting .notified] ∧
      (∃ input ∈ [Input.test 0, .enter 0, .burnt 0], (sys.step input).isSome = true) ∧
      ∃ input, spurious input = false ∧ (sys.step input).isSome = true := by
  have hmap : (run step (dummyload 1 1) busySlotRun).map (fun sys =>
      (sys.busy, sys.threads, decide (sys.caller = .returned))) =
        some (true, [.waiting .notified], false) := by
    decide +kernel
  obtain ⟨sys, hrun, hsys⟩ := Option.map_eq_some_iff.mp hmap
  obtain ⟨hbusy, hthreads, hcaller⟩ := by simpa using hsys
  obtain ⟨hawake, hstep, -⟩ := nobody_left_waiting hrun
  have hthread : sys.threads[0]? = some (.waiting .notified) := by rw [hthreads]; rfl
  exact ⟨sys, hrun, hthreads, (hawake hbusy 0 _ hthread nofun).2, hstep hcaller⟩

end System

end Dummyload.Load
