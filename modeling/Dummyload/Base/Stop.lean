import Dummyload.Base.Wakeups
import Mathlib.Data.List.ReduceOption

/-!
# Dummyload.Base.Stop

What is left behind when `ThreadPool::stop()` has returned. A worker tests
`running_` before each `take()`, so once `stop()` has cleared it a worker takes one
task more if it is past the test, and none otherwise; and nobody signals `notFull_`
but these last calls of `take()`.

So tasks are stranded when more are queued than workers will take, and producers are
when more of them wait (`nothing_stranded`).
-/

namespace Dummyload

open Lib.Monitor (Condition)

variable {τ : Type*}

/-- Past its test of `running_`, and still to take a task. -/
def Worker.willTake : Worker τ → Bool
  | .entering => true
  | .waiting _ => true
  | _ => false

/-- What a worker has taken and not executed yet. -/
def Worker.held : Worker τ → List τ
  | .holding task => task.toList
  | _ => []

namespace ThreadPool

def takers (pool : ThreadPool τ) : Nat := pool.workers.countP Worker.willTake

def blocked (pool : ThreadPool τ) : Nat := notFull.count .blocked pool.producers

/-- The step finds the queue full in `run()`, or empty in `take()`. -/
def Misses (pool : ThreadPool τ) : Input τ → Prop
  | .run _ _ => pool.isFull = true
  | .rerun _ _ => pool.isFull = true
  | .take _ _ => pool.queue = []
  | _ => False

/-- When `stop()` takes the mutex, the workers that will still take are as many as the
queued tasks, and as the blocked producers; after that, whenever the queue is found full
or empty there is one more of them than blocked producers. -/
def Served (pool : ThreadPool τ) : Input τ → Prop
  | .stop => pool.queue.length ≤ pool.takers ∧ pool.blocked ≤ pool.takers
  | i => pool.running = false → pool.Misses i → pool.blocked < pool.takers

/-- Every accepted task has been taken, every task taken was executed once, and no producer
is blocked without a worker that could signal it. -/
structure NothingStranded (pool : ThreadPool τ) : Prop where
  accepted : pool.accepted <+: pool.taken
  executed : pool.executed.Perm pool.taken.reduceOption
  producers : ¬ ((∃ task, .waiting task .blocked ∈ pool.producers) ∧
    ∀ w ∈ pool.workers, w = .exited)

/-! ### Signals and the workers -/

section Signals

variable {workers workers' : List (Worker τ)} {woken : Option Nat}

theorem status_eq_blocked {w : Worker τ} (h : notEmpty.status w = some .blocked) :
    w = .waiting .blocked := by
  cases w with
  | waiting w => rw [Option.some.inj h]
  | testing => cases h
  | entering => cases h
  | holding task => cases h
  | exited => cases h

theorem countP_willTake_signal (h : notEmpty.signal workers woken = some workers') :
    workers'.countP Worker.willTake = workers.countP Worker.willTake := by
  rcases Condition.signal_cases h with ⟨-, rfl⟩ | ⟨i, w, hi, hblocked, rfl⟩
  · rfl
  · obtain rfl := status_eq_blocked hblocked
    have hmove := Lib.Monitor.countP_move hi Worker.willTake (notEmpty.wake (.waiting .blocked))
    simpa [Worker.willTake, notEmpty] using hmove

theorem held_signal (h : notEmpty.signal workers woken = some workers') :
    (workers'.flatMap Worker.held).Perm (workers.flatMap Worker.held) := by
  rcases Condition.signal_cases h with ⟨-, rfl⟩ | ⟨i, w, hi, hblocked, rfl⟩
  · rfl
  · obtain rfl := status_eq_blocked hblocked
    exact Lib.Monitor.flatMap_move hi Worker.held (notEmpty.wake (.waiting .blocked))

theorem broadcast_congr {β : Type*} (f : Worker τ → β)
    (hf : f (.waiting .notified) = f (.waiting .blocked)) (w : Worker τ) :
    f (if notEmpty.status w = some .blocked then notEmpty.wake w else w) = f w := by
  split
  · rename_i hblocked
    rw [status_eq_blocked hblocked]
    exact hf
  · rfl

theorem countP_willTake_broadcast (workers : List (Worker τ)) :
    (notEmpty.broadcast workers).countP Worker.willTake = workers.countP Worker.willTake := by
  rw [Condition.broadcast, List.countP_map]
  exact List.countP_congr fun w _ => by
    rw [Function.comp_apply, broadcast_congr Worker.willTake rfl]

theorem held_broadcast (workers : List (Worker τ)) :
    (notEmpty.broadcast workers).flatMap Worker.held = workers.flatMap Worker.held := by
  rw [Condition.broadcast, List.flatMap_map]
  exact List.flatMap_congr fun w _ => broadcast_congr Worker.held rfl w

theorem held_of_ready {w : Worker τ} (h : Ready w) : w.held = [] := by
  cases w with
  | holding task => cases h
  | testing => rfl
  | entering => rfl
  | waiting w => rfl
  | exited => rfl

theorem willTake_of_ready {w : Worker τ} (h : Ready w) : w.willTake = true := by
  cases w with
  | holding task => cases h
  | testing => cases h
  | entering => rfl
  | waiting w => rfl
  | exited => cases h

end Signals

/-! ### What every run keeps -/

section History

variable {pool pool' : ThreadPool τ}

structure History (pool : ThreadPool τ) : Prop where
  workers : pool.workers ≠ []
  executed : (pool.executed ++ pool.workers.flatMap Worker.held).Perm pool.taken.reduceOption
  running : pool.running = true ↔ pool.stopping = .notCalled
  accepted : pool.accepted <+: pool.pushed
  exited : pool.stopping = .returned → ∀ w ∈ pool.workers, w = .exited

theorem history_started {n : Nat} (hn : 0 < n) (maxQueue : Int) :
    History (started n maxQueue : ThreadPool τ) where
  workers := List.ne_nil_of_length_pos (by rwa [started, List.length_replicate])
  executed := by
    have hheld : (List.replicate n (Worker.testing (τ := τ))).flatMap Worker.held = [] := by
      simp [List.flatMap_eq_nil_iff, Worker.held]
    show ([] ++ (List.replicate n Worker.testing).flatMap Worker.held).Perm []
    rw [hheld, List.append_nil]
  running := by simp [started]
  accepted := List.nil_prefix
  exited h := by cases h

/-- Workers that have exited do not move. -/
theorem History.not_returned (h : History pool) {i : Nat} {w : Worker τ}
    (hi : pool.workers[i]? = some w) (hw : w ≠ .exited) : pool.stopping ≠ .returned :=
  fun hreturned => hw (h.exited hreturned w (List.mem_of_getElem? hi))

/-- A worker moves that neither held a task nor gets one. -/
theorem History.setWorker (h : History pool) {i : Nat} {w w' : Worker τ}
    (hi : pool.workers[i]? = some w) (hw : w ≠ .exited) (hheld : w.held = [])
    (hheld' : w'.held = []) : History (pool.setWorker i w') where
  workers := mt (List.set_eq_nil_iff _ _).mp h.workers
  executed := by
    have hmove := Lib.Monitor.flatMap_move hi Worker.held w'
    rw [hheld, hheld', List.nil_append, List.nil_append] at hmove
    exact (hmove.append_left _).trans h.executed
  running := h.running
  accepted := h.accepted
  exited hreturned := absurd hreturned (h.not_returned hi hw)

theorem ready_ne_exited {w : Worker τ} (h : Ready w) : w ≠ .exited := by
  rintro rfl
  exact h

/-- A pool with other calls of `run()`. -/
theorem History.setProducers (h : History pool) (producers : List (Producer τ)) :
    History { pool with producers := producers } :=
  ⟨h.workers, h.executed, h.running, h.accepted, h.exited⟩

theorem History.pushing (h : History pool) {task : Task τ} {woken : Option Nat}
    {workers : List (Worker τ)} (hsignal : notEmpty.signal pool.workers woken = some workers) :
    History (pool.pushing task workers) where
  workers := by
    rw [Ne, ← List.length_eq_zero_iff, ThreadPool.pushing, Condition.length_signal hsignal,
      List.length_eq_zero_iff]
    exact h.workers
  executed := ((held_signal hsignal).append_left _).trans h.executed
  running := h.running
  accepted := h.accepted.trans (List.prefix_append _ _)
  exited hreturned w hw := by
    -- nobody was there to be signalled
    have hexited := h.exited hreturned
    rcases Condition.signal_cases hsignal with ⟨-, rfl⟩ | ⟨i, w', hi, hblocked, -⟩
    · exact hexited w hw
    · rw [hexited w' (List.mem_of_getElem? hi)] at hblocked
      cases hblocked

theorem History.taking (h : History pool) {i : Nat} {w : Worker τ} {task : Task τ}
    {queue : List (Task τ)} {producers : List (Producer τ)} (hi : pool.workers[i]? = some w)
    (hready : Ready w) : History (pool.taking i task queue producers) where
  workers := mt (List.set_eq_nil_iff _ _).mp h.workers
  executed := by
    have hmove := Lib.Monitor.flatMap_move hi Worker.held (.holding task)
    rw [held_of_ready hready, List.nil_append] at hmove
    show (pool.executed ++ (pool.workers.set i (.holding task)).flatMap Worker.held).Perm
      (pool.taken ++ [task]).reduceOption
    rw [List.reduceOption_append]
    refine (hmove.append_left _).trans ?_
    refine ((List.perm_append_comm).append_left _).trans ?_
    rw [← List.append_assoc]
    have htask : (Worker.holding task).held = [task].reduceOption := by cases task <;> rfl
    rw [htask]
    exact h.executed.append_right _
  running := h.running
  accepted := h.accepted
  exited hreturned := absurd hreturned (h.not_returned hi (ready_ne_exited hready))

theorem history_step (h : History pool) {i : Input τ} (hstep : step pool i = some pool') :
    History pool' := by
  cases step_moves hstep with
  | inline hnone => exact absurd hnone h.workers
  | blocks hworkers hfull => exact h.setProducers _
  | pushes hworkers hfull hsignal => exact h.pushing hsignal
  | reblocks hi hw hfull => exact h.setProducers _
  | repushes hi hw hfull hsignal => exact (h.setProducers _).pushing hsignal
  | producerAwakes hi => exact h.setProducers _
  | enters hi hrunning => exact h.setWorker hi (by simp) rfl rfl
  | exits hi hrunning => exact h.setWorker hi (by simp) rfl rfl
  | waits hi hready hqueue hrunning =>
      exact h.setWorker hi (ready_ne_exited hready) (held_of_ready hready) rfl
  | leaves hi hready hqueue hrunning =>
      exact h.setWorker hi (ready_ne_exited hready) (held_of_ready hready) rfl
  | takes hi hready hqueue hsignal => exact h.taking hi hready
  | workerAwakes hi => exact h.setWorker hi (by simp) rfl rfl
  | @done i task hi =>
      have hmove := Lib.Monitor.flatMap_move hi Worker.held .testing
      exact {
        workers := mt (List.set_eq_nil_iff _ _).mp h.workers
        executed := by
          show (pool.executed ++ task.toList ++
            (pool.workers.set i .testing).flatMap Worker.held).Perm pool.taken.reduceOption
          rw [List.append_assoc]
          exact (hmove.append_left _).trans h.executed
        running := h.running
        accepted := h.accepted
        exited := fun hreturned => absurd hreturned (h.not_returned hi (by simp)) }
  | stop hstopping =>
      exact {
        workers := by
          show (notEmpty.broadcast pool.workers) ≠ []
          rw [Condition.broadcast, Ne, List.map_eq_nil_iff]
          exact h.workers
        executed := by
          show (pool.executed ++ (notEmpty.broadcast pool.workers).flatMap Worker.held).Perm _
          rw [held_broadcast]
          exact h.executed
        running := by simp
        accepted := List.prefix_rfl
        exited := fun hreturned => by cases hreturned }
  | stopReturns hstopping hexited =>
      exact ⟨h.workers, h.executed, by simpa [hstopping] using h.running, h.accepted,
        fun _ => hexited⟩

end History

/-! ### The steps after `stop()` -/

section Stopped

variable {n : Nat} {maxQueue : Int} {pool pool' : ThreadPool τ} {i : Input τ}

/-- What a step does to the workers that will take and the blocked producers, once
`running_` is cleared. -/
inductive Tally (pool pool' : ThreadPool τ) : Input τ → Prop
  | keeps {i : Input τ} (hi : ¬ pool.Misses i) (htaken : pool'.taken = pool.taken)
      (htakers : pool'.takers = pool.takers) (hblocked : pool'.blocked = pool.blocked) :
      Tally pool pool' i
  | awakes {i : Nat} (htaken : pool'.taken = pool.taken) (htakers : pool'.takers = pool.takers)
      (hblocked : pool'.blocked + 1 = pool.blocked) : Tally pool pool' (.producerAwakes i)
  | blocks {i : Input τ} (hi : pool.Misses i) (htaken : pool'.taken = pool.taken)
      (htakers : pool'.takers = pool.takers) (hblocked : pool'.blocked = pool.blocked + 1) :
      Tally pool pool' i
  | leaves {i : Input τ} (hi : pool.Misses i) (hqueue : pool.queue = [])
      (htaken : pool'.taken = pool.taken) (htakers : pool'.takers + 1 = pool.takers)
      (hblocked : pool'.blocked = pool.blocked) : Tally pool pool' i
  | takes {i : Input τ} (hi : ¬ pool.Misses i)
      (htaken : pool'.taken.length = pool.taken.length + 1)
      (htakers : pool'.takers + 1 = pool.takers)
      (hblocked : pool'.blocked = pool.blocked - 1) : Tally pool pool' i

theorem takers_setWorker {j : Nat} {w : Worker τ} (hj : pool.workers[j]? = some w)
    (w' : Worker τ) :
    (pool.setWorker j w').takers + (if w.willTake then 1 else 0) =
      pool.takers + (if w'.willTake then 1 else 0) :=
  Lib.Monitor.countP_move hj Worker.willTake w'

theorem blocked_setProducer {j : Nat} {p : Producer τ} (hj : pool.producers[j]? = some p)
    (p' : Producer τ) :
    (pool.setProducer j p').blocked + (if notFull.status p = some .blocked then 1 else 0) =
      pool.blocked + (if notFull.status p' = some .blocked then 1 else 0) :=
  Condition.count_move hj .blocked p'

/-- A call of `run()` that was woken does not count as blocked. -/
theorem blocked_of_woken {j : Nat} {task : Task τ} {w : Lib.Monitor.Wait} {p : Producer τ}
    (hj : pool.producers[j]? = some (.waiting task w)) (hw : w ≠ .blocked) :
    (pool.setProducer j p).blocked =
      pool.blocked + (if notFull.status p = some .blocked then 1 else 0) := by
  have hmove := blocked_setProducer hj p
  rwa [if_neg (by simpa [notFull] using hw), Nat.add_zero] at hmove

theorem step_tally (hsound : Sound n maxQueue pool) (hhist : History pool)
    (hstopped : pool.stopping ≠ .notCalled) (hstep : step pool i = some pool') :
    Tally pool pool' i := by
  have hrunning : pool.running = false := by
    rw [← Bool.not_eq_true, hhist.running]
    exact hstopped
  cases step_moves hstep with
  | inline hnone => exact absurd hnone hhist.workers
  | blocks hworkers hfull =>
      exact .blocks hfull rfl rfl (Condition.count_concat (c := notFull) _ _ _)
  | pushes hworkers hfull hsignal =>
      exact .keeps (by simp [Misses, hfull]) rfl (countP_willTake_signal hsignal) rfl
  | reblocks hi hw hfull => exact .blocks hfull rfl rfl (blocked_of_woken hi hw)
  | repushes hi hw hfull hsignal =>
      exact .keeps (by simp [Misses, hfull]) rfl (countP_willTake_signal hsignal)
        (blocked_of_woken hi hw)
  | @producerAwakes j task hi =>
      have hmove := blocked_setProducer hi (.waiting task .awake)
      exact .awakes rfl rfl (by simpa [notFull] using hmove)
  | enters hi hrunning' => exact absurd hrunning' (by simp [hrunning])
  | exits hi hrunning' =>
      have hmove := takers_setWorker hi .exited
      exact .keeps id rfl (by simpa [Worker.willTake] using hmove) rfl
  | waits hi hready hqueue hrunning' => exact absurd hrunning' (by simp [hrunning])
  | leaves hi hready hqueue hrunning' =>
      have hmove := takers_setWorker hi (.holding none)
      rw [willTake_of_ready hready] at hmove
      exact .leaves hqueue hqueue rfl (by simpa [Worker.willTake] using hmove) rfl
  | @takes j w woken task queue producers hi hready hqueue hsignal =>
      have hmove := takers_setWorker hi (.holding task)
      rw [willTake_of_ready hready] at hmove
      have htakers : (pool.setWorker j (.holding task)).takers + 1 = pool.takers := by
        simpa [Worker.willTake] using hmove
      refine .takes (by simp [Misses, hqueue]) List.length_append htakers ?_
      show notFull.count .blocked producers = notFull.count .blocked pool.producers - 1
      split at hsignal
      · rcases Condition.count_signal hsignal with ⟨hnone, rfl⟩ | ⟨hcount, -⟩ <;> omega
      · rename_i hmax
        have hzero := hsound.unbounded (Int.not_lt.mp hmax)
        rw [hsignal]
        omega
  | workerAwakes hi =>
      have hmove := takers_setWorker hi (.waiting .awake)
      exact .keeps id rfl (by simpa [Worker.willTake] using hmove) rfl
  | @done j task hi =>
      have hmove := takers_setWorker hi .testing
      have htakers : (pool.setWorker j .testing).takers = pool.takers := by
        simpa [Worker.willTake] using hmove
      exact .keeps id rfl htakers rfl
  | stop hstopping => exact absurd hstopping hstopped
  | stopReturns hstopping hexited => exact .keeps id rfl rfl rfl

/-- Once `stop()` is called it stays so, and `accepted` is settled. -/
theorem step_stopped (hstopped : pool.stopping ≠ .notCalled) (hstep : step pool i = some pool') :
    pool'.stopping ≠ .notCalled ∧ pool'.accepted = pool.accepted := by
  cases step_moves hstep with
  | stop hstopping => exact absurd hstopping hstopped
  | stopReturns hstopping hexited => exact ⟨by simp, rfl⟩
  | _ => exact ⟨hstopped, rfl⟩

/-- `stop()` itself. -/
theorem step_stop (hstep : step pool .stop = some pool') :
    pool'.stopping = .joining ∧ pool'.accepted = pool.pushed ∧ pool'.taken = pool.taken ∧
      pool'.takers = pool.takers ∧ pool'.blocked = pool.blocked := by
  cases step_moves hstep with
  | stop hstopping => exact ⟨rfl, rfl, rfl, countP_willTake_broadcast pool.workers, rfl⟩

/-- Only `stop()` calls `stop()`. -/
theorem step_notCalled (hstopping : pool.stopping = .notCalled) (hi : i ≠ .stop)
    (hstep : step pool i = some pool') : pool'.stopping = .notCalled := by
  cases step_moves hstep with
  | stop hstopping => exact absurd rfl hi
  | stopReturns hjoining hexited => rw [hstopping] at hjoining; cases hjoining
  | _ => exact hstopping

/-- What both the invariant of served runs and its violation need to know of a state. -/
structure Reached (n : Nat) (maxQueue : Int) (pool : ThreadPool τ) : Prop where
  sound : Sound n maxQueue pool
  history : History pool

theorem reached_step (h : Reached n maxQueue pool) (hstep : step pool i = some pool') :
    Reached n maxQueue pool' :=
  ⟨sound_step h.sound hstep, history_step h.history hstep⟩

/-- The workers that will still take are enough. -/
def Enough (pool : ThreadPool τ) : Prop :=
  pool.stopping ≠ .notCalled →
    pool.accepted.length ≤ pool.taken.length + pool.takers ∧ pool.blocked ≤ pool.takers

/-- They are too few. -/
def TooFew (pool : ThreadPool τ) : Prop :=
  pool.stopping ≠ .notCalled ∧
    (pool.taken.length + pool.takers < pool.accepted.length ∨ pool.takers < pool.blocked)

/-- With the queue empty nothing that was accepted is left. -/
theorem Reached.accepted_le (h : Reached n maxQueue pool) (hqueue : pool.queue = []) :
    pool.accepted.length ≤ pool.taken.length := by
  have hfifo := h.sound.fifo
  rw [hqueue, List.append_nil] at hfifo
  rw [hfifo]
  exact h.history.accepted.length_le

theorem served_iff (hi : i ≠ .stop) :
    Served pool i ↔ (pool.running = false → pool.Misses i → pool.blocked < pool.takers) := by
  cases i with
  | stop => exact absurd rfl hi
  | _ => exact Iff.rfl

theorem Reached.running (h : Reached n maxQueue pool) (hstopped : pool.stopping ≠ .notCalled) :
    pool.running = false := by
  rw [← Bool.not_eq_true, h.history.running]
  exact hstopped

theorem Reached.length_pushed (h : Reached n maxQueue pool) :
    pool.pushed.length = pool.taken.length + pool.queue.length := by
  rw [← h.sound.fifo, List.length_append]

theorem enough_step (h : Reached n maxQueue pool) (he : Enough pool) (hi : Served pool i)
    (hstep : step pool i = some pool') : Enough pool' := by
  intro hstopped'
  by_cases hstop : i = .stop
  · subst hstop
    obtain ⟨-, haccepted, htaken, htakers, hblocked⟩ := step_stop hstep
    have hpushed := h.length_pushed
    rw [haccepted, htaken, htakers, hblocked]
    exact ⟨by have := hi.1; omega, hi.2⟩
  · have hstopped : pool.stopping ≠ .notCalled := fun hnot =>
      hstopped' (step_notCalled hnot hstop hstep)
    obtain ⟨hle, hblocked⟩ := he hstopped
    have hserved := (served_iff hstop).mp hi (h.running hstopped)
    rw [(step_stopped hstopped hstep).2]
    cases step_tally h.sound h.history hstopped hstep with
    | keeps hmiss htaken htakers hb => rw [htaken, htakers, hb]; exact ⟨hle, hblocked⟩
    | awakes htaken htakers hb => rw [htaken, htakers]; exact ⟨hle, by omega⟩
    | blocks hmiss htaken htakers hb =>
        rw [htaken, htakers, hb]
        exact ⟨hle, hserved hmiss⟩
    | leaves hmiss hqueue htaken htakers hb =>
        have hlt := hserved hmiss
        have haccepted := h.accepted_le hqueue
        rw [htaken, hb]
        exact ⟨by omega, by omega⟩
    | takes hmiss htaken htakers hb => omega

/-- Without spurious wake-ups too few stay too few. -/
theorem tooFew_step (h : Reached n maxQueue pool) (hfew : TooFew pool)
    (hi : ∀ j, i ≠ .producerAwakes j) (hstep : step pool i = some pool') : TooFew pool' := by
  obtain ⟨hstopped, hfew⟩ := hfew
  obtain ⟨hstopped', haccepted⟩ := step_stopped hstopped hstep
  refine ⟨hstopped', ?_⟩
  rw [haccepted]
  cases step_tally h.sound h.history hstopped hstep with
  | keeps hmiss htaken htakers hb => rw [htaken, htakers, hb]; exact hfew
  | awakes htaken htakers hb => exact absurd rfl (hi _)
  | blocks hmiss htaken htakers hb => rw [htaken, htakers, hb]; omega
  | leaves hmiss hqueue htaken htakers hb => rw [htaken, hb]; omega
  | takes hmiss htaken htakers hb => omega

/-- A step that is not served leaves too few. -/
theorem tooFew_of_not_served (h : Reached n maxQueue pool) (hi : ¬ Served pool i)
    (hstep : step pool i = some pool') : TooFew pool' := by
  by_cases hstop : i = .stop
  · subst hstop
    obtain ⟨hstopping, haccepted, htaken, htakers, hblocked⟩ := step_stop hstep
    have hpushed := h.length_pushed
    refine ⟨by rw [hstopping]; simp, ?_⟩
    rw [haccepted, htaken, htakers, hblocked]
    unfold Served at hi
    omega
  · rw [served_iff hstop, Classical.not_imp, Classical.not_imp] at hi
    obtain ⟨hrunning, hmiss, hlt⟩ := hi
    have hstopped : pool.stopping ≠ .notCalled := by
      rw [Ne, ← h.history.running, hrunning]
      simp
    refine ⟨(step_stopped hstopped hstep).1, ?_⟩
    cases step_tally h.sound h.history hstopped hstep with
    | keeps hmiss' htaken htakers hb => exact absurd hmiss hmiss'
    | awakes htaken htakers hb => exact absurd hmiss id
    | blocks hmiss' htaken htakers hb => omega
    | leaves hmiss' hqueue htaken htakers hb => omega
    | takes hmiss' htaken htakers hb => exact absurd hmiss hmiss'

end Stopped

/-! ### Runs -/

section Runs

open Lib.Machine (Meets)

variable {n : Nat} {maxQueue : Int} {pool : ThreadPool τ}

/-- A run that is not served throughout ends with too few. -/
theorem meets_or_tooFew {is : List (Input τ)} {pool₀ : ThreadPool τ}
    (h : Reached n maxQueue pool₀) (hawakes : ∀ j, .producerAwakes j ∉ is)
    (hrun : Lib.Machine.run step pool₀ is = some pool) :
    Meets step Served pool₀ is ∨ TooFew pool := by
  -- too few stay too few to the end of the run
  have hkeeps : ∀ {is : List (Input τ)} {pool₁ : ThreadPool τ}, Reached n maxQueue pool₁ →
      (∀ j, .producerAwakes j ∉ is) → Lib.Machine.run step pool₁ is = some pool →
      TooFew pool₁ → TooFew pool := by
    intro is pool₁ h₁ hawakes hrun hfew
    have hkeep : ∀ (pool : ThreadPool τ) (i : Input τ) (pool' : ThreadPool τ),
        Reached n maxQueue pool ∧ TooFew pool → (∀ j, i ≠ .producerAwakes j) →
          step pool i = some pool' → Reached n maxQueue pool' ∧ TooFew pool' :=
      fun _ _ _ hinv hi hstep => ⟨reached_step hinv.1 hstep, tooFew_step hinv.1 hinv.2 hi hstep⟩
    have hmeets : Lib.Machine.Meets step (fun _ i => ∀ j, i ≠ .producerAwakes j) pool₁ is :=
      Lib.Machine.meets_of_forall fun i hi j heq => hawakes j (heq ▸ hi)
    exact (Lib.Machine.invariant_of_meets hkeep ⟨h₁, hfew⟩ hmeets hrun).2
  induction is generalizing pool₀ with
  | nil => exact Or.inl trivial
  | cons i is ih =>
      obtain ⟨pool₁, hstep, hrun⟩ := Lib.Machine.run_cons_eq_some.mp hrun
      have h₁ := reached_step h hstep
      have hawakes' : ∀ j, .producerAwakes j ∉ is := fun j hj =>
        hawakes j (List.mem_cons_of_mem _ hj)
      by_cases hi : Served pool₀ i
      · refine (ih h₁ hawakes' hrun).imp_left fun hmeets => ⟨hi, fun pool₂ hstep' => ?_⟩
        obtain rfl := Option.some.inj (hstep.symm.trans hstep')
        exact hmeets
      · exact Or.inr (hkeeps h₁ hawakes' hrun (tooFew_of_not_served h hi hstep))

/-- When `stop()` has returned, no worker will take. -/
theorem Reached.takers_eq_zero (h : Reached n maxQueue pool)
    (hreturned : pool.stopping = .returned) : pool.takers = 0 := by
  rw [takers, List.countP_eq_zero]
  intro w hw
  rw [h.history.exited hreturned w hw]
  exact Bool.false_ne_true

/-- In the end, enough workers is nothing stranded. -/
theorem Reached.nothingStranded_iff (h : Reached n maxQueue pool)
    (hreturned : pool.stopping = .returned) :
    NothingStranded pool ↔ ¬ TooFew pool := by
  have htakers := h.takers_eq_zero hreturned
  have hexited := h.history.exited hreturned
  have hblocked : 0 < pool.blocked ↔ ∃ task, .waiting task .blocked ∈ pool.producers :=
    Condition.count_pos_iff.trans exists_waiting_iff
  have hstopped : pool.stopping ≠ .notCalled := by rw [hreturned]; simp
  have htaken : pool.taken <+: pool.pushed := ⟨pool.queue, h.sound.fifo⟩
  constructor
  · intro hnone hfew
    rcases hfew.2 with hlt | hlt
    · have := hnone.accepted.length_le
      omega
    · exact hnone.producers ⟨hblocked.mp (by omega), hexited⟩
  · intro hfew
    have hle : pool.accepted.length ≤ pool.taken.length := by
      by_contra hlt
      exact hfew ⟨hstopped, Or.inl (by omega)⟩
    refine ⟨List.prefix_of_prefix_length_le h.history.accepted htaken hle, ?_, fun hand => ?_⟩
    · have hheld : pool.workers.flatMap Worker.held = [] := by
        rw [List.flatMap_eq_nil_iff]
        intro w hw
        rw [hexited w hw]
        rfl
      have hexecuted := h.history.executed
      rwa [hheld, List.append_nil] at hexecuted
    · exact hfew ⟨hstopped, Or.inr (by have := hblocked.mpr hand.1; omega)⟩

/-- **Nothing is stranded** when `stop()` has returned, in a run whose steps are served;
and without spurious wake-ups of producers in no other run. -/
theorem nothing_stranded (n : Nat) (maxQueue : Int) (is : List (Input τ)) (pool : ThreadPool τ)
    (hn : 0 < n) (hrun : Lib.Machine.run step (started n maxQueue) is = some pool)
    (hreturned : pool.stopping = .returned) :
    (Meets step Served (started n maxQueue) is → NothingStranded pool) ∧
      ((∀ j, .producerAwakes j ∉ is) → NothingStranded pool →
        Meets step Served (started n maxQueue) is) := by
  have hstart : Reached n maxQueue (started n maxQueue : ThreadPool τ) :=
    ⟨sound_started n maxQueue, history_started hn maxQueue⟩
  have hend : Reached n maxQueue pool :=
    Lib.Machine.invariant (fun _ _ _ h hstep => reached_step h hstep) hstart hrun
  rw [hend.nothingStranded_iff hreturned]
  constructor
  · intro hmeets hfew
    have hkeep : ∀ (pool : ThreadPool τ) (i : Input τ) (pool' : ThreadPool τ),
        Reached n maxQueue pool ∧ Enough pool → Served pool i →
          step pool i = some pool' → Reached n maxQueue pool' ∧ Enough pool' :=
      fun _ _ _ hinv hi hstep => ⟨reached_step hinv.1 hstep, enough_step hinv.1 hinv.2 hi hstep⟩
    have henough : Enough pool :=
      (Lib.Machine.invariant_of_meets hkeep ⟨hstart, fun hstopped => absurd rfl hstopped⟩ hmeets
        hrun).2
    obtain ⟨hle, hblocked⟩ := henough hfew.1
    rcases hfew.2 with hlt | hlt <;> omega
  · intro hawakes hnot
    exact (meets_or_tooFew hstart hawakes hrun).resolve_right hnot

instance (pool : ThreadPool τ) : (i : Input τ) → Decidable (Misses pool i)
  | .run _ _ | .rerun _ _ => inferInstanceAs (Decidable (pool.isFull = true))
  | .take _ _ => decidable_of_iff (pool.queue.isEmpty = true) List.isEmpty_iff
  | .producerAwakes _ | .test _ | .workerAwakes _ | .done _ | .stop | .stopReturns =>
    .isFalse id

instance (pool : ThreadPool τ) : (i : Input τ) → Decidable (Served pool i)
  | .stop => inferInstanceAs (Decidable (_ ∧ _))
  | .run _ _ | .rerun _ _ | .take _ _ | .producerAwakes _ | .test _ | .workerAwakes _ | .done _
  | .stopReturns => inferInstanceAs (Decidable (_ → _))

/-- A worker that waits is given a task, and then `stop()` is called. -/
def drainedRun : List (Input Nat) :=
  [.test 0, .take 0 none, .run (some 1) (some 0), .stop, .take 0 none, .done 0, .test 0,
    .stopReturns]

theorem nothing_stranded_drainedRun :
    ∃ pool, Lib.Machine.run step (started 1 1) drainedRun = some pool ∧
      pool.stopping = .returned ∧ NothingStranded pool := by
  have hrun : (Lib.Machine.run step (started 1 1) drainedRun).map (·.stopping) =
      some .returned := by decide
  obtain ⟨pool, hpool, hreturned⟩ := Option.map_eq_some_iff.mp hrun
  exact ⟨pool, hpool, hreturned,
    (nothing_stranded 1 1 drainedRun pool (by decide) hpool hreturned).1 (by decide)⟩

/-- `stop()` is called while the only worker is busy, with a task in the queue. -/
def busyRun : List (Input Nat) :=
  [.run (some 1) none, .test 0, .take 0 none, .run (some 2) none, .stop, .done 0, .test 0,
    .stopReturns]

/-- The queued task is never executed. -/
theorem not_always_nothing_stranded :
    ¬ ∀ (n : Nat) (maxQueue : Int) (is : List (Input Nat)) (pool : ThreadPool Nat), 0 < n →
      Lib.Machine.run step (started n maxQueue) is = some pool → pool.stopping = .returned →
      NothingStranded pool := by
  intro h
  have hrun : (Lib.Machine.run step (started 1 0) busyRun).map
      (fun pool => (pool.stopping, pool.accepted, pool.taken)) =
        some (.returned, [some 1, some 2], [some 1]) := by decide
  obtain ⟨pool, hpool, heq⟩ := Option.map_eq_some_iff.mp hrun
  obtain ⟨hreturned, heq⟩ := Prod.mk.inj heq
  obtain ⟨haccepted, htaken⟩ := Prod.mk.inj heq
  have hinit := (h 1 0 busyRun pool (by decide) hpool hreturned).accepted
  rw [haccepted, htaken] at hinit
  exact absurd hinit.length_le (by decide)

end Runs

end ThreadPool

end Dummyload
