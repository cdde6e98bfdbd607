import Dummyload.Lib.Machine
import Dummyload.Lib.Monitor

/-!
# Dummyload.Base.ThreadPool

`ThreadPool` (`base/ThreadPool.cpp`): a queue of tasks, filled by `run()` and
emptied by worker threads, under one mutex with the condition variables
`notEmpty_` and `notFull_`.

A step is what a thread does from one lock of the mutex to the next release (a
return, or `wait()`), or one of the things it does without the mutex: a worker
tests `running_`, or is done with its task. Every order of these is a run. The
inputs also say which thread a signal wakes, and when a `wait()` ends for no
reason.

A call of `run()` is a thread of its own here, whoever makes it, a task included.
The lists `pushed`, `taken` and `executed` are what has happened so far, and
`accepted` is `pushed` when `stop()` took the mutex.
-/

namespace Dummyload

open Lib.Monitor (Wait Condition)

/-- `ThreadPool::Task`, a `std::function`: something to call, or empty. -/
abbrev Task (τ : Type*) := Option τ

/-- A worker, in `runInThread()`. -/
inductive Worker (τ : Type*)
  /-- Before the test of `while (running_)`. -/
  | testing
  /-- Past the test, and not in the critical section of `take()` yet. -/
  | entering
  /-- In `notEmpty_.wait()`. -/
  | waiting (w : Wait)
  /-- `take()` has returned this task, and `task()`, if it is called, has not. -/
  | holding (task : Task τ)
  | exited
  deriving DecidableEq, Repr

/-- A call of `run(task)` that found the queue full. -/
inductive Producer (τ : Type*)
  /-- In `notFull_.wait()`. -/
  | waiting (task : Task τ) (w : Wait)
  | returned
  deriving DecidableEq, Repr

/-- How far the call of `stop()` is. -/
inductive Stopping
  | notCalled | joining | returned
  deriving DecidableEq, Repr

structure ThreadPool (τ : Type*) where
  maxQueue : Int
  running : Bool := true
  queue : List (Task τ) := []
  /-- `threads_`. -/
  workers : List (Worker τ)
  producers : List (Producer τ) := []
  stopping : Stopping := .notCalled
  pushed : List (Task τ) := []
  taken : List (Task τ) := []
  executed : List τ := []
  accepted : List (Task τ) := []
  deriving DecidableEq, Repr

variable {τ : Type*}

/-- A worker whose thread can be joined. -/
def Worker.isExited : Worker τ → Bool
  | .exited => true
  | _ => false

theorem Worker.isExited_iff {w : Worker τ} : w.isExited = true ↔ w = .exited := by
  cases w <;> simp [isExited]

namespace ThreadPool

def notEmpty : Condition (Worker τ) where
  status
    | .waiting w => some w
    | _ => none
  wake _ := .waiting .notified
  status_wake _ _ := rfl

def notFull : Condition (Producer τ) where
  status
    | .waiting _ w => some w
    | .returned => none
  wake
    | .waiting task _ => .waiting task .notified
    | .returned => .returned
  status_wake t h := by
    cases t with
    | waiting task w => rfl
    | returned => cases h

/-- After `start(n)`. -/
def started (n : Nat) (maxQueue : Int) : ThreadPool τ where
  maxQueue := maxQueue
  workers := List.replicate n .testing

def isFull (pool : ThreadPool τ) : Bool :=
  pool.maxQueue > 0 && (pool.queue.length : Int) ≥ pool.maxQueue

/-- `queue_.push_back(task); notEmpty_.notify()`. -/
def push (pool : ThreadPool τ) (task : Task τ) (woken : Option Nat) : Option (ThreadPool τ) :=
  (notEmpty.signal pool.workers woken).map fun workers =>
    { pool with
      queue := pool.queue ++ [task]
      pushed := pool.pushed ++ [task]
      workers := workers }

/-- `run(task)`, up to its return or its `wait()`. -/
def run (pool : ThreadPool τ) (task : Task τ) (woken : Option Nat) : Option (ThreadPool τ) :=
  if pool.workers = [] then
    -- `task()` at once; calling an empty function throws
    task.map fun t => { pool with executed := pool.executed ++ [t] }
  else if pool.isFull then
    some { pool with producers := pool.producers ++ [.waiting task .blocked] }
  else pool.push task woken

/-- The call `i` of `run()` gets the mutex back in its `wait()`. -/
def rerun (pool : ThreadPool τ) (i : Nat) (woken : Option Nat) : Option (ThreadPool τ) :=
  match pool.producers[i]? with
  | some (.waiting task w) =>
    if w = .blocked then none
    else if pool.isFull then
      some { pool with producers := pool.producers.set i (.waiting task .blocked) }
    else { pool with producers := pool.producers.set i .returned }.push task woken
  | _ => none

/-- The critical section of `take()`, by worker `i`. -/
def takeLocked (pool : ThreadPool τ) (i : Nat) (woken : Option Nat) : Option (ThreadPool τ) :=
  match pool.queue with
  | [] =>
    if pool.running then
      some { pool with workers := pool.workers.set i (.waiting .blocked) }
    else some { pool with workers := pool.workers.set i (.holding none) }
  | task :: queue =>
    let pool :=
      { pool with
        queue := queue
        taken := pool.taken ++ [task]
        workers := pool.workers.set i (.holding task) }
    if pool.maxQueue > 0 then
      (notFull.signal pool.producers woken).map fun producers =>
        { pool with producers := producers }
    else some pool

/-- A worker that will be in the critical section of `take()` next. -/
def Ready : Worker τ → Prop
  | .entering => True
  | .waiting w => w ≠ .blocked
  | _ => False

instance : (w : Worker τ) → Decidable (Ready w)
  | .testing => .isFalse id
  | .entering => .isTrue trivial
  | .waiting w => inferInstanceAs (Decidable (w ≠ .blocked))
  | .holding _ => .isFalse id
  | .exited => .isFalse id

/-- What a thread does next. -/
inductive Input (τ : Type*)
  /-- `run(task)` is called; `woken` is the worker that its signal wakes. -/
  | run (task : Task τ) (woken : Option Nat)
  /-- Call `i` of `run()` gets the mutex back; as above. -/
  | rerun (i : Nat) (woken : Option Nat)
  /-- Call `i` of `run()` is woken without a signal. -/
  | producerAwakes (i : Nat)
  /-- Worker `i` tests `running_`. -/
  | test (i : Nat)
  /-- Worker `i` gets the mutex in `take()`; `woken` is the call that its signal wakes. -/
  | take (i : Nat) (woken : Option Nat)
  /-- Worker `i` is woken without a signal. -/
  | workerAwakes (i : Nat)
  /-- Worker `i` is done with its task. -/
  | done (i : Nat)
  /-- `stop()` is called, up to its first `join()`. -/
  | stop
  /-- Every worker is joined, and `stop()` returns. -/
  | stopReturns
  deriving DecidableEq, Repr

def step (pool : ThreadPool τ) : Input τ → Option (ThreadPool τ)
  | .run task woken => pool.run task woken
  | .rerun i woken => pool.rerun i woken
  | .producerAwakes i =>
    match pool.producers[i]? with
    | some (.waiting task .blocked) =>
      some { pool with producers := pool.producers.set i (.waiting task .awake) }
    | _ => none
  | .test i =>
    match pool.workers[i]? with
    | some .testing =>
      some { pool with
        workers := pool.workers.set i (if pool.running then .entering else .exited) }
    | _ => none
  | .take i woken =>
    match pool.workers[i]? with
    | some w => if Ready w then pool.takeLocked i woken else none
    | none => none
  | .workerAwakes i =>
    match pool.workers[i]? with
    | some (.waiting .blocked) =>
      some { pool with workers := pool.workers.set i (.waiting .awake) }
    | _ => none
  | .done i =>
    match pool.workers[i]? with
    | some (.holding task) =>
      some { pool with
        workers := pool.workers.set i .testing
        executed := pool.executed ++ task.toList }
    | _ => none
  | .stop =>
    if pool.stopping = .notCalled then
      some { pool with
        running := false
        workers := notEmpty.broadcast pool.workers
        stopping := .joining
        accepted := pool.pushed }
    else none
  | .stopReturns =>
    if pool.stopping = .joining ∧ pool.workers.all Worker.isExited then
      some { pool with stopping := .returned }
    else none

/-! ### What a step does -/

/-- The pool with `task` pushed, and these workers after the signal. -/
def pushing (pool : ThreadPool τ) (task : Task τ) (workers : List (Worker τ)) : ThreadPool τ :=
  { pool with
    queue := pool.queue ++ [task]
    pushed := pool.pushed ++ [task]
    workers := workers }

/-- The pool with its first task moved to worker `i`, and these calls of `run()` after
the signal. -/
def taking (pool : ThreadPool τ) (i : Nat) (task : Task τ) (queue : List (Task τ))
    (producers : List (Producer τ)) : ThreadPool τ :=
  { pool with
    queue := queue
    taken := pool.taken ++ [task]
    workers := pool.workers.set i (.holding task)
    producers := producers }

/-- The pool with worker `i` in this state. -/
def setWorker (pool : ThreadPool τ) (i : Nat) (w : Worker τ) : ThreadPool τ :=
  { pool with workers := pool.workers.set i w }

def setProducer (pool : ThreadPool τ) (i : Nat) (p : Producer τ) : ThreadPool τ :=
  { pool with producers := pool.producers.set i p }

/-- Every outcome of a step, with the tests that lead there. -/
inductive Moves (pool : ThreadPool τ) : Input τ → ThreadPool τ → Prop
  | inline {t : τ} {woken : Option Nat} (hnone : pool.workers = []) :
      Moves pool (.run (some t) woken) { pool with executed := pool.executed ++ [t] }
  | blocks {task : Task τ} {woken : Option Nat} (hworkers : pool.workers ≠ [])
      (hfull : pool.isFull = true) :
      Moves pool (.run task woken)
        { pool with producers := pool.producers ++ [.waiting task .blocked] }
  | pushes {task : Task τ} {woken : Option Nat} {workers : List (Worker τ)}
      (hworkers : pool.workers ≠ []) (hfull : pool.isFull = false)
      (hsignal : notEmpty.signal pool.workers woken = some workers) :
      Moves pool (.run task woken) (pool.pushing task workers)
  | reblocks {i : Nat} {task : Task τ} {w : Wait} {woken : Option Nat}
      (hi : pool.producers[i]? = some (.waiting task w)) (hw : w ≠ .blocked)
      (hfull : pool.isFull = true) :
      Moves pool (.rerun i woken) (pool.setProducer i (.waiting task .blocked))
  | repushes {i : Nat} {task : Task τ} {w : Wait} {woken : Option Nat}
      {workers : List (Worker τ)} (hi : pool.producers[i]? = some (.waiting task w))
      (hw : w ≠ .blocked) (hfull : pool.isFull = false)
      (hsignal : notEmpty.signal pool.workers woken = some workers) :
      Moves pool (.rerun i woken) ((pool.setProducer i .returned).pushing task workers)
  | producerAwakes {i : Nat} {task : Task τ}
      (hi : pool.producers[i]? = some (.waiting task .blocked)) :
      Moves pool (.producerAwakes i) (pool.setProducer i (.waiting task .awake))
  | enters {i : Nat} (hi : pool.workers[i]? = some .testing) (hrunning : pool.running = true) :
      Moves pool (.test i) (pool.setWorker i .entering)
  | exits {i : Nat} (hi : pool.workers[i]? = some .testing) (hrunning : pool.running = false) :
      Moves pool (.test i) (pool.setWorker i .exited)
  | waits {i : Nat} {w : Worker τ} {woken : Option Nat} (hi : pool.workers[i]? = some w)
      (hready : Ready w) (hqueue : pool.queue = []) (hrunning : pool.running = true) :
      Moves pool (.take i woken) (pool.setWorker i (.waiting .blocked))
  | leaves {i : Nat} {w : Worker τ} {woken : Option Nat} (hi : pool.workers[i]? = some w)
      (hready : Ready w) (hqueue : pool.queue = []) (hrunning : pool.running = false) :
      Moves pool (.take i woken) (pool.setWorker i (.holding none))
  | takes {i : Nat} {w : Worker τ} {woken : Option Nat} {task : Task τ} {queue : List (Task τ)}
      {producers : List (Producer τ)} (hi : pool.workers[i]? = some w) (hready : Ready w)
      (hqueue : pool.queue = task :: queue)
      (hsignal : if pool.maxQueue > 0 then notFull.signal pool.producers woken = some producers
        else producers = pool.producers) :
      Moves pool (.take i woken) (pool.taking i task queue producers)
  | workerAwakes {i : Nat} (hi : pool.workers[i]? = some (.waiting .blocked)) :
      Moves pool (.workerAwakes i) (pool.setWorker i (.waiting .awake))
  | done {i : Nat} {task : Task τ} (hi : pool.workers[i]? = some (.holding task)) :
      Moves pool (.done i)
        { pool.setWorker i .testing with executed := pool.executed ++ task.toList }
  | stop (hstopping : pool.stopping = .notCalled) :
      Moves pool .stop
        { pool with
          running := false
          workers := notEmpty.broadcast pool.workers
          stopping := .joining
          accepted := pool.pushed }
  | stopReturns (hstopping : pool.stopping = .joining)
      (hexited : ∀ w ∈ pool.workers, w = .exited) :
      Moves pool .stopReturns { pool with stopping := .returned }

section Inversion

variable {pool pool' : ThreadPool τ}

theorem push_cases {task : Task τ} {woken : Option Nat} (h : pool.push task woken = some pool') :
    ∃ workers, notEmpty.signal pool.workers woken = some workers ∧
      pool' = pool.pushing task workers := by
  obtain ⟨workers, hsignal, rfl⟩ := Option.map_eq_some_iff.mp h
  exact ⟨workers, hsignal, rfl⟩

theorem run_moves {task : Task τ} {woken : Option Nat} (h : pool.run task woken = some pool') :
    Moves pool (.run task woken) pool' := by
  rw [run] at h
  split at h
  · rename_i hnone
    obtain ⟨t, rfl, rfl⟩ := Option.map_eq_some_iff.mp h
    exact .inline hnone
  · rename_i hworkers
    split at h
    · rename_i hfull
      obtain rfl := Option.some.inj h
      exact .blocks hworkers hfull
    · rename_i hfull
      obtain ⟨workers, hsignal, rfl⟩ := push_cases h
      exact .pushes hworkers (by simpa using hfull) hsignal

theorem rerun_moves {i : Nat} {woken : Option Nat} (h : pool.rerun i woken = some pool') :
    Moves pool (.rerun i woken) pool' := by
  rw [rerun] at h
  split at h
  · rename_i task w hi
    split at h
    · cases h
    · rename_i hw
      split at h
      · rename_i hfull
        obtain rfl := Option.some.inj h
        exact .reblocks hi hw hfull
      · rename_i hfull
        obtain ⟨workers, hsignal, rfl⟩ := push_cases h
        exact .repushes hi hw (by simpa using hfull) hsignal
  · cases h

theorem takeLocked_moves {i : Nat} {w : Worker τ} {woken : Option Nat}
    (hi : pool.workers[i]? = some w) (hready : Ready w)
    (h : pool.takeLocked i woken = some pool') : Moves pool (.take i woken) pool' := by
  rw [takeLocked] at h
  split at h
  · rename_i hqueue
    split at h
    · rename_i hrunning
      obtain rfl := Option.some.inj h
      exact .waits hi hready hqueue hrunning
    · rename_i hrunning
      obtain rfl := Option.some.inj h
      exact .leaves hi hready hqueue (by simpa using hrunning)
  · rename_i task queue hqueue
    dsimp only at h
    split at h
    · rename_i hmax
      obtain ⟨producers, hsignal, rfl⟩ := Option.map_eq_some_iff.mp h
      exact .takes hi hready hqueue (by rwa [if_pos hmax])
    · rename_i hmax
      obtain rfl := Option.some.inj h
      exact .takes hi hready hqueue (by rw [if_neg hmax])

/-- Everything that is proved of runs is read off these outcomes. -/
theorem step_moves {i : Input τ} (h : step pool i = some pool') : Moves pool i pool' := by
  cases i with
  | run task woken => exact run_moves h
  | rerun i woken => exact rerun_moves h
  | producerAwakes i =>
      rw [step] at h
      split at h
      · rename_i task hi
        obtain rfl := Option.some.inj h
        exact .producerAwakes hi
      · cases h
  | test i =>
      rw [step] at h
      split at h
      · rename_i hi
        obtain rfl := Option.some.inj h
        split
        · rename_i hrunning
          exact .enters hi hrunning
        · rename_i hrunning
          exact .exits hi (by simpa using hrunning)
      · cases h
  | take i woken =>
      rw [step] at h
      split at h
      · rename_i w hi
        split at h
        · rename_i hready
          exact takeLocked_moves hi hready h
        · cases h
      · cases h
  | workerAwakes i =>
      rw [step] at h
      split at h
      · rename_i hi
        obtain rfl := Option.some.inj h
        exact .workerAwakes hi
      · cases h
  | done i =>
      rw [step] at h
      split at h
      · rename_i task hi
        obtain rfl := Option.some.inj h
        exact .done hi
      · cases h
  | stop =>
      rw [step] at h
      split at h
      · rename_i hstopping
        obtain rfl := Option.some.inj h
        exact .stop hstopping
      · cases h
  | stopReturns =>
      rw [step] at h
      split at h
      · rename_i hjoined
        obtain rfl := Option.some.inj h
        exact .stopReturns hjoined.1 fun w hw =>
          Worker.isExited_iff.mp (List.all_eq_true.mp hjoined.2 w hw)
      · cases h

end Inversion

end ThreadPool

end Dummyload
