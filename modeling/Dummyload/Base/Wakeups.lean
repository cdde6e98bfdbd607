import Dummyload.Base.ThreadPool

/-!
# Dummyload.Base.Wakeups

The queue of a `ThreadPool` is a bounded FIFO, and no wake-up of `notEmpty_` or
`notFull_` is lost (`wakeups_kept`), although `push` and `take` signal one waiter at
a time and a newcomer may overtake it.

Both condition variables are `Covered`: every queued task is matched by a worker that
has been signalled, unless none is blocked, and so is every free place by a producer.
-/

namespace Dummyload

open Lib.Monitor (Condition)

namespace ThreadPool

variable {τ : Type*}

theorem isFull_iff {pool : ThreadPool τ} :
    pool.isFull = true ↔ 0 < pool.maxQueue ∧ pool.maxQueue ≤ pool.queue.length := by
  simp [isFull]

/-- The free places of a bounded queue. -/
def slots (pool : ThreadPool τ) : Nat := pool.maxQueue.toNat - pool.queue.length

structure Sound (n : Nat) (maxQueue : Int) (pool : ThreadPool τ) : Prop where
  maxQueue_eq : pool.maxQueue = maxQueue
  length_workers : pool.workers.length = n
  fifo : pool.taken ++ pool.queue = pool.pushed
  bounded : 0 < pool.maxQueue → (pool.queue.length : Int) ≤ pool.maxQueue
  workers : notEmpty.Covered pool.workers pool.queue.length
  producers : notFull.Covered pool.producers pool.slots
  unbounded : pool.maxQueue ≤ 0 → notFull.count .blocked pool.producers = 0

section Invariant

variable {n : Nat} {maxQueue : Int} {pool pool' : ThreadPool τ}

theorem sound_started (n : Nat) (maxQueue : Int) :
    Sound n maxQueue (started n maxQueue : ThreadPool τ) where
  maxQueue_eq := rfl
  length_workers := List.length_replicate
  fifo := rfl
  bounded h := Int.le_of_lt h
  workers := Condition.Covered.zero
  producers := Or.inl rfl
  unbounded _ := rfl

/-- A worker moves, and the queue stays. -/
theorem Sound.setWorker (h : Sound n maxQueue pool) {i : Nat} {w : Worker τ}
    (hw : notEmpty.Covered (pool.workers.set i w) pool.queue.length) :
    Sound n maxQueue (pool.setWorker i w) where
  maxQueue_eq := h.maxQueue_eq
  length_workers := by rw [ThreadPool.setWorker, List.length_set]; exact h.length_workers
  fifo := h.fifo
  bounded := h.bounded
  workers := hw
  producers := h.producers
  unbounded := h.unbounded

/-- Calls of `run()` move, and the queue stays. -/
theorem Sound.setProducers (h : Sound n maxQueue pool) {producers : List (Producer τ)}
    (hproducers : notFull.Covered producers pool.slots)
    (hunbounded : pool.maxQueue ≤ 0 → notFull.count .blocked producers = 0) :
    Sound n maxQueue { pool with producers := producers } where
  maxQueue_eq := h.maxQueue_eq
  length_workers := h.length_workers
  fifo := h.fifo
  bounded := h.bounded
  workers := h.workers
  producers := hproducers
  unbounded := hunbounded

/-- A call of `run()` finds the queue full. -/
theorem Sound.full (h : Sound n maxQueue pool) (hfull : pool.isFull = true)
    (producers : List (Producer τ)) : Sound n maxQueue { pool with producers := producers } := by
  rw [isFull_iff] at hfull
  have hslots : pool.slots = 0 := by
    unfold slots
    omega
  refine h.setProducers ?_ fun hmax => absurd hfull.1 (Int.not_lt.mpr hmax)
  rw [hslots]
  exact Condition.Covered.zero

/-- A task is pushed, by a call that has left these `producers`. -/
theorem Sound.pushing (h : Sound n maxQueue pool) (hfull : pool.isFull = false) {task : Task τ}
    {producers : List (Producer τ)} {workers : List (Worker τ)} {woken : Option Nat}
    (hsignal : notEmpty.signal pool.workers woken = some workers)
    (hproducers : notFull.Covered producers (pool.slots - 1))
    (hunbounded : pool.maxQueue ≤ 0 → notFull.count .blocked producers = 0) :
    Sound n maxQueue ({ pool with producers := producers }.pushing task workers) := by
  rw [← Bool.not_eq_true, isFull_iff] at hfull
  have hlength : (pool.queue ++ [task]).length = pool.queue.length + 1 := List.length_append
  exact {
    maxQueue_eq := h.maxQueue_eq
    length_workers := by
      rw [← h.length_workers]
      exact Condition.length_signal hsignal
    fifo := by
      show pool.taken ++ (pool.queue ++ [task]) = pool.pushed ++ [task]
      rw [← List.append_assoc, h.fifo]
    bounded := fun hmax => by
      show ((pool.queue ++ [task]).length : Int) ≤ pool.maxQueue
      rw [hlength]
      have : ¬ pool.maxQueue ≤ pool.queue.length := fun hle => hfull ⟨hmax, hle⟩
      omega
    workers := by
      show notEmpty.Covered workers (pool.queue ++ [task]).length
      rw [hlength]
      exact h.workers.signal hsignal
    producers := by
      refine hproducers.anti ?_
      show pool.maxQueue.toNat - (pool.queue ++ [task]).length ≤ pool.slots - 1
      rw [hlength, slots]
      omega
    unbounded := hunbounded }

/-- A worker moves that had not been signalled, and does not block. -/
theorem Sound.moveWorker (h : Sound n maxQueue pool) {i : Nat} {w w' : Worker τ}
    (hi : pool.workers[i]? = some w) (hw : notEmpty.status w ≠ some .notified)
    (hw' : notEmpty.status w' ≠ some .blocked) : Sound n maxQueue (pool.setWorker i w') :=
  h.setWorker (h.workers.move hi hw hw')

/-- A worker finds the queue empty. -/
theorem Sound.empty (h : Sound n maxQueue pool) (hqueue : pool.queue = []) (i : Nat)
    (w : Worker τ) : Sound n maxQueue (pool.setWorker i w) :=
  h.setWorker (by rw [hqueue]; exact Condition.Covered.zero)

theorem Sound.taking (h : Sound n maxQueue pool) {i : Nat} {w : Worker τ} {woken : Option Nat}
    {task : Task τ} {queue : List (Task τ)} {producers : List (Producer τ)}
    (hi : pool.workers[i]? = some w) (hqueue : pool.queue = task :: queue)
    (hsignal : if pool.maxQueue > 0 then notFull.signal pool.producers woken = some producers
      else producers = pool.producers) :
    Sound n maxQueue (pool.taking i task queue producers) := by
  have hlength : pool.queue.length = queue.length + 1 := by rw [hqueue, List.length_cons]
  have hworkers := h.workers
  have hproducers := h.producers
  rw [hlength] at hworkers
  exact {
    maxQueue_eq := h.maxQueue_eq
    length_workers := by rw [ThreadPool.taking, List.length_set]; exact h.length_workers
    fifo := by
      show pool.taken ++ [task] ++ queue = pool.pushed
      rw [List.append_assoc, List.singleton_append, ← hqueue, h.fifo]
    bounded := fun hmax => by
      have hle := h.bounded hmax
      show (queue.length : Int) ≤ pool.maxQueue
      omega
    workers := hworkers.take hi (by simp [notEmpty])
    producers := by
      show notFull.Covered producers (pool.maxQueue.toNat - queue.length)
      split at hsignal
      · -- the place that the task leaves is matched by the signal
        rename_i hmax
        have hle := h.bounded hmax
        have hslots : pool.maxQueue.toNat - queue.length = pool.slots + 1 := by
          unfold slots
          omega
        rw [hslots]
        exact hproducers.signal hsignal
      · rename_i hmax
        have hslots : pool.maxQueue.toNat - queue.length = 0 := by omega
        rw [hslots]
        exact Condition.Covered.zero
    unbounded := fun hmax => by
      have hmax' : ¬ pool.maxQueue > 0 := Int.not_lt.mpr hmax
      rw [if_neg hmax'] at hsignal
      show notFull.count .blocked producers = 0
      rw [hsignal]
      exact h.unbounded hmax }

theorem sound_step (h : Sound n maxQueue pool) {i : Input τ} (hstep : step pool i = some pool') :
    Sound n maxQueue pool' := by
  cases step_moves hstep with
  | inline hnone =>
      exact ⟨h.maxQueue_eq, h.length_workers, h.fifo, h.bounded, h.workers, h.producers,
        h.unbounded⟩
  | blocks hworkers hfull => exact h.full hfull _
  | pushes hworkers hfull hsignal =>
      exact h.pushing hfull hsignal (h.producers.anti (Nat.sub_le _ _)) h.unbounded
  | reblocks hi hw hfull => exact h.full hfull _
  | @repushes i task w woken workers hi hw hfull hsignal =>
      have hfull' := hfull
      rw [← Bool.not_eq_true, isFull_iff] at hfull'
      refine h.pushing hfull hsignal ?_ fun hmax => ?_
      · by_cases hmax : 0 < pool.maxQueue
        · -- the call takes one of the free places
          have hslots : pool.slots = pool.slots - 1 + 1 := by
            have : ¬ pool.maxQueue ≤ pool.queue.length := fun hle => hfull' ⟨hmax, hle⟩
            unfold slots
            omega
          have hproducers := h.producers
          rw [hslots] at hproducers
          exact hproducers.take hi (by simp [notFull])
        · have hslots : pool.slots - 1 = 0 := by
            unfold slots
            omega
          rw [hslots]
          exact Condition.Covered.zero
      · have hcount := Condition.count_move (c := notFull) hi .blocked .returned
        have hzero := h.unbounded hmax
        simp only [notFull, reduceCtorEq, if_false] at hcount hzero ⊢
        omega
  | @producerAwakes i task hi =>
      have hcount := Condition.count_move (c := notFull) hi .blocked (.waiting task .awake)
      refine h.setProducers (h.producers.move hi (by simp [notFull]) (by simp [notFull])) ?_
      intro hmax
      have hzero := h.unbounded hmax
      simp only [notFull, Option.some.injEq, reduceCtorEq, if_false] at hcount hzero ⊢
      omega
  | enters hi hrunning => exact h.moveWorker hi (by simp [notEmpty]) (by simp [notEmpty])
  | exits hi hrunning => exact h.moveWorker hi (by simp [notEmpty]) (by simp [notEmpty])
  | waits hi hready hqueue hrunning => exact h.empty hqueue _ _
  | leaves hi hready hqueue hrunning => exact h.empty hqueue _ _
  | takes hi hready hqueue hsignal => exact h.taking hi hqueue hsignal
  | workerAwakes hi => exact h.moveWorker hi (by simp [notEmpty]) (by simp [notEmpty])
  | @done j task hi =>
      have hset : Sound n maxQueue (pool.setWorker j .testing) :=
        h.moveWorker hi (by simp [notEmpty]) (by simp [notEmpty])
      exact ⟨hset.maxQueue_eq, hset.length_workers, hset.fifo, hset.bounded, hset.workers,
        hset.producers, hset.unbounded⟩
  | stop hstopping =>
      exact {
        maxQueue_eq := h.maxQueue_eq
        length_workers := by
          show (notEmpty.broadcast pool.workers).length = n
          rw [Condition.broadcast, List.length_map, h.length_workers]
        fifo := h.fifo
        bounded := h.bounded
        workers := Condition.Covered.broadcast
        producers := h.producers
        unbounded := h.unbounded }
  | stopReturns hstopping hexited =>
      exact ⟨h.maxQueue_eq, h.length_workers, h.fifo, h.bounded, h.workers, h.producers,
        h.unbounded⟩

theorem sound_run {is : List (Input τ)}
    (hrun : Lib.Machine.run step (started n maxQueue) is = some pool) : Sound n maxQueue pool :=
  Lib.Machine.invariant (fun _ _ _ h hstep => sound_step h hstep) (sound_started n maxQueue) hrun

/-- While a task is queued, not every worker is blocked. -/
theorem Sound.exists_worker (h : Sound n maxQueue pool) (hn : 0 < n) (hqueue : pool.queue ≠ []) :
    ∃ w ∈ pool.workers, w ≠ .waiting .blocked := by
  obtain ⟨w, hw⟩ := List.exists_mem_of_length_pos (h.length_workers ▸ hn)
  by_cases hblocked : w = .waiting .blocked
  · have hstatus : notEmpty.status w = some .blocked := by rw [hblocked]; rfl
    obtain ⟨w', hw', hnotified⟩ := h.workers.exists_notified (List.length_pos_of_ne_nil hqueue)
      ⟨w, hw, hstatus⟩
    refine ⟨w', hw', fun heq => ?_⟩
    rw [heq] at hnotified
    cases hnotified
  · exact ⟨w, hw, hblocked⟩

theorem exists_waiting_iff {w : Lib.Monitor.Wait} :
    (∃ p ∈ pool.producers, notFull.status p = some w) ↔
      ∃ task, .waiting task w ∈ pool.producers := by
  constructor
  · intro hex
    obtain ⟨p, hp, hw⟩ := hex
    cases p with
    | waiting task w' =>
        obtain rfl := Option.some.inj hw
        exact ⟨task, hp⟩
    | returned => cases hw
  · intro hex
    obtain ⟨task, hp⟩ := hex
    exact ⟨_, hp, rfl⟩

/-- While there is a free place, not every producer that waits is blocked. -/
theorem Sound.exists_producer (h : Sound n maxQueue pool) (hfull : pool.isFull = false)
    (hblocked : ∃ task, .waiting task .blocked ∈ pool.producers) :
    ∃ task, .waiting task .notified ∈ pool.producers := by
  rw [← exists_waiting_iff] at hblocked ⊢
  rw [← Bool.not_eq_true, isFull_iff] at hfull
  have hmax : 0 < pool.maxQueue := by
    by_contra hmax
    have hzero := h.unbounded (Int.not_lt.mp hmax)
    rw [← Condition.count_pos_iff, hzero] at hblocked
    exact absurd hblocked (Nat.lt_irrefl 0)
  have hslots : 0 < pool.slots := by
    have : ¬ pool.maxQueue ≤ pool.queue.length := fun hle => hfull ⟨hmax, hle⟩
    unfold slots
    omega
  exact h.producers.exists_notified hslots hblocked

end Invariant

/-- **The queue is a bounded FIFO, and no wake-up is lost.** After every run of a pool
with a worker, the queue is within its bound, the tasks taken and those queued are the
tasks pushed, in order; a queued task finds a worker that is not blocked, and a free
place a producer that has been signalled, if any is blocked. -/
theorem wakeups_kept (n : Nat) (maxQueue : Int) (is : List (Input τ)) (pool : ThreadPool τ)
    (hn : 0 < n) (hrun : Lib.Machine.run step (started n maxQueue) is = some pool) :
    (0 < maxQueue → (pool.queue.length : Int) ≤ maxQueue) ∧
      pool.taken ++ pool.queue = pool.pushed ∧
      (pool.queue ≠ [] → ∃ w ∈ pool.workers, w ≠ .waiting .blocked) ∧
      (pool.isFull = false → (∃ task, .waiting task .blocked ∈ pool.producers) →
        ∃ task, .waiting task .notified ∈ pool.producers) := by
  have h : Sound n maxQueue pool := sound_run hrun
  refine ⟨?_, h.fifo, h.exists_worker hn, h.exists_producer⟩
  rw [← h.maxQueue_eq]
  exact h.bounded

/-- A newcomer overtakes the producer that was signalled, which blocks again. -/
def overtakingRun : List (Input Nat) :=
  [.run (some 1) none, .run (some 2) none, .test 0, .take 0 (some 0), .run (some 3) none,
    .rerun 0 none, .test 1]

theorem wakeups_kept_overtakingRun :
    ∃ pool, Lib.Machine.run step (started 2 1) overtakingRun = some pool ∧
      (0 < (1 : Int) → (pool.queue.length : Int) ≤ 1) ∧
      pool.taken ++ pool.queue = pool.pushed ∧
      (pool.queue ≠ [] → ∃ w ∈ pool.workers, w ≠ .waiting .blocked) ∧
      (pool.isFull = false → (∃ task, .waiting task .blocked ∈ pool.producers) →
        ∃ task, .waiting task .notified ∈ pool.producers) := by
  have hrun : (Lib.Machine.run step (started 2 1) overtakingRun).isSome = true := by decide
  obtain ⟨pool, hpool⟩ := Option.isSome_iff_exists.mp hrun
  exact ⟨pool, hpool, wakeups_kept 2 1 overtakingRun pool (by decide) hpool⟩

end ThreadPool

end Dummyload
