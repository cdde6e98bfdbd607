import Mathlib

/-!
# Dummyload.Timer.TimerQueue

`TimerQueue` (`src/TimerQueue.cpp`) with its `Timer`s and its timerfd. A
`Timestamp` is its microseconds, an `Int`; every reading of the clock is an
argument. Timers are objects at addresses, and an address can be used again once
its timer is deleted.

`none` is a failed assertion, or the use of an address at which no timer is. The entry
that `cancel` reads after `erase` has freed it is taken to hold what it held, and sums
of times have no bound; `Dummyload.Timer.Strict` has both as they are in the language.
-/

namespace Dummyload

/-- `Timestamp::valid()`. -/
def Timestamp.valid (t : Int) : Bool := 0 < t

/-- `Timestamp::invalid()`. -/
def Timestamp.invalid : Int := 0

/-- A `double` interval, as the code sees it: whether it is above 0.0, and
`static_cast<int64_t>(interval * kMicrosecondsPerSecond)`. -/
structure Interval where
  positive : Bool
  micros : Int
  micros_nonneg : positive = true → 0 ≤ micros
  deriving DecidableEq

/-- The interval 0.0 of a timer that runs once. -/
def Interval.zero : Interval := ⟨false, 0, fun _ => le_rfl⟩

/-- `addTime(timestamp, seconds)`. -/
def addTime (timestamp : Int) (seconds : Interval) : Int := timestamp + seconds.micros

/-! ### The timerfd -/

/-- A timerfd: not set, set at a time for a time, or expired and not read since. -/
inductive Timerfd
  | disarmed
  | armed (since target : Int)
  | expired (since target : Int)
  deriving DecidableEq, Repr

structure Timespec where
  tv_sec : Int
  tv_nsec : Int

def kMicrosecondsPerSecond : Int := 1000 * 1000

/-- `howMuchTimeFromNow(when)`, when the clock reads `now`. -/
def howMuchTimeFromNow (when now : Int) : Timespec :=
  let microseconds := when - now
  let microseconds := if microseconds < 100 then 100 else microseconds
  ⟨microseconds.tdiv kMicrosecondsPerSecond, microseconds.tmod kMicrosecondsPerSecond * 1000⟩

/-- `timerfd_settime(timerfd, 0, &newValue, &oldValue)` at time `now`: an unread
expiration is discarded, and a value of zero disarms. -/
def timerfdSettime (newValue : Timespec) (now : Int) : Timerfd :=
  if newValue.tv_sec = 0 ∧ newValue.tv_nsec = 0 then .disarmed
  else .armed now (now + newValue.tv_sec * kMicrosecondsPerSecond + newValue.tv_nsec.tdiv 1000)

/-- `resetTimerfd(timerfd, expiration)`, when the clock reads `now`. -/
def resetTimerfd (expiration now : Int) : Timerfd :=
  timerfdSettime (howMuchTimeFromNow expiration now) now

/-- `readTimerfd(timerfd, now)`: reading nothing fails the assertion. -/
def readTimerfd : Timerfd → Option Timerfd
  | .expired _ _ => some .disarmed
  | _ => none

theorem resetTimerfd_eq (expiration now : Int) :
    resetTimerfd expiration now = .armed now (max expiration (now + 100)) := by
  have hdiv : ∀ m : Int, 100 ≤ m →
      ¬ (m.tdiv kMicrosecondsPerSecond = 0 ∧ m.tmod kMicrosecondsPerSecond * 1000 = 0) ∧
        m.tdiv kMicrosecondsPerSecond * kMicrosecondsPerSecond +
          (m.tmod kMicrosecondsPerSecond * 1000).tdiv 1000 = m := by
    intro m hm
    have hsplit := Int.mul_tdiv_add_tmod m kMicrosecondsPerSecond
    rw [Int.mul_tdiv_cancel _ (by decide)]
    constructor
    · intro hand
      obtain ⟨h₁, h₂⟩ := hand
      rw [h₁] at hsplit
      omega
    · rw [mul_comm]
      exact hsplit
  rw [resetTimerfd, howMuchTimeFromNow, timerfdSettime]
  dsimp only
  split
  · obtain ⟨hne, hsum⟩ := hdiv 100 le_rfl
    rw [if_neg hne, add_assoc, hsum, max_eq_right (by omega)]
  · obtain ⟨hne, hsum⟩ := hdiv (expiration - now) (by omega)
    rw [if_neg hne, add_assoc, hsum, max_eq_left (by omega)]
    congr 1
    omega

/-! ### Timers -/

/-- A `Timer`. Its callback is the environment's; `id` numbers the timers in the
order they were made and is not in the source. -/
structure Timer where
  id : Nat
  expiration : Int
  interval : Interval

namespace Timer

/-- `repeat()`. -/
def repeats (timer : Timer) : Bool := timer.interval.positive

def restart (timer : Timer) (now : Int) : Timer :=
  if timer.repeats then { timer with expiration := addTime now timer.interval }
  else { timer with expiration := Timestamp.invalid }

end Timer

/-- `pair<Timestamp, Timer*>`. -/
abbrev TimerKey := Int × Nat

/-- The order of these pairs. -/
def keyCmp : TimerKey → TimerKey → Ordering :=
  compareLex (compareOn Prod.fst) (compareOn Prod.snd)

instance : Std.TransCmp keyCmp :=
  inferInstanceAs (Std.TransCmp (compareLex (compareOn Prod.fst) (compareOn Prod.snd)))

theorem keyCmp_eq_lt {k k' : TimerKey} :
    keyCmp k k' = .lt ↔ k.1 < k'.1 ∨ (k.1 = k'.1 ∧ k.2 < k'.2) := by
  simp [keyCmp, compareLex, compareOn, Ordering.then_eq_lt, compare_lt_iff_lt]

instance : Std.LawfulEqCmp keyCmp where
  eq_of_compare {k k'} h := by
    simpa [keyCmp, compareLex, compareOn, Ordering.then_eq_eq, Prod.ext_iff] using h

/-- `set<pair<Timestamp, Timer*>>`. -/
abbrev TimerSet := Std.ExtTreeSet TimerKey keyCmp

/-- `*begin()`, unless `begin() == end()`. -/
def TimerSet.first (timers : TimerSet) : Option TimerKey := timers.toList.head?

def UINTPTR_MAX : Nat := 2 ^ 64 - 1

structure TimerQueue where
  timers : TimerSet := ∅
  cancelingTimers : Finset Nat := ∅
  callingExpiredTimers : Bool := false
  timerfd : Timerfd := .disarmed
  /-- The timers that exist, by address. -/
  heap : Std.ExtTreeMap Nat Timer := ∅
  /-- How many timers were made so far. -/
  nextId : Nat := 0

namespace TimerQueue

/-- `it == timers_.end() || when < it->first`, with `it` at the first entry. -/
def isEarliest (q : TimerQueue) (when : Int) : Bool :=
  match TimerSet.first q.timers with
  | none => true
  | some first => when < first.1

/-- `insert(timer)`: whether the earliest timer has changed. -/
def insert (q : TimerQueue) (timer : Nat) : Option (Bool × TimerQueue) :=
  q.heap[timer]?.bind fun t =>
    let when := t.expiration
    let earliestChanged := q.isEarliest when
    if (when, timer) ∈ q.timers then none
    else some (earliestChanged, { q with timers := q.timers.insert (when, timer) })

/-- `addTimer(cb, when, interval)`, should `new` answer the address `timer`, which
no other timer has, and the clock read `now`. -/
def addTimer (q : TimerQueue) (timer : Nat) (when : Int) (interval : Interval) (now : Int) :
    Option TimerQueue :=
  if timer ∈ q.heap ∨ UINTPTR_MAX ≤ timer then none
  else
    let q := { q with
      heap := q.heap.insert timer ⟨q.nextId, when, interval⟩
      nextId := q.nextId + 1 }
    (q.insert timer).map fun (earliestChanged, q) =>
      if earliestChanged then { q with timerfd := resetTimerfd when now } else q

/-- `cancel(timer)`. -/
def cancel (q : TimerQueue) (timer : Nat) : Option TimerQueue :=
  q.heap[timer]?.map fun t =>
    let when := t.expiration
    if (when, timer) ∈ q.timers then
      -- `delete it->second`, where the entry that `it` points to was just erased: what is
      -- read is taken to be what it held, `timer`
      { q with timers := q.timers.erase (when, timer), heap := q.heap.erase timer }
    else if q.callingExpiredTimers then
      { q with cancelingTimers := Insert.insert timer q.cancelingTimers }
    else q

/-- Is the entry before `timers_.lower_bound(sentry)`? -/
def beforeSentry (now : Int) (k : TimerKey) : Bool := keyCmp k (now, UINTPTR_MAX) = .lt

/-- `getExpired(now)`. -/
def getExpired (q : TimerQueue) (now : Int) : Option (List TimerKey × TimerQueue) :=
  let later : TimerSet := q.timers.filter fun k => !beforeSentry now k
  -- `assert(end == timers_.end() || now < end->first)`
  if (TimerSet.first later).all fun k => now < k.1 then
    some (q.timers.toList.filter (beforeSentry now), { q with timers := later })
  else none

/-- The loop of `reset(expired, now)`. -/
def restartExpired (now : Int) : List TimerKey → TimerQueue → Option TimerQueue
  | [], q => some q
  | (_, timer) :: expired, q =>
    q.heap[timer]?.bind fun t =>
      if t.repeats ∧ timer ∉ q.cancelingTimers then
        ({ q with heap := q.heap.insert timer (t.restart now) }.insert timer).bind fun (_, q) =>
          restartExpired now expired q
      else restartExpired now expired { q with heap := q.heap.erase timer }

/-- `timers_.begin()->second->expiration()`, and `Timestamp()` when there is none. -/
def nextExpire (q : TimerQueue) : Option Int :=
  match TimerSet.first q.timers with
  | none => some 0
  | some first => q.heap[first.2]?.map Timer.expiration

/-- `reset(expired, now)`, should the clock read `clock` when the timerfd is set. -/
def reset (q : TimerQueue) (expired : List TimerKey) (now clock : Int) : Option TimerQueue :=
  (restartExpired now expired q).bind fun q =>
    q.nextExpire.map fun nextExpire =>
      if Timestamp.valid nextExpire then { q with timerfd := resetTimerfd nextExpire clock } else q

/-- `handleRead()` up to the loop that runs the expired timers, which it answers. -/
def handleRead (q : TimerQueue) (now : Int) : Option (List TimerKey × TimerQueue) :=
  (readTimerfd q.timerfd).bind fun timerfd =>
    let q : TimerQueue := { q with timerfd := timerfd, cancelingTimers := ∅ }
    (q.getExpired now).map fun (expired, q) => (expired, { q with callingExpiredTimers := true })

/-- `handleRead()` after that loop. -/
def handleReadRest (q : TimerQueue) (expired : List TimerKey) (now clock : Int) :
    Option TimerQueue :=
  { q with callingExpiredTimers := false }.reset expired now clock

/-! ### What the operations do -/

section Inversion

variable {q q' : TimerQueue} {timer : Nat}

theorem insert_eq_some {earliestChanged : Bool}
    (h : q.insert timer = some (earliestChanged, q')) :
    ∃ t, q.heap[timer]? = some t ∧ (t.expiration, timer) ∉ q.timers ∧
      earliestChanged = q.isEarliest t.expiration ∧
      q' = { q with timers := q.timers.insert (t.expiration, timer) } := by
  obtain ⟨t, ht, h⟩ := Option.bind_eq_some_iff.mp h
  dsimp only at h
  split at h
  · cases h
  · rename_i hnot
    obtain ⟨rfl, rfl⟩ := Prod.mk.inj (Option.some.inj h)
    exact ⟨t, ht, hnot, rfl, rfl⟩

theorem addTimer_eq_some {when now : Int} {interval : Interval}
    (h : q.addTimer timer when interval now = some q') :
    timer ∉ q.heap ∧ timer < UINTPTR_MAX ∧ (when, timer) ∉ q.timers ∧
      q' = { q with
        timers := q.timers.insert (when, timer)
        heap := q.heap.insert timer ⟨q.nextId, when, interval⟩
        nextId := q.nextId + 1
        timerfd := if q.isEarliest when then resetTimerfd when now else q.timerfd } := by
  rw [addTimer] at h
  split at h
  · cases h
  · rename_i hfree
    rw [not_or, Nat.not_le] at hfree
    obtain ⟨⟨earliestChanged, q₁⟩, hinsert, h⟩ := Option.map_eq_some_iff.mp h
    obtain ⟨t, ht, hnot, rfl, rfl⟩ := insert_eq_some hinsert
    rw [Std.ExtTreeMap.getElem?_insert_self] at ht
    obtain rfl := Option.some.inj ht
    refine ⟨hfree.1, hfree.2, hnot, ?_⟩
    obtain rfl := h
    by_cases hearliest : q.isEarliest when = true
    · rw [if_pos hearliest]
      exact if_pos hearliest
    · rw [if_neg hearliest]
      exact if_neg hearliest

theorem cancel_eq_some (h : q.cancel timer = some q') :
    ∃ t, q.heap[timer]? = some t ∧
      (((t.expiration, timer) ∈ q.timers ∧
          q' = { q with
            timers := q.timers.erase (t.expiration, timer)
            heap := q.heap.erase timer }) ∨
        ((t.expiration, timer) ∉ q.timers ∧ q.callingExpiredTimers = true ∧
          q' = { q with cancelingTimers := Insert.insert timer q.cancelingTimers }) ∨
        ((t.expiration, timer) ∉ q.timers ∧ q.callingExpiredTimers = false ∧ q' = q)) := by
  obtain ⟨t, ht, h⟩ := Option.map_eq_some_iff.mp h
  refine ⟨t, ht, ?_⟩
  dsimp only at h
  split at h
  · rename_i hin
    exact Or.inl ⟨hin, h.symm⟩
  · rename_i hnot
    split at h
    · rename_i hcalling
      exact Or.inr (Or.inl ⟨hnot, hcalling, h.symm⟩)
    · rename_i hcalling
      exact Or.inr (Or.inr ⟨hnot, by simpa using hcalling, h.symm⟩)

theorem handleRead_eq_some {now : Int} {expired : List TimerKey}
    (h : q.handleRead now = some (expired, q')) :
    (∃ since target, q.timerfd = .expired since target) ∧
      expired = q.timers.toList.filter (beforeSentry now) ∧
      q' = { q with
        timers := q.timers.filter fun k => !beforeSentry now k
        cancelingTimers := ∅
        callingExpiredTimers := true
        timerfd := .disarmed } := by
  rw [handleRead] at h
  obtain ⟨timerfd, hread, h⟩ := Option.bind_eq_some_iff.mp h
  cases hfd : q.timerfd with
  | disarmed => rw [hfd] at hread; cases hread
  | armed since target => rw [hfd] at hread; cases hread
  | expired since target =>
      rw [hfd] at hread
      obtain rfl := Option.some.inj hread
      obtain ⟨⟨expired, q₁⟩, hexpired, h⟩ := Option.map_eq_some_iff.mp h
      rw [getExpired] at hexpired
      dsimp only at hexpired
      split at hexpired
      · obtain ⟨rfl, rfl⟩ := Prod.mk.inj (Option.some.inj hexpired)
        obtain ⟨rfl, rfl⟩ := Prod.mk.inj h
        exact ⟨⟨since, target, rfl⟩, rfl, rfl⟩
      · cases hexpired

end Inversion

end TimerQueue

/-! ### Runs -/

/-- A `handleRead` in the middle of its loop: its `now`, `expired`, and the part of
`expired` whose callbacks have not been invoked yet. -/
structure Batch where
  now : Int
  expired : List TimerKey
  todo : List TimerKey

/-- The timer queue in its event loop. -/
structure TimerLoop where
  queue : TimerQueue := {}
  /-- The `handleRead` that is running. -/
  batch : Option Batch := none
  /-- The timer channel is in `activeChannels_`, and was not dispatched yet. -/
  waiting : Bool := false
  /-- A history variable: since `epoll_wait` reported the timerfd, it was armed again,
  and the time it was armed for has not come. -/
  rearmed : Bool := false

namespace TimerLoop

/-- One step. Callbacks, of timers and of other channels, call `addTimer` and
`cancel`; the loop reports the timerfd and dispatches `handleRead`. -/
inductive Input
  | addTimer (timer : Nat) (when : Int) (interval : Interval) (now : Int)
  | cancel (timer : Nat)
  /-- The time that the timerfd is armed for comes. -/
  | expire
  /-- `epoll_wait` reports the timerfd. -/
  | wait
  /-- `handleRead` is dispatched and runs up to its loop. -/
  | handleRead (now : Int)
  /-- The callback of the next expired timer is invoked, the one before having
  returned. -/
  | runNext
  /-- The last callback has returned, and `handleRead` runs to its end. -/
  | finish (clock : Int)

def step (s : TimerLoop) : Input → Option TimerLoop
  | .addTimer timer when interval now =>
    (s.queue.addTimer timer when interval now).map fun q =>
      { s with queue := q, rearmed := s.rearmed || (s.waiting && s.queue.isEarliest when) }
  | .cancel timer => (s.queue.cancel timer).map fun q => { s with queue := q }
  | .expire =>
    match s.queue.timerfd with
    | .armed since target =>
      some { s with queue := { s.queue with timerfd := .expired since target }, rearmed := false }
    | _ => none
  | .wait =>
    match s.batch, s.waiting, s.queue.timerfd with
    | none, false, .expired _ _ => some { s with waiting := true, rearmed := false }
    | _, _, _ => none
  | .handleRead now =>
    match s.batch, s.waiting with
    | none, true =>
      (s.queue.handleRead now).map fun (expired, q) =>
        { s with queue := q, batch := some ⟨now, expired, expired⟩, waiting := false }
    | _, _ => none
  | .runNext =>
    match s.batch with
    | some ⟨now, expired, (_, timer) :: todo⟩ =>
      s.queue.heap[timer]?.map fun _ => { s with batch := some ⟨now, expired, todo⟩ }
    | _ => none
  | .finish clock =>
    match s.batch with
    | some ⟨now, expired, []⟩ =>
      (s.queue.handleReadRest expired now clock).map fun q => { s with queue := q, batch := none }
    | _ => none

/-- The loop after the constructor of the queue. -/
def start : TimerLoop := {}

/-! ### What a step does -/

section Inversion

variable {s s' : TimerLoop}

theorem step_addTimer {timer : Nat} {when now : Int} {interval : Interval}
    (h : step s (.addTimer timer when interval now) = some s') :
    ∃ q, s.queue.addTimer timer when interval now = some q ∧
      s' = { s with
        queue := q
        rearmed := s.rearmed || (s.waiting && s.queue.isEarliest when) } := by
  obtain ⟨q, hq, rfl⟩ := Option.map_eq_some_iff.mp h
  exact ⟨q, hq, rfl⟩

theorem step_cancel {timer : Nat} (h : step s (.cancel timer) = some s') :
    ∃ q, s.queue.cancel timer = some q ∧ s' = { s with queue := q } := by
  obtain ⟨q, hq, rfl⟩ := Option.map_eq_some_iff.mp h
  exact ⟨q, hq, rfl⟩

theorem step_expire (h : step s .expire = some s') :
    ∃ since target, s.queue.timerfd = .armed since target ∧
      s' = { s with
        queue := { s.queue with timerfd := .expired since target }
        rearmed := false } := by
  rw [step] at h
  split at h
  · rename_i since target hfd
    exact ⟨since, target, hfd, (Option.some.inj h).symm⟩
  · cases h

theorem step_wait (h : step s .wait = some s') :
    s.batch = none ∧ s.waiting = false ∧
      (∃ since target, s.queue.timerfd = .expired since target) ∧
      s' = { s with waiting := true, rearmed := false } := by
  rw [step] at h
  split at h
  · rename_i since target hbatch hwait hfd
    exact ⟨hbatch, hwait, ⟨since, target, hfd⟩, (Option.some.inj h).symm⟩
  · cases h

theorem step_handleRead {now : Int} (h : step s (.handleRead now) = some s') :
    s.batch = none ∧ s.waiting = true ∧ ∃ expired q, s.queue.handleRead now = some (expired, q) ∧
      s' = { s with queue := q, batch := some ⟨now, expired, expired⟩, waiting := false } := by
  rw [step] at h
  split at h
  · rename_i hbatch hwait
    obtain ⟨⟨expired, q⟩, hq, rfl⟩ := Option.map_eq_some_iff.mp h
    exact ⟨hbatch, hwait, expired, q, hq, rfl⟩
  · cases h

theorem step_runNext (h : step s .runNext = some s') :
    ∃ b k todo, s.batch = some b ∧ b.todo = k :: todo ∧ (∃ u, s.queue.heap[k.2]? = some u) ∧
      s' = { s with batch := some { b with todo := todo } } := by
  rw [step] at h
  split at h
  · rename_i now expired e timer todo hbatch
    obtain ⟨u, hu, rfl⟩ := Option.map_eq_some_iff.mp h
    exact ⟨_, (e, timer), todo, hbatch, rfl, ⟨u, hu⟩, rfl⟩
  · cases h

theorem step_finish {clock : Int} (h : step s (.finish clock) = some s') :
    ∃ b q, s.batch = some b ∧ b.todo = [] ∧
      s.queue.handleReadRest b.expired b.now clock = some q ∧
      s' = { s with queue := q, batch := none } := by
  rw [step] at h
  split at h
  · rename_i now expired hbatch
    obtain ⟨q, hq, rfl⟩ := Option.map_eq_some_iff.mp h
    exact ⟨_, q, hbatch, rfl, hq, rfl⟩
  · cases h

end Inversion

end TimerLoop

end Dummyload
