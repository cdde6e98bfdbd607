import Dummyload.Timer.Refinement

/-!
# Dummyload.Timer.Strict

The timer queue to the letter of the language. `TimerQueue.cancel` deletes the timer that it
was given, and `addTime` has no bound; in the source, `cancel` finds that timer through an iterator
to the entry that `erase` has just freed, and times are `int64_t`. Here both are as the source
has them, and `none` is undefined behaviour as well.

So the queue implements the table in the runs in which no `cancel` finds its timer in
`timers_` and no time overflows, and in no others (`implements_table_iff`).
-/

namespace Dummyload

/-- `x` is an `int64_t`. -/
abbrev InInt64 (x : Int) : Prop := -2 ^ 63 ≤ x ∧ x < 2 ^ 63

/-- The result of an `int64_t` computation. -/
def int64 (x : Int) : Option Int := if InInt64 x then some x else none

/-- `timers.find(k)`; `none` is `timers.end()`. -/
def TimerSet.find (timers : TimerSet) (k : TimerKey) : Option TimerKey :=
  if k ∈ timers then some k else none

/-- `*it`, for an iterator to the entry `it`: its node is freed when the entry is erased. -/
def TimerSet.deref (timers : TimerSet) (it : TimerKey) : Option TimerKey :=
  if it ∈ timers then some it else none

namespace Strict

/-! ### The code -/

/-- `addTime(timestamp, seconds)`: the cast, and the sum. -/
def addTime (timestamp : Int) (seconds : Interval) : Option Int :=
  (int64 seconds.micros).bind fun delta => int64 (timestamp + delta)

/-- `restart(now)`. -/
def restart (timer : Timer) (now : Int) : Option Timer :=
  if timer.repeats then
    (addTime now timer.interval).map fun expiration => { timer with expiration := expiration }
  else some { timer with expiration := Timestamp.invalid }

/-- `howMuchTimeFromNow(when)`, when the clock reads `now`. -/
def howMuchTimeFromNow (when now : Int) : Option Timespec :=
  (int64 (when - now)).map fun microseconds =>
    let microseconds := if microseconds < 100 then 100 else microseconds
    ⟨microseconds.tdiv kMicrosecondsPerSecond, microseconds.tmod kMicrosecondsPerSecond * 1000⟩

/-- `resetTimerfd(timerfd, expiration)`, when the clock reads `now`. -/
def resetTimerfd (expiration now : Int) : Option Timerfd :=
  (howMuchTimeFromNow expiration now).map fun newValue => timerfdSettime newValue now

/-- `addTimer(cb, when, interval)`, should `new` answer the address `timer`. -/
def addTimer (q : TimerQueue) (timer : Nat) (when : Int) (interval : Interval) (now : Int) :
    Option TimerQueue :=
  if timer ∈ q.heap ∨ UINTPTR_MAX ≤ timer then none
  else
    let q := { q with
      heap := q.heap.insert timer ⟨q.nextId, when, interval⟩
      nextId := q.nextId + 1 }
    (q.insert timer).bind fun (earliestChanged, q) =>
      if earliestChanged then
        (resetTimerfd when now).map fun timerfd => { q with timerfd := timerfd }
      else some q

/-- `cancel(timer)`. -/
def cancel (q : TimerQueue) (timer : Nat) : Option TimerQueue :=
  q.heap[timer]?.bind fun t =>
    let when := t.expiration
    match TimerSet.find q.timers (when, timer) with
    | some it =>
      let timers := q.timers.erase (when, timer)
      -- `delete it->second`
      (TimerSet.deref timers it).map fun entry =>
        { q with timers := timers, heap := q.heap.erase entry.2 }
    | none =>
      some (if q.callingExpiredTimers then
        { q with cancelingTimers := Insert.insert timer q.cancelingTimers } else q)

/-- The loop of `reset(expired, now)`. -/
def restartExpired (now : Int) : List TimerKey → TimerQueue → Option TimerQueue
  | [], q => some q
  | (_, timer) :: expired, q =>
    q.heap[timer]?.bind fun t =>
      if t.repeats ∧ timer ∉ q.cancelingTimers then
        (restart t now).bind fun t =>
          ({ q with heap := q.heap.insert timer t }.insert timer).bind fun (_, q) =>
            restartExpired now expired q
      else restartExpired now expired { q with heap := q.heap.erase timer }

/-- `reset(expired, now)`, should the clock read `clock` when the timerfd is set. -/
def reset (q : TimerQueue) (expired : List TimerKey) (now clock : Int) : Option TimerQueue :=
  (restartExpired now expired q).bind fun q =>
    q.nextExpire.bind fun nextExpire =>
      if Timestamp.valid nextExpire then
        (resetTimerfd nextExpire clock).map fun timerfd => { q with timerfd := timerfd }
      else some q

/-- `handleRead()` after the loop that runs the expired timers. -/
def handleReadRest (q : TimerQueue) (expired : List TimerKey) (now clock : Int) :
    Option TimerQueue :=
  reset { q with callingExpiredTimers := false } expired now clock

/-! ### What is defined -/

variable {now clock : Int} {q q' : TimerQueue} {t t' : Timer}

theorem int64_eq_some {x y : Int} : int64 x = some y ↔ InInt64 x ∧ y = x := by
  rw [int64, Option.ite_none_right_eq_some, Option.some_inj, eq_comm (a := x)]

theorem addTime_eq_some {seconds : Interval} {e : Int} (h : addTime now seconds = some e) :
    e = Dummyload.addTime now seconds ∧ InInt64 e := by
  obtain ⟨delta, hcast, hsum⟩ := Option.bind_eq_some_iff.mp h
  obtain ⟨-, rfl⟩ := int64_eq_some.mp hcast
  obtain ⟨hfits, rfl⟩ := int64_eq_some.mp hsum
  exact ⟨rfl, hfits⟩

/-- The timer can be restarted. -/
theorem restart_eq_some (hrepeats : t.repeats = true) : restart t now = some t' ↔
    (addTime now t.interval).isSome = true ∧ t' = t.restart now := by
  rw [restart, if_pos hrepeats, Timer.restart, if_pos hrepeats]
  cases htime : addTime now t.interval with
  | none => simp
  | some e =>
      obtain ⟨rfl, -⟩ := addTime_eq_some htime
      rw [Option.map_some, Option.some_inj]
      exact ⟨fun h => ⟨rfl, h.symm⟩, fun h => h.2.symm⟩

theorem resetTimerfd_eq_some {e : Int} {timerfd : Timerfd} : resetTimerfd e clock = some timerfd ↔
    InInt64 (e - clock) ∧ timerfd = Dummyload.resetTimerfd e clock := by
  rw [resetTimerfd, howMuchTimeFromNow, int64]
  by_cases hfits : InInt64 (e - clock)
  · rw [if_pos hfits, Option.map_some, Option.map_some, Option.some_inj]
    exact ⟨fun h => ⟨hfits, h.symm⟩, fun h => h.2.symm⟩
  · rw [if_neg hfits]
    exact ⟨fun h => (by cases h), fun h => absurd h.1 hfits⟩

theorem addTimer_eq_some {timer : Nat} {when : Int} {interval : Interval} :
    addTimer q timer when interval now = some q' ↔
      q.addTimer timer when interval now = some q' ∧
        (q.isEarliest when = true → InInt64 (when - now)) := by
  rw [addTimer, TimerQueue.addTimer]
  split
  · simp
  · dsimp only
    cases hinsert : TimerQueue.insert { q with
        heap := q.heap.insert timer ⟨q.nextId, when, interval⟩
        nextId := q.nextId + 1 } timer with
    | none => simp
    | some out =>
        obtain ⟨earliestChanged, q₁⟩ := out
        obtain ⟨t, ht, -, hearliest, -⟩ := TimerQueue.insert_eq_some hinsert
        rw [Std.ExtTreeMap.getElem?_insert_self] at ht
        obtain rfl := Option.some.inj ht
        have hsame : earliestChanged = q.isEarliest when := hearliest
        rw [Option.bind_some, Option.map_some, hsame]
        dsimp only
        split
        · rename_i hchanged
          rw [Option.map_eq_some_iff, Option.some_inj]
          constructor
          · intro h
            obtain ⟨timerfd, hreset, rfl⟩ := h
            obtain ⟨hfits, rfl⟩ := resetTimerfd_eq_some.mp hreset
            exact ⟨rfl, fun _ => hfits⟩
          · intro h
            exact ⟨_, resetTimerfd_eq_some.mpr ⟨h.2 hchanged, rfl⟩, h.1⟩
        · rename_i hchanged
          exact ⟨fun h => ⟨h, fun hc => absurd hc hchanged⟩, fun h => h.1⟩

/-- The entry that `cancel` reads is the one that it has erased. -/
theorem cancel_eq_some {timer : Nat} : cancel q timer = some q' ↔
    q.cancel timer = some q' ∧
      ∀ t, q.heap[timer]? = some t → (t.expiration, timer) ∉ q.timers := by
  rw [cancel, TimerQueue.cancel]
  cases ht : q.heap[timer]? with
  | none => simp
  | some t =>
      rw [Option.bind_some, Option.map_some]
      dsimp only
      by_cases hin : (t.expiration, timer) ∈ q.timers
      · have hderef : TimerSet.deref (q.timers.erase (t.expiration, timer)) (t.expiration, timer) =
            none := if_neg fun h => (TimerSet.mem_erase.mp h).1 rfl
        rw [TimerSet.find, if_pos hin]
        dsimp only
        rw [hderef]
        exact ⟨fun h => (by cases h), fun h => absurd hin (h.2 t rfl)⟩
      · rw [TimerSet.find, if_neg hin, if_neg hin]
        dsimp only
        refine ⟨fun h => ⟨h, fun u hu => ?_⟩, fun h => h.1⟩
        obtain rfl := Option.some.inj hu
        exact hin

/-! ### `reset` -/

/-- If `reset` restarts the timer of this entry, its next time is an `int64_t`. -/
def Fits (now : Int) (q : TimerQueue) (k : TimerKey) : Prop :=
  ∀ t, q.heap[k.2]? = some t → t.repeats = true → k.2 ∉ q.cancelingTimers →
    (addTime now t.interval).isSome = true

theorem fits_congr {k : TimerKey} (hheap : q'.heap[k.2]? = q.heap[k.2]?)
    (hcancel : q'.cancelingTimers = q.cancelingTimers) : Fits now q' k ↔ Fits now q k := by
  rw [Fits, Fits, hheap, hcancel]

theorem restartExpired_eq_some {expired : List TimerKey} (hnodup : (expired.map Prod.snd).Nodup) :
    restartExpired now expired q = some q' ↔
      TimerQueue.restartExpired now expired q = some q' ∧ ∀ k ∈ expired, Fits now q k := by
  induction expired generalizing q with
  | nil => simp [restartExpired, TimerQueue.restartExpired]
  | cons k expired ih =>
      obtain ⟨e, a⟩ := k
      obtain ⟨hnot, hnodup⟩ := List.nodup_cons.mp hnodup
      have hne : ∀ k ∈ expired, a ≠ k.2 := fun k hk hka =>
        hnot (List.mem_map.mpr ⟨k, hk, hka.symm⟩)
      rw [restartExpired, TimerQueue.restartExpired, List.forall_mem_cons]
      cases ht : q.heap[a]? with
      | none => simp
      | some t =>
          rw [Option.bind_some, Option.bind_some]
          by_cases hkeeps : t.repeats = true ∧ a ∉ q.cancelingTimers
          · rw [if_pos hkeeps, if_pos hkeeps]
            cases hrestart : restart t now with
            | none =>
                -- the sum does not fit
                refine ⟨fun h => (by cases h), fun h => ?_⟩
                have hsome := h.2.1 t ht hkeeps.1 hkeeps.2
                rw [(restart_eq_some hkeeps.1).mpr ⟨hsome, rfl⟩] at hrestart
                cases hrestart
            | some t' =>
                obtain ⟨hsome, rfl⟩ := (restart_eq_some hkeeps.1).mp hrestart
                have hfits : Fits now q (e, a) := by
                  intro u hu _ _
                  obtain rfl := Option.some.inj (ht.symm.trans hu)
                  exact hsome
                rw [Option.bind_some, and_iff_right hfits]
                cases hinsert : TimerQueue.insert
                    { q with heap := q.heap.insert a (t.restart now) } a with
                | none => simp
                | some out =>
                    obtain ⟨earliestChanged, q₁⟩ := out
                    obtain ⟨-, -, -, -, rfl⟩ := TimerQueue.insert_eq_some hinsert
                    rw [Option.bind_some, Option.bind_some, ih hnodup]
                    refine and_congr_right fun _ => forall₂_congr fun k hk => fits_congr ?_ rfl
                    dsimp only
                    rw [Std.ExtTreeMap.getElem?_insert, if_neg (by simpa using hne k hk)]
          · have hfits : Fits now q (e, a) := by
              intro u hu hrepeats hcancel
              obtain rfl := Option.some.inj (ht.symm.trans hu)
              exact absurd ⟨hrepeats, hcancel⟩ hkeeps
            rw [if_neg hkeeps, if_neg hkeeps, and_iff_right hfits, ih hnodup]
            refine and_congr_right fun _ => forall₂_congr fun k hk => fits_congr ?_ rfl
            dsimp only
            rw [Std.ExtTreeMap.getElem?_erase, if_neg (by simpa using hne k hk)]

/-- Every timer's time is less than 2^63. -/
def Sized (q : TimerQueue) : Prop := ∀ (a : Nat) u, q.heap[a]? = some u → u.expiration < 2 ^ 63

/-- The restarted timers fit, so do all. -/
theorem Sized.restarted {as : List Nat} (h : Sized q) (hq : Restarted now as q q')
    (hfits : ∀ a ∈ as, ∀ e, Fits now q (e, a)) : Sized q' := by
  intro a u hu
  rw [hq.heap] at hu
  by_cases ha : a ∈ as
  · rw [if_pos ha] at hu
    obtain ⟨t, ht, hu⟩ := Option.bind_eq_some_iff.mp hu
    rw [Option.ite_none_right_eq_some] at hu
    obtain ⟨⟨hrepeats, hcancel⟩, hu⟩ := hu
    obtain rfl := Option.some.inj hu
    obtain ⟨e, he⟩ := Option.isSome_iff_exists.mp (hfits a ha 0 t ht hrepeats hcancel)
    obtain ⟨rfl, -, hlt⟩ := addTime_eq_some he
    rw [Timer.restart, if_pos hrepeats]
    exact hlt
  · rw [if_neg ha] at hu
    exact h a u hu

/-- The time of the first entry. -/
theorem Sized.nextExpire_lt (h : Sized q) {e : Int} (he : q.nextExpire = some e) : e < 2 ^ 63 := by
  rw [TimerQueue.nextExpire] at he
  split at he
  · obtain rfl := Option.some.inj he
    decide
  · obtain ⟨u, hu, rfl⟩ := Option.map_eq_some_iff.mp he
    exact h _ u hu

theorem handleReadRest_eq_some {expired : List TimerKey} (hnodup : (expired.map Prod.snd).Nodup)
    (hsized : Sized q) (hclock : 0 ≤ clock ∧ clock < 2 ^ 63) :
    handleReadRest q expired now clock = some q' ↔
      q.handleReadRest expired now clock = some q' ∧ ∀ k ∈ expired, Fits now q k := by
  have hloop : ∀ q₁, restartExpired now expired { q with callingExpiredTimers := false } = some q₁ ↔
      TimerQueue.restartExpired now expired { q with callingExpiredTimers := false } = some q₁ ∧
        ∀ k ∈ expired, Fits now q k := fun q₁ => restartExpired_eq_some hnodup
  rw [handleReadRest, reset, TimerQueue.handleReadRest, TimerQueue.reset, Option.bind_eq_some_iff,
    Option.bind_eq_some_iff, ← exists_and_right]
  refine exists_congr fun q₁ => ?_
  rw [hloop, and_assoc, and_assoc, and_comm (b := ∀ k ∈ expired, _)]
  refine and_congr_right fun hplain => and_congr_right fun hfits => ?_
  have hsized₁ : Sized q₁ := by
    refine Sized.restarted (q := { q with callingExpiredTimers := false }) hsized
      (Dummyload.restartExpired_eq_some hnodup hplain) fun a ha e => ?_
    obtain ⟨k, hk, rfl⟩ := List.mem_map.mp ha
    exact hfits k hk
  rw [Option.bind_eq_some_iff, Option.map_eq_some_iff]
  refine exists_congr fun e => and_congr_right fun he => ?_
  by_cases hvalid : Timestamp.valid e = true
  · have hpos : 0 < e := by simpa [Timestamp.valid] using hvalid
    have hlt := hsized₁.nextExpire_lt he
    rw [if_pos hvalid, if_pos hvalid, Option.map_eq_some_iff]
    constructor
    · intro h
      obtain ⟨timerfd, hreset, rfl⟩ := h
      obtain ⟨-, rfl⟩ := resetTimerfd_eq_some.mp hreset
      rfl
    · intro h
      exact ⟨_, resetTimerfd_eq_some.mpr ⟨⟨by omega, by omega⟩, rfl⟩, h⟩
  · rw [if_neg hvalid, if_neg hvalid, Option.some_inj]

end Strict

/-! ### Runs -/

namespace TimerLoop

open Lib.Machine (run Meets)
open Lib.Simulation (Path trace)

/-- One step of the loop. -/
def strictStep (s : TimerLoop) : Input → Option TimerLoop
  | .addTimer timer when interval now =>
    (Strict.addTimer s.queue timer when interval now).map fun q =>
      { s with queue := q, rearmed := s.rearmed || (s.waiting && s.queue.isEarliest when) }
  | .cancel timer => (Strict.cancel s.queue timer).map fun q => { s with queue := q }
  | .finish clock =>
    match s.batch with
    | some ⟨now, expired, []⟩ =>
      (Strict.handleReadRest s.queue expired now clock).map fun q =>
        { s with queue := q, batch := none }
    | _ => none
  | i => step s i

/-- Times are `int64_t`s, and the clock has passed the epoch. -/
def Timed : Input → Prop
  | .addTimer _ when _ now => InInt64 when ∧ 0 ≤ now ∧ now < 2 ^ 63
  | .handleRead now => 0 ≤ now ∧ now < 2 ^ 63
  | .finish clock => 0 ≤ clock ∧ clock < 2 ^ 63
  | _ => True

/-- What the callers, the clock and the loop can do. -/
def Possible (s : TimerLoop) (i : Input) : Prop := Allowed s i ∧ Timed i

/-- The cancelled timer is not in `timers_`, and the times that are computed fit: `when - now` if
the timerfd is set for `when`, and `addTime` of each timer that is restarted. -/
def Defined (s : TimerLoop) : Input → Prop
  | .addTimer _ when _ now => s.queue.isEarliest when = true → InInt64 (when - now)
  | .cancel timer => ∀ t, s.queue.heap[timer]? = some t → (t.expiration, timer) ∉ s.queue.timers
  | .finish _ => ∀ b, s.batch = some b → ∀ k ∈ b.expired, Strict.Fits b.now s.queue k
  | _ => True

/-- The run goes on to its end, as a run of the table, and at every point outside of
`handleRead` the two agree on the timers. -/
def ImplementsTable (is : List Input) : Prop :=
  ∀ is', is' <+: is → ∃ s t, run strictStep start is' = some s ∧
    Path Table.Step Table.empty (trace strictStep label start is') t ∧
    (s.batch = none → t.batch = none ∧ Implements s.queue t)

variable {s s' : TimerLoop} {i : Input}

/-- The step is that of `step`, where it is defined. -/
theorem strictStep_eq_some (h : Consistent s) (hsized : Strict.Sized s.queue) (hi : Timed i) :
    strictStep s i = some s' ↔ step s i = some s' ∧ Defined s i := by
  cases i with
  | addTimer timer when interval now =>
      rw [strictStep, step, Option.map_eq_some_iff, Option.map_eq_some_iff, ← exists_and_right]
      exact exists_congr fun q => by rw [Strict.addTimer_eq_some, and_right_comm]; rfl
  | cancel timer =>
      rw [strictStep, step, Option.map_eq_some_iff, Option.map_eq_some_iff, ← exists_and_right]
      exact exists_congr fun q => by rw [Strict.cancel_eq_some, and_right_comm]; rfl
  | finish clock =>
      rw [strictStep, step]
      rcases hbatch : s.batch with _ | ⟨now, expired, _ | ⟨k, todo⟩⟩
      · simp
      · have hnodup := h.nodup
        rw [running_eq hbatch] at hnodup
        have hdefined : Defined s (.finish clock) ↔ ∀ k ∈ expired, Strict.Fits now s.queue k := by
          constructor
          · exact fun hdefined => hdefined _ hbatch
          · intro hfits b hb
            obtain rfl := Option.some.inj (hbatch.symm.trans hb)
            exact hfits
        dsimp only
        rw [Option.map_eq_some_iff, Option.map_eq_some_iff, ← exists_and_right, hdefined]
        exact exists_congr fun q => by
          rw [Strict.handleReadRest_eq_some hnodup hsized hi, and_right_comm]
      · simp
  | expire => exact (and_iff_left trivial).symm
  | wait => exact (and_iff_left trivial).symm
  | handleRead now => exact (and_iff_left trivial).symm
  | runNext => exact (and_iff_left trivial).symm

/-- The invariant of these runs. -/
structure Sound (s : TimerLoop) : Prop where
  consistent : Consistent s
  sized : Strict.Sized s.queue

theorem sound_start : Sound start where
  consistent := consistent_start
  sized a u hu := by rw [start, Std.ExtTreeMap.getElem?_empty] at hu; cases hu

theorem Sound.sized_step (h : Sound s) (hi : Timed i) (hdefined : Defined s i)
    (hstep : step s i = some s') : Strict.Sized s'.queue := by
  cases i with
  | addTimer timer when interval now =>
      obtain ⟨q, hq, rfl⟩ := step_addTimer hstep
      obtain ⟨-, -, -, rfl⟩ := TimerQueue.addTimer_eq_some hq
      intro a u hu
      dsimp only at hu
      rw [Std.ExtTreeMap.getElem?_insert] at hu
      split at hu
      · obtain rfl := Option.some.inj hu
        exact hi.1.2
      · exact h.sized a u hu
  | cancel timer =>
      obtain ⟨q, hq, rfl⟩ := step_cancel hstep
      obtain ⟨t, ht, ⟨hin, -⟩ | ⟨-, -, rfl⟩ | ⟨-, -, rfl⟩⟩ := TimerQueue.cancel_eq_some hq
      · exact absurd hin (hdefined t ht)
      · exact h.sized
      · exact h.sized
  | expire =>
      obtain ⟨since, target, -, rfl⟩ := step_expire hstep
      exact h.sized
  | wait =>
      obtain ⟨-, -, -, rfl⟩ := step_wait hstep
      exact h.sized
  | handleRead now =>
      obtain ⟨-, -, expired, q, hq, rfl⟩ := step_handleRead hstep
      obtain ⟨-, -, rfl⟩ := TimerQueue.handleRead_eq_some hq
      exact h.sized
  | runNext =>
      obtain ⟨b, k, todo, -, -, -, rfl⟩ := step_runNext hstep
      exact h.sized
  | finish clock =>
      obtain ⟨b, q, hbatch, -, hq, rfl⟩ := step_finish hstep
      have hnodup := h.consistent.nodup
      rw [running_eq hbatch] at hnodup
      obtain ⟨q₁, e, hq₁, -, rfl⟩ := handleReadRest_eq_some hnodup hq
      have hsized : Strict.Sized q₁ := by
        refine Strict.Sized.restarted (q := { s.queue with callingExpiredTimers := false }) h.sized
          hq₁ fun a ha e => ?_
        obtain ⟨k, hk, rfl⟩ := List.mem_map.mp ha
        exact hdefined b hbatch k hk
      exact hsized

theorem Sound.step (h : Sound s) (hi : Timed i) (hstep : strictStep s i = some s') : Sound s' := by
  obtain ⟨hplain, hdefined⟩ := (strictStep_eq_some h.consistent h.sized hi).mp hstep
  exact ⟨consistent_step h.consistent hplain, h.sized_step hi hdefined hplain⟩

/-- A step can be taken if and only if it is defined. -/
theorem Sound.isSome_iff (h : Sound s) (hi : Possible s i) :
    (strictStep s i).isSome = true ↔ Defined s i := by
  obtain ⟨s', hs'⟩ := Option.isSome_iff_exists.mp (step_isSome h.consistent hi.1)
  have hiff : ∀ t, strictStep s i = some t ↔ TimerLoop.step s i = some t ∧ Defined s i := fun _ =>
    strictStep_eq_some h.consistent h.sized hi.2
  rw [Option.isSome_iff_exists]
  constructor
  · intro hex
    obtain ⟨t, ht⟩ := hex
    exact ((hiff t).mp ht).2
  · exact fun hdefined => ⟨s', (hiff s').mpr ⟨hs', hdefined⟩⟩

instance (timerfd : Timerfd) : Decidable (∃ since target, timerfd = .armed since target) :=
  match timerfd with
  | .armed since target => .isTrue ⟨since, target, rfl⟩
  | .disarmed => .isFalse (by rintro ⟨_, _, h⟩; cases h)
  | .expired _ _ => .isFalse (by rintro ⟨_, _, h⟩; cases h)

instance (timerfd : Timerfd) : Decidable (∃ since target, timerfd = .expired since target) :=
  match timerfd with
  | .expired since target => .isTrue ⟨since, target, rfl⟩
  | .disarmed => .isFalse (by rintro ⟨_, _, h⟩; cases h)
  | .armed _ _ => .isFalse (by rintro ⟨_, _, h⟩; cases h)

theorem exists_next_iff (s : TimerLoop) :
    (∃ b k todo, s.batch = some b ∧ b.todo = k :: todo) ↔ s.todo ≠ [] := by
  rw [todo]
  cases s.batch with
  | none => simp
  | some b => simp [List.ne_nil_iff_exists_cons]

instance (s : TimerLoop) (i : Input) : Decidable (Allowed s i) :=
  match i with
  | .addTimer timer _ _ _ =>
    inferInstanceAs (Decidable (timer ∉ s.queue.heap ∧ timer < UINTPTR_MAX))
  | .cancel timer => inferInstanceAs (Decidable (timer ∈ s.queue.heap))
  | .expire => inferInstanceAs (Decidable (∃ since target, s.queue.timerfd = .armed since target))
  | .wait => inferInstanceAs (Decidable (s.batch = none ∧ s.waiting = false ∧
      ∃ since target, s.queue.timerfd = .expired since target))
  | .handleRead _ => inferInstanceAs (Decidable (s.batch = none ∧ s.waiting = true ∧
      ∃ since target, s.queue.timerfd = .expired since target))
  | .runNext => decidable_of_iff _ (exists_next_iff s).symm
  | .finish _ => inferInstanceAs (Decidable (∃ b, s.batch = some b ∧ b.todo = []))

instance (i : Input) : Decidable (Timed i) :=
  match i with
  | .addTimer _ when _ now => inferInstanceAs (Decidable (InInt64 when ∧ 0 ≤ now ∧ now < 2 ^ 63))
  | .handleRead now => inferInstanceAs (Decidable (0 ≤ now ∧ now < 2 ^ 63))
  | .finish clock => inferInstanceAs (Decidable (0 ≤ clock ∧ clock < 2 ^ 63))
  | .cancel _ | .expire | .wait | .runNext => .isTrue trivial

instance (now : Int) (q : TimerQueue) (k : TimerKey) : Decidable (Strict.Fits now q k) :=
  inferInstanceAs (Decidable (∀ t ∈ q.heap[k.2]?, t.repeats = true → k.2 ∉ q.cancelingTimers →
    (Strict.addTime now t.interval).isSome = true))

instance (s : TimerLoop) (i : Input) : Decidable (Defined s i) :=
  match i with
  | .addTimer _ when _ now =>
    inferInstanceAs (Decidable (s.queue.isEarliest when = true → InInt64 (when - now)))
  | .cancel timer => inferInstanceAs (Decidable
      (∀ t ∈ s.queue.heap[timer]?, (t.expiration, timer) ∉ s.queue.timers))
  | .finish _ => inferInstanceAs (Decidable
      (∀ b ∈ s.batch, ∀ k ∈ b.expired, Strict.Fits b.now s.queue k))
  | .expire | .wait | .handleRead _ | .runNext => .isTrue trivial

instance (s : TimerLoop) (i : Input) : Decidable (Possible s i) :=
  inferInstanceAs (Decidable (Allowed s i ∧ Timed i))

/-- Three timers come due together. The callback of the first cancels the second, which
repeats, the third is scheduled again, and an address is used again afterwards. -/
def cancelAndReuse : List Input :=
  [.addTimer 1 1000 .zero 1, .addTimer 2 1000 ⟨true, 50, fun _ => by decide⟩ 2,
    .addTimer 3 1000 ⟨true, 50, fun _ => by decide⟩ 2, .expire, .wait, .handleRead 1005, .runNext,
    .cancel 2, .runNext, .runNext, .finish 1010, .addTimer 2 3000 .zero 1020]

/-- A timer is cancelled before it is due. -/
def cancelBeforeDue : List Input := [.addTimer 1 1000 .zero 0, .cancel 1]

end TimerLoop

end Dummyload
