import Dummyload.Lib.Machine
import Dummyload.Timer.Consistent

/-!
# Dummyload.Timer.Wakeup

The timerfd wakes the loop in time for the first entry of `timers_`. It is set
when `insert` finds a new first entry, and at the end of `handleRead` when the
first entry's expiration is valid; `cancel` leaves it alone, which is never too
late. An expiration that is not valid at the end of `handleRead` was added by a
callback of the batch, since the batch took all that had expired, and `insert` has
set the timerfd for it.
-/

namespace Dummyload

/-- The timerfd is armed, or holds an unread expiration, for a time no later than
`e` or 100 microseconds after it was armed. -/
def Timerfd.Covers (fd : Timerfd) (e : Int) : Prop :=
  ∃ since target, (fd = .armed since target ∨ fd = .expired since target) ∧
    target ≤ max e (since + 100)

theorem Timerfd.Covers.mono {fd : Timerfd} {e e' : Int} (h : fd.Covers e) (hle : e ≤ e') :
    fd.Covers e' := by
  obtain ⟨since, target, hfd, htarget⟩ := h
  exact ⟨since, target, hfd, htarget.trans (max_le_max_right _ hle)⟩

theorem covers_resetTimerfd (e now : Int) : (resetTimerfd e now).Covers e :=
  ⟨now, max e (now + 100), Or.inl (resetTimerfd_eq e now), le_rfl⟩

namespace TimerLoop

open Lib.Machine (run Meets)

/-- The timerfd covers the first entry; while a `handleRead` runs, which sets it at
its end, only if the expiration is not valid. -/
structure Covered (s : TimerLoop) : Prop where
  covers : ∀ k, TimerSet.first s.queue.timers = some k → (s.batch = none ∨ k.1 ≤ 0) →
    s.queue.timerfd.Covers k.1
  clock : ∀ b, s.batch = some b → 0 < b.now

/-- The wall clock reads more than 0 when `handleRead` starts. -/
def ClockPositive : Input → Prop
  | .handleRead now => 0 < now
  | _ => True

/-- The timerfd is early enough for every entry, not only for the first. -/
theorem Covered.covers_mem {s : TimerLoop} (h : Covered s) {k : TimerKey}
    (hk : k ∈ s.queue.timers) (hcase : s.batch = none ∨ k.1 ≤ 0) : s.queue.timerfd.Covers k.1 := by
  obtain ⟨first, hfirst, hle⟩ := TimerSet.exists_first hk
  exact (h.covers first hfirst (hcase.imp_right hle.trans)).mono hle

theorem Covered.addTimer {s : TimerLoop} (h : Covered s) {timer : Nat} {when now : Int}
    {interval : Interval} {q : TimerQueue} {rearmed : Bool}
    (hq : s.queue.addTimer timer when interval now = some q) :
    Covered { s with queue := q, rearmed := rearmed } := by
  obtain ⟨-, -, -, rfl⟩ := TimerQueue.addTimer_eq_some hq
  refine ⟨fun k hk hcase => ?_, h.clock⟩
  dsimp only at hk hcase ⊢
  have hmem : (when, timer) = k ∨ k ∈ s.queue.timers :=
    TimerSet.mem_insert.mp (TimerSet.mem_of_first hk)
  have hnew : k.1 ≤ when := TimerSet.first_le hk (TimerSet.mem_insert.mpr (Or.inl rfl))
  by_cases hearliest : s.queue.isEarliest when = true
  · rw [if_pos hearliest]
    -- the new entry is the first
    have hnot : k ∉ s.queue.timers := by
      intro hin
      obtain ⟨first, hfirst, hle⟩ := TimerSet.exists_first hin
      rw [TimerQueue.isEarliest, hfirst] at hearliest
      have hlt : when < first.1 := of_decide_eq_true hearliest
      omega
    obtain rfl := hmem.resolve_right hnot
    exact covers_resetTimerfd when now
  · rw [if_neg hearliest]
    rcases hmem with rfl | hin
    · -- an entry that is no later was there before
      cases hfirst : TimerSet.first s.queue.timers with
      | none =>
          rw [TimerQueue.isEarliest, hfirst] at hearliest
          exact absurd rfl hearliest
      | some first =>
          rw [TimerQueue.isEarliest, hfirst] at hearliest
          have hle : first.1 ≤ when := by simpa using hearliest
          exact (h.covers first hfirst (hcase.imp_right hle.trans)).mono hle
    · exact h.covers_mem hin hcase

theorem covered_start : Covered start := by
  constructor
  · intro k hk
    exact absurd (TimerSet.mem_of_first hk) Std.ExtTreeSet.not_mem_empty
  · intro b hb
    cases hb

/-- Entries went, and the timerfd is as before. -/
theorem Covered.subset {s : TimerLoop} (h : Covered s) {q : TimerQueue}
    (hsub : ∀ k ∈ q.timers, k ∈ s.queue.timers) (hfd : q.timerfd = s.queue.timerfd) :
    Covered { s with queue := q } := by
  refine ⟨fun k hk hcase => ?_, h.clock⟩
  rw [hfd]
  exact h.covers_mem (hsub k (TimerSet.mem_of_first hk)) hcase

/-- A `handleRead` leaves entries later than `now`, which are valid. -/
theorem Covered.handleRead {s : TimerLoop} (hs : Consistent s) {now : Int} (hnow : 0 < now)
    {expired : List TimerKey} {q : TimerQueue} {waiting : Bool}
    (hq : s.queue.handleRead now = some (expired, q)) :
    Covered { s with queue := q, batch := some ⟨now, expired, expired⟩, waiting := waiting } := by
  obtain ⟨-, -, rfl⟩ := TimerQueue.handleRead_eq_some hq
  refine ⟨fun k hk hcase => ?_, fun b hb => ?_⟩
  · exfalso
    have hnonpos : k.1 ≤ 0 := hcase.resolve_left (by simp)
    have hlater : now < k.1 := hs.lt_of_later (TimerSet.mem_of_first hk)
    omega
  · obtain rfl := Option.some.inj hb
    exact hnow

theorem le_restart {timer : Timer} (h : timer.repeats = true) (now : Int) :
    now ≤ (timer.restart now).expiration := by
  have hmicros := timer.interval.micros_nonneg h
  rw [Timer.restart, if_pos h]
  dsimp only [addTime]
  omega

/-- The end of `handleRead`: the timerfd is set for the first entry, or that entry is
not valid; then it was there before `reset`, since restarted timers are valid. -/
theorem Covered.finish {s : TimerLoop} (hs : Consistent s) (h : Covered s) {b : Batch}
    (hb : s.batch = some b) {q : TimerQueue} {clock : Int}
    (hq : s.queue.handleReadRest s.running b.now clock = some q) :
    Covered { s with queue := q, batch := none } := by
  obtain ⟨q₁, e, hq₁, he, rfl⟩ := handleReadRest_eq_some hs.nodup hq
  refine ⟨fun k hk _ => ?_, fun b hb => by cases hb⟩
  have hkeyed := (hs.reset hq₁ q₁.timerfd).keyed k (TimerSet.mem_of_first hk)
  obtain ⟨u, hu, hexp⟩ := hkeyed
  have hek : e = k.1 := by
    have hk' : TimerSet.first q₁.timers = some k := hk
    have hu' : q₁.heap[k.2]? = some u := hu
    rw [TimerQueue.nextExpire, hk'] at he
    dsimp only at he
    rw [hu', Option.map_some, hexp] at he
    exact (Option.some.inj he).symm
  rw [hek]
  dsimp only
  by_cases hvalid : Timestamp.valid k.1 = true
  · rw [if_pos hvalid]
    exact covers_resetTimerfd k.1 clock
  · rw [if_neg hvalid]
    have hnonpos : k.1 ≤ 0 := by simpa [Timestamp.valid] using hvalid
    rcases (hq₁.timers k).mp (TimerSet.mem_of_first hk) with hin | ⟨-, v, hv, hvk⟩
    · exact h.covers_mem hin (Or.inr hnonpos)
    · exfalso
      obtain ⟨w, -, hw⟩ := Option.bind_eq_some_iff.mp hv
      split at hw
      · rename_i hkeeps
        obtain rfl := Option.some.inj hw
        have hnow := h.clock b hb
        have hle := le_restart hkeeps.1 b.now
        omega
      · cases hw

theorem covered_step {s t : TimerLoop} {i : Input} (hs : Consistent s) (h : Covered s)
    (hi : ClockPositive i) (hstep : step s i = some t) : Covered t := by
  cases i with
  | addTimer timer when interval now =>
      obtain ⟨q, hq, rfl⟩ := step_addTimer hstep
      exact h.addTimer hq
  | cancel timer =>
      obtain ⟨q, hq, rfl⟩ := step_cancel hstep
      obtain ⟨t, -, ⟨-, rfl⟩ | ⟨-, -, rfl⟩ | ⟨-, -, rfl⟩⟩ := TimerQueue.cancel_eq_some hq
      · exact h.subset (fun k hk => (TimerSet.mem_erase.mp hk).2) rfl
      · exact h.subset (fun k hk => hk) rfl
      · exact h
  | expire =>
      obtain ⟨since, target, hfd, rfl⟩ := step_expire hstep
      refine ⟨fun k hk hcase => ?_, h.clock⟩
      obtain ⟨since', target', hfd', htarget⟩ := h.covers k hk hcase
      rw [hfd] at hfd'
      rcases hfd' with heq | heq
      · obtain ⟨rfl, rfl⟩ := Timerfd.armed.inj heq
        exact ⟨since, target, Or.inr rfl, htarget⟩
      · cases heq
  | wait =>
      obtain ⟨-, -, -, rfl⟩ := step_wait hstep
      exact ⟨h.covers, h.clock⟩
  | handleRead now =>
      obtain ⟨-, -, expired, q, hq, rfl⟩ := step_handleRead hstep
      exact Covered.handleRead hs hi hq
  | runNext =>
      obtain ⟨b, k, todo, hbatch, -, -, rfl⟩ := step_runNext hstep
      refine ⟨fun k hk hcase => h.covers k hk (hcase.imp_left fun hnone => ?_), fun b' hb' => ?_⟩
      · cases hnone
      · obtain rfl := Option.some.inj hb'
        exact h.clock b hbatch
  | finish clock =>
      obtain ⟨b, q, hbatch, -, hq, rfl⟩ := step_finish hstep
      rw [← running_eq hbatch] at hq
      exact h.finish hs hbatch hq

/-- **No lost wake-up.** Outside of `handleRead`, when `timers_` is not empty the
timerfd is armed or holds an unread expiration, for a time no later than the first
expiration or 100 microseconds after it was armed. -/
theorem timerfd_covers_first (is : List Input) (s : TimerLoop)
    (hclock : ∀ now, Input.handleRead now ∈ is → 0 < now)
    (hrun : run step start is = some s) (hidle : s.batch = none) (k : TimerKey)
    (hfirst : TimerSet.first s.queue.timers = some k) :
    ∃ since target, (s.queue.timerfd = .armed since target ∨
      s.queue.timerfd = .expired since target) ∧ target ≤ max k.1 (since + 100) := by
  have hmeets : Meets step (fun _ i => ClockPositive i) start is := by
    refine Lib.Machine.meets_of_forall fun i hi => ?_
    cases i with
    | handleRead now => exact hclock now hi
    | addTimer timer when interval now => trivial
    | cancel timer => trivial
    | expire => trivial
    | wait => trivial
    | runNext => trivial
    | finish clock => trivial
  have hstep : ∀ (s : TimerLoop) (i : Input) (t : TimerLoop), Consistent s ∧ Covered s →
      ClockPositive i → step s i = some t → Consistent t ∧ Covered t :=
    fun _ _ _ h hi hstep => ⟨consistent_step h.1 hstep, covered_step h.1 h.2 hi hstep⟩
  have hinv : Consistent s ∧ Covered s :=
    Lib.Machine.invariant_of_meets hstep ⟨consistent_start, covered_start⟩ hmeets hrun
  exact hinv.2.covers k hfirst (Or.inl hidle)

/-- A callback adds a timer whose expiration is not valid, to be run at once. -/
def timeoutAddsPast : List Input :=
  [.addTimer 1 1000 .zero 1, .expire, .wait, .handleRead 1005, .runNext,
    .addTimer 2 (-7) .zero 1010, .finish 1020]

/-- After `timeoutAddsPast` the timerfd is set for that timer. -/
theorem timerfd_covers_first_timeoutAddsPast :
    ∃ s since target, run step start timeoutAddsPast = some s ∧
      (s.queue.timerfd = .armed since target ∨ s.queue.timerfd = .expired since target) ∧
      target ≤ max (-7) (since + 100) := by
  have hsome : (run step start timeoutAddsPast).isSome = true := by decide +kernel
  have hfirst : (run step start timeoutAddsPast).bind (fun s => TimerSet.first s.queue.timers) =
      some (-7, 2) := by decide +kernel
  have hidle : (run step start timeoutAddsPast).bind (fun s => s.batch.map Batch.now) = none := by
    decide +kernel
  obtain ⟨s, hs⟩ := Option.isSome_iff_exists.mp hsome
  rw [hs, Option.bind_some] at hfirst hidle
  obtain ⟨since, target, hfd, htarget⟩ := timerfd_covers_first timeoutAddsPast s
    (by simp [timeoutAddsPast]) hs (Option.map_eq_none_iff.mp hidle) (-7, 2) hfirst
  exact ⟨s, since, target, hs, hfd, htarget⟩

end TimerLoop

end Dummyload
