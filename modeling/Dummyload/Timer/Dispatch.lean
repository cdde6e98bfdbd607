import Dummyload.Lib.Machine
import Dummyload.Timer.TimerQueue

/-!
# Dummyload.Timer.Dispatch

Whether the timerfd can be read when `handleRead` is dispatched. `epoll_wait`
reports it once for the whole batch of ready channels; a callback of another
channel in that batch may call `addTimer`, and when its timer becomes the earliest
one `resetTimerfd` discards the expiration that was reported. What decides is
whether that has happened, and the new time not come yet (`meets_readsUnread_iff`).
-/

namespace Dummyload

namespace TimerLoop

open Lib.Machine (run Meets)

/-- `handleRead` is dispatched. -/
def Dispatches (s : TimerLoop) : Input → Prop
  | .handleRead _ => s.batch = none ∧ s.waiting = true
  | _ => False

/-- When `handleRead` is dispatched, the timerfd holds an unread expiration. -/
def ReadsUnread (s : TimerLoop) (i : Input) : Prop :=
  Dispatches s i → (readTimerfd s.queue.timerfd).isSome = true

/-- When `handleRead` is dispatched, no `addTimer` has armed the timerfd again since
it was reported, for a time that has not come. -/
def NotRearmed (s : TimerLoop) (i : Input) : Prop := Dispatches s i → s.rearmed = false

instance (s : TimerLoop) (i : Input) : Decidable (Dispatches s i) := by
  cases i <;> unfold Dispatches <;> infer_instance

instance (s : TimerLoop) (i : Input) : Decidable (ReadsUnread s i) :=
  inferInstanceAs (Decidable (Dispatches s i → _))

/-- What the timerfd is while its channel waits to be dispatched. -/
structure Reported (s : TimerLoop) : Prop where
  idle : s.batch = none
  timerfd : (∃ since target, s.queue.timerfd = .expired since target ∧ s.rearmed = false) ∨
    ∃ since target, s.queue.timerfd = .armed since target ∧ s.rearmed = true

theorem Reported.isSome_iff {s : TimerLoop} (h : Reported s) :
    (readTimerfd s.queue.timerfd).isSome = true ↔ s.rearmed = false := by
  rcases h.timerfd with ⟨since, target, hfd, hre⟩ | ⟨since, target, hfd, hre⟩
  · rw [hfd, hre]
    simp [readTimerfd]
  · rw [hfd, hre]
    simp [readTimerfd]

theorem reported_step {s t : TimerLoop} {i : Input} (h : s.waiting = true → Reported s)
    (hstep : step s i = some t) : t.waiting = true → Reported t := by
  cases i with
  | addTimer timer when interval now =>
      obtain ⟨q, hq, rfl⟩ := step_addTimer hstep
      intro hwait
      obtain ⟨hidle, hfd⟩ := h hwait
      obtain ⟨-, -, -, rfl⟩ := TimerQueue.addTimer_eq_some hq
      refine ⟨hidle, ?_⟩
      dsimp only at hwait ⊢
      by_cases hearliest : s.queue.isEarliest when = true
      · rw [if_pos hearliest, resetTimerfd_eq]
        exact Or.inr ⟨_, _, rfl, by simp [hearliest, hwait]⟩
      · have hre : (s.rearmed || s.waiting && s.queue.isEarliest when) = s.rearmed := by
          simp [hearliest]
        rw [if_neg hearliest, hre]
        exact hfd
  | cancel timer =>
      obtain ⟨q, hq, rfl⟩ := step_cancel hstep
      intro hwait
      obtain ⟨hidle, hfd⟩ := h hwait
      obtain ⟨t, -, ⟨-, rfl⟩ | ⟨-, -, rfl⟩ | ⟨-, -, rfl⟩⟩ := TimerQueue.cancel_eq_some hq
      · exact ⟨hidle, hfd⟩
      · exact ⟨hidle, hfd⟩
      · exact ⟨hidle, hfd⟩
  | expire =>
      obtain ⟨since, target, -, rfl⟩ := step_expire hstep
      intro hwait
      exact ⟨(h hwait).idle, Or.inl ⟨since, target, rfl, rfl⟩⟩
  | wait =>
      obtain ⟨hidle, -, ⟨since, target, hfd⟩, rfl⟩ := step_wait hstep
      exact fun _ => ⟨hidle, Or.inl ⟨since, target, hfd, rfl⟩⟩
  | handleRead now =>
      obtain ⟨-, -, expired, q, -, rfl⟩ := step_handleRead hstep
      intro hwait
      cases hwait
  | runNext =>
      -- no batch runs while the channel waits
      obtain ⟨b, k, todo, hbatch, -, -, rfl⟩ := step_runNext hstep
      intro hwait
      rw [(h hwait).idle] at hbatch
      cases hbatch
  | finish clock =>
      obtain ⟨b, q, hbatch, -, -, rfl⟩ := step_finish hstep
      intro hwait
      rw [(h hwait).idle] at hbatch
      cases hbatch

theorem readsUnread_iff {s : TimerLoop} {i : Input} (h : s.waiting = true → Reported s) :
    ReadsUnread s i ↔ NotRearmed s i := by
  cases i with
  | handleRead now =>
      exact forall_congr' fun hdispatch => (h hdispatch.2).isSome_iff
  | addTimer timer when interval now => exact ⟨fun _ h => h.elim, fun _ h => h.elim⟩
  | cancel timer => exact ⟨fun _ h => h.elim, fun _ h => h.elim⟩
  | expire => exact ⟨fun _ h => h.elim, fun _ h => h.elim⟩
  | wait => exact ⟨fun _ h => h.elim, fun _ h => h.elim⟩
  | runNext => exact ⟨fun _ h => h.elim, fun _ h => h.elim⟩
  | finish clock => exact ⟨fun _ h => h.elim, fun _ h => h.elim⟩

/-- **The assertion of `readTimerfd`.** In a run, every dispatch of `handleRead`
finds an unread expiration if and only if none comes while the timerfd is armed
again. -/
theorem meets_readsUnread_iff (is : List Input) :
    Meets step ReadsUnread start is ↔ Meets step NotRearmed start is := by
  have hinv : ∀ (s : TimerLoop) (i : Input) (t : TimerLoop), (s.waiting = true → Reported s) →
      step s i = some t → t.waiting = true → Reported t :=
    fun _ _ _ h hstep => reported_step h hstep
  exact Lib.Machine.meets_congr hinv (fun _ _ h => readsUnread_iff h) (fun h => by cases h)

/-- A timer comes due together with a message, whose callback adds another one for an
earlier time. -/
def timeoutAndMessage : List Input :=
  [.addTimer 1 1000 .zero 0, .expire, .wait, .addTimer 2 500 .zero 1000, .handleRead 1000]

/-- The dispatch of `timeoutAndMessage` finds nothing to read. -/
theorem not_always_readsUnread : ¬ ∀ is : List Input, Meets step ReadsUnread start is :=
  fun h => absurd (h timeoutAndMessage) (by decide +kernel)

end TimerLoop

end Dummyload
