import Mathlib

/-!
# Dummyload.Net.Channel

`Channel` (`src/Channel.h`) and the part of `EPoller` (`src/EPoller.cpp`) that
registers it: which events a channel asks for, the state `EPoller` keeps in it,
and what `epoll` has registered for its descriptor as a result.
-/

namespace Dummyload

/-- The event bits of `epoll`. -/
inductive Epoll
  | EPOLLIN | EPOLLPRI | EPOLLOUT | EPOLLERR | EPOLLHUP | EPOLLRDHUP
  deriving DecidableEq, Repr

/-- An event mask. -/
abbrev Events := Finset Epoll

def kNoneEvent : Events := ∅
def kReadEvent : Events := {.EPOLLIN, .EPOLLPRI}
def kWriteEvent : Events := {.EPOLLOUT}

/-- `Channel::State`. -/
inductive Channel.State
  | kNew | kAdded | kDeleted
  deriving DecidableEq, Repr

/-- A channel, with what `epoll` has registered for its descriptor. -/
structure Channel where
  events : Events := kNoneEvent
  revents : Events := kNoneEvent
  state : Channel.State := .kNew
  registered : Option Events := none
  deriving DecidableEq

inductive EpollCtl
  | EPOLL_CTL_ADD | EPOLL_CTL_MOD | EPOLL_CTL_DEL

/-- `epoll_ctl` on one descriptor. It fails, and changes nothing, when ADD finds
the descriptor registered, or MOD or DEL find it not registered; the caller does
not look at the result. -/
def epollCtl (op : EpollCtl) (ev : Events) (registered : Option Events) : Option Events :=
  match op, registered with
  | .EPOLL_CTL_ADD, none => some ev
  | .EPOLL_CTL_ADD, some old => some old
  | .EPOLL_CTL_MOD, some _ => some ev
  | .EPOLL_CTL_MOD, none => none
  | .EPOLL_CTL_DEL, _ => none

namespace Channel

def isNoneEvent (channel : Channel) : Bool := channel.events = kNoneEvent

/-- `EPoller::update`. -/
def pollerUpdate (operation : EpollCtl) (channel : Channel) : Channel :=
  { channel with registered := epollCtl operation channel.events channel.registered }

/-- `Channel::update`, that is `EPoller::updateChannel`. -/
def update (channel : Channel) : Channel :=
  if channel.state = .kNew ∨ channel.state = .kDeleted then
    pollerUpdate .EPOLL_CTL_ADD { channel with state := .kAdded }
  else if channel.state = .kAdded ∧ channel.isNoneEvent then
    pollerUpdate .EPOLL_CTL_DEL { channel with state := .kDeleted }
  else if channel.state = .kAdded then pollerUpdate .EPOLL_CTL_MOD channel
  else channel

def enableReading (channel : Channel) : Channel :=
  update { channel with events := channel.events ∪ kReadEvent }

def disableReading (channel : Channel) : Channel :=
  update { channel with events := channel.events \ kReadEvent }

def enableWriting (channel : Channel) : Channel :=
  update { channel with events := channel.events ∪ kWriteEvent }

def disableWriting (channel : Channel) : Channel :=
  update { channel with events := channel.events \ kWriteEvent }

def disableAll (channel : Channel) : Channel := update { channel with events := kNoneEvent }

def isWriting (channel : Channel) : Bool := (channel.events ∩ kWriteEvent).Nonempty

def isReading (channel : Channel) : Bool := (channel.events ∩ kReadEvent).Nonempty

/-! ### Interest -/

@[simp] theorem events_update (channel : Channel) : channel.update.events = channel.events := by
  rw [update]
  split
  · rfl
  · split
    · rfl
    · split <;> rfl

@[simp] theorem revents_update (channel : Channel) : channel.update.revents = channel.revents := by
  rw [update]
  split
  · rfl
  · split
    · rfl
    · split <;> rfl

@[simp] theorem isWriting_enableReading (channel : Channel) :
    channel.enableReading.isWriting = channel.isWriting := by
  have hread : kReadEvent ∩ kWriteEvent = ∅ := by decide
  rw [isWriting, isWriting, enableReading, events_update, Finset.union_inter_distrib_right, hread,
    Finset.union_empty]

@[simp] theorem isWriting_enableWriting (channel : Channel) :
    channel.enableWriting.isWriting = true := by
  rw [isWriting, enableWriting, events_update, Finset.union_inter_cancel_right]
  decide

@[simp] theorem isWriting_disableWriting (channel : Channel) :
    channel.disableWriting.isWriting = false := by
  rw [isWriting, disableWriting, events_update, Finset.sdiff_inter_self]
  decide

@[simp] theorem isWriting_disableAll (channel : Channel) :
    channel.disableAll.isWriting = false := by
  rw [isWriting, disableAll, events_update, kNoneEvent, Finset.empty_inter]
  decide

/-! ### Registration -/

/-- `epoll` keeps what it had registered, or takes what the channel asks for, or nothing. -/
theorem registered_update (channel : Channel) : channel.update.registered = none ∨
    channel.update.registered = some channel.events ∨
    channel.update.registered = channel.registered := by
  rw [update]
  split
  · rw [pollerUpdate]
    cases channel.registered with
    | none => exact Or.inr (Or.inl rfl)
    | some old => exact Or.inr (Or.inr rfl)
  · split
    · exact Or.inl rfl
    · split
      · rw [pollerUpdate]
        cases hold : channel.registered with
        | none => exact Or.inl rfl
        | some old => exact Or.inr (Or.inl rfl)
      · exact Or.inr (Or.inr rfl)

/-- A channel that reads is registered, for what it asks for. -/
structure Reads (channel : Channel) : Prop where
  state : channel.state = .kAdded
  reading : kReadEvent ⊆ channel.events

theorem Reads.update {channel : Channel} {events : Events} (h : channel.state = .kAdded)
    (hread : kReadEvent ⊆ events) :
    Reads (Channel.update { channel with events := events }) := by
  have hnone : ¬ ({ channel with events := events } : Channel).isNoneEvent := by
    simp only [isNoneEvent, decide_eq_true_eq]
    intro heq
    rw [heq, kNoneEvent, Finset.subset_empty] at hread
    exact absurd hread (by decide)
  rw [Channel.update, if_neg (by simp [h]), if_neg (by simp [hnone]), if_pos h]
  exact ⟨h, hread⟩

theorem Reads.enableWriting {channel : Channel} (h : Reads channel) : Reads channel.enableWriting :=
  .update h.state (h.reading.trans Finset.subset_union_left)

theorem Reads.disableWriting {channel : Channel} (h : Reads channel) :
    Reads channel.disableWriting := by
  refine .update h.state (Finset.subset_sdiff.mpr ⟨h.reading, ?_⟩)
  decide

/-- Such a channel is registered no more once it asks for nothing. -/
theorem Reads.disableAll {channel : Channel} (h : Reads channel) :
    channel.disableAll.registered = none := by
  rw [Channel.disableAll, Channel.update, if_neg (by simp [h.state]),
    if_pos (by simp [h.state, isNoneEvent])]
  rfl

/-- A channel that does not read, and is not registered for reading either. -/
structure WritesOnly (channel : Channel) : Prop where
  events : channel.events ⊆ kWriteEvent
  registered : ∀ events, channel.registered = some events → events ⊆ kWriteEvent

theorem WritesOnly.update {channel : Channel} {events : Events} (h : channel.WritesOnly)
    (hevents : events ⊆ kWriteEvent) :
    WritesOnly (Channel.update { channel with events := events }) := by
  refine ⟨by rwa [events_update], fun registered hregistered => ?_⟩
  rcases registered_update { channel with events := events } with heq | heq | heq
  · rw [heq] at hregistered
    cases hregistered
  · rw [heq] at hregistered
    obtain rfl := Option.some.inj hregistered
    exact hevents
  · rw [heq] at hregistered
    exact h.registered registered hregistered

theorem WritesOnly.enableWriting {channel : Channel} (h : channel.WritesOnly) :
    channel.enableWriting.WritesOnly :=
  h.update (Finset.union_subset h.events (Finset.Subset.refl _))

theorem WritesOnly.disableWriting {channel : Channel} (h : channel.WritesOnly) :
    channel.disableWriting.WritesOnly :=
  h.update (Finset.sdiff_subset.trans h.events)

theorem Reads.writesOnly_disableAll {channel : Channel} (h : Reads channel) :
    channel.disableAll.WritesOnly where
  events := by
    rw [Channel.disableAll, events_update]
    exact Finset.empty_subset _
  registered events hregistered := by
    rw [h.disableAll] at hregistered
    cases hregistered

end Channel

end Dummyload
