import Dummyload.Lib.Machine
import Dummyload.Net.Channel

/-!
# Dummyload.Net.Connector

`Connector` (`src/Connector.cpp`): a non-blocking `::connect`, and then the events on its
descriptor until the connector gives it to `newConnectionCallback_` or closes it.

`Channel::handleEvent` calls `errorCallback_` and `writeCallback_` for one event when the
mask has both of their bits, and each of them disposes of the descriptor. `ownedOnce_iff`
says that nothing else goes wrong.
-/

namespace Dummyload

/-- The `epoll_ctl` that `EPoller::updateChannel` makes for a channel. -/
def Channel.operation (channel : Channel) : Option EpollCtl :=
  if channel.state = .kNew ∨ channel.state = .kDeleted then some .EPOLL_CTL_ADD
  else if channel.state = .kAdded ∧ channel.isNoneEvent then some .EPOLL_CTL_DEL
  else if channel.state = .kAdded then some .EPOLL_CTL_MOD
  else none

/-- That call is all that changes what is registered. -/
theorem Channel.registered_eq_operation (channel : Channel) : channel.update.registered =
    match channel.operation with
    | some op => epollCtl op channel.events channel.registered
    | none => channel.registered := by
  rw [update, operation]
  split
  · rfl
  · split
    · rfl
    · split <;> rfl

def EINTR : Int := 4
def EISCONN : Int := 106
def EINPROGRESS : Int := 115

/-- What the connector does with the descriptor. -/
inductive Operation
  | epollCtl (op : EpollCtl)
  | getsockopt
  | close
  | newConnectionCallback

/-- Does this give the descriptor away? -/
def Operation.disposes : Operation → Bool
  | .close | .newConnectionCallback => true
  | .epollCtl _ | .getsockopt => false

/-- `Connector::StateE`. -/
inductive ConnectorState
  | kConnecting | kConnected | kDisconnecting | kDisconnected

structure Connector where
  state : ConnectorState := .kDisconnected
  /-- `*channel_`. No event is reported on the one that stands for a null pointer. -/
  channel : Channel := {}
  /-- Was `loop_->quit()` called? -/
  quit : Bool := false
  /-- What was done with the descriptor after `::connect`. -/
  operations : List Operation := []

namespace Connector

open Lib.Machine (run)

/-- One more operation. -/
def emit (s : Connector) (op : Operation) : Connector :=
  { s with operations := s.operations ++ [op] }

/-- `channel_->update()`. On a closed descriptor `epoll_ctl` fails, and nothing is registered. -/
def update (s : Connector) : Connector :=
  { s with
    channel :=
      if s.operations.any (· matches .close) then { s.channel.update with registered := none }
      else s.channel.update
    operations := s.operations ++ (s.channel.operation.map .epollCtl).toList }

def disableAll (s : Connector) : Connector :=
  update { s with channel := { s.channel with events := kNoneEvent } }

def enableWriting (s : Connector) : Connector :=
  update { s with channel := { s.channel with events := s.channel.events ∪ kWriteEvent } }

/-- `Socket::close(fd)`; `epoll` forgets the descriptor. -/
def close (s : Connector) : Connector :=
  { s.emit .close with channel := { s.channel with registered := none } }

def connecting (s : Connector) : Connector :=
  enableWriting { s with state := .kConnecting, channel := {} }

/-- After these results of `::connect` the connection is being made. -/
def goesOn (savedErrno : Int) : Bool :=
  savedErrno = 0 || savedErrno = EINPROGRESS || savedErrno = EINTR || savedErrno = EISCONN

/-- `start()`, should `::connect` leave `savedErrno`, 0 if it succeeds. -/
def start (savedErrno : Int) : Connector :=
  if goesOn savedErrno then connecting {} else { close {} with quit := true }

/-- `handleWrite()`, should `getSocketError` answer `err`. -/
def handleWrite (s : Connector) (err : Int) : Connector :=
  let s := s.disableAll.emit .getsockopt
  if err ≠ 0 then { s.close with state := .kDisconnected, quit := true }
  else { s.emit .newConnectionCallback with state := .kConnected }

/-- `handleError()`; it does not use what `getSocketError` answers. -/
def handleError (s : Connector) : Connector :=
  let s := s.disableAll.emit .getsockopt
  { s.close with state := .kDisconnected, quit := true }

/-- An event on the descriptor, with what `getSocketError` answers in `handleWrite`. -/
structure Event where
  revents : Events
  err : Int

/-- `Channel::handleEvent`; there is no `readCallback_`. -/
def handleEvent (s : Connector) (e : Event) : Connector :=
  let s := if .EPOLLERR ∈ e.revents then s.handleError else s
  if .EPOLLOUT ∈ e.revents then s.handleWrite e.err else s

/-- `epoll` reports requested bits, EPOLLERR and EPOLLHUP, on a registered descriptor. -/
def step (s : Connector) (e : Event) : Option Connector :=
  s.channel.registered.bind fun events =>
    if e.revents ⊆ events ∪ {.EPOLLERR, .EPOLLHUP} then some (s.handleEvent e) else none

/-! ### Who owns the descriptor -/

/-- The descriptor was closed once and never passed on, or passed on once and never closed, and
after that nothing was done with it. -/
def OwnedOnce (ops : List Operation) : Prop :=
  (ops.filter Operation.disposes).length = 1 ∧ ops.getLast?.any Operation.disposes = true

instance (ops : List Operation) : Decidable (OwnedOnce ops) := inferInstanceAs (Decidable (_ ∧ _))

/-- An event for which `handleEvent` calls a callback. -/
def Event.called (e : Event) : Bool := .EPOLLERR ∈ e.revents || .EPOLLOUT ∈ e.revents

/-- `::connect` fails at once; or the first event that calls a callback calls one only. -/
def DisposedOnce (savedErrno : Int) (es : List Event) : Prop :=
  goesOn savedErrno = false ∨ ∃ e, es.find? Event.called = some e ∧
    ¬ (.EPOLLERR ∈ e.revents ∧ .EPOLLOUT ∈ e.revents)

/-- Nothing is reported on a descriptor that is not registered. -/
theorem run_of_registered_eq_none {s t : Connector} {es : List Event}
    (h : s.channel.registered = none) (hrun : run step s es = some t) : es = [] ∧ t = s := by
  cases es with
  | nil => exact ⟨rfl, (Option.some.inj hrun).symm⟩
  | cons e es =>
      obtain ⟨u, hstep, -⟩ := Lib.Machine.run_cons_eq_some.mp hrun
      rw [step, h] at hstep
      cases hstep

/-- While it connects, the descriptor is registered for writing. -/
theorem registered_connecting : (connecting {}).channel.registered = some kWriteEvent := by
  decide

theorem registered_handleWrite {s : Connector} (h : s.disableAll.channel.registered = none)
    (err : Int) : (s.handleWrite err).channel.registered = none := by
  rw [handleWrite]
  dsimp only
  split
  · rfl
  · exact h

/-- A callback takes the descriptor out of `epoll`. -/
theorem registered_handleEvent {e : Event} (he : e.called = true) :
    ((connecting {}).handleEvent e).channel.registered = none := by
  rw [handleEvent]
  by_cases herr : .EPOLLERR ∈ e.revents
  · rw [if_pos herr]
    split
    · exact registered_handleWrite (by decide) e.err
    · rfl
  · have hout : .EPOLLOUT ∈ e.revents := by simpa [Event.called, herr] using he
    rw [if_neg herr, if_pos hout]
    exact registered_handleWrite (by decide) e.err

/-- An attempt waits for the first event that calls a callback, and ends with it. -/
theorem run_connecting {es : List Event} {s : Connector}
    (hrun : run step (connecting {}) es = some s) :
    (es.find? Event.called = none ∧ s = connecting {}) ∨
      ∃ e, es.find? Event.called = some e ∧ s = (connecting {}).handleEvent e := by
  induction es with
  | nil => exact Or.inl ⟨rfl, (Option.some.inj hrun).symm⟩
  | cons e es ih =>
      obtain ⟨t, hstep, hrun⟩ := Lib.Machine.run_cons_eq_some.mp hrun
      rw [step, registered_connecting, Option.bind_some] at hstep
      split at hstep
      · obtain rfl := Option.some.inj hstep
        cases hcalled : e.called with
        | true =>
            obtain ⟨rfl, rfl⟩ := run_of_registered_eq_none (registered_handleEvent hcalled) hrun
            exact Or.inr ⟨e, List.find?_cons_of_pos hcalled, rfl⟩
        | false =>
            have hidle : (connecting {}).handleEvent e = connecting {} := by
              rw [Event.called, Bool.or_eq_false_iff, decide_eq_false_iff_not,
                decide_eq_false_iff_not] at hcalled
              rw [handleEvent, if_neg hcalled.1]
              exact if_neg hcalled.2
            rw [hidle] at hrun
            rw [List.find?_cons_of_neg (by simp [hcalled])]
            exact ih hrun
      · cases hstep

/-- One callback disposes of the descriptor once, and both of them more than once. -/
theorem ownedOnce_handleEvent {e : Event} (he : e.called = true) :
    OwnedOnce ((connecting {}).handleEvent e).operations ↔
      ¬ (.EPOLLERR ∈ e.revents ∧ .EPOLLOUT ∈ e.revents) := by
  have hwrite : ∀ s : Connector, (s.handleWrite e.err).operations =
      s.disableAll.operations ++
        [.getsockopt, if e.err ≠ 0 then .close else .newConnectionCallback] := by
    intro s
    rw [handleWrite]
    dsimp only
    split <;> exact List.append_assoc _ _ _
  rw [handleEvent]
  by_cases herr : .EPOLLERR ∈ e.revents
  · rw [if_pos herr]
    by_cases hout : .EPOLLOUT ∈ e.revents
    · -- `handleWrite` finds the descriptor closed, and disposes of it again
      simp only [herr, hout, and_self, not_true_eq_false, iff_false, if_true]
      rw [hwrite]
      split <;> decide
    · simp only [herr, hout, and_false, not_false_eq_true, iff_true, if_false]
      decide
  · have hout : .EPOLLOUT ∈ e.revents := by simpa [Event.called, herr] using he
    simp only [herr, hout, false_and, not_false_eq_true, iff_true, if_false, if_true]
    rw [hwrite]
    split <;> decide

/-- The connector owns its descriptor exactly once in the attempts in which the first event
that calls a callback calls only one. -/
theorem ownedOnce_iff (savedErrno : Int) (es : List Event) (s : Connector)
    (hrun : run step (start savedErrno) es = some s) :
    OwnedOnce s.operations ↔ DisposedOnce savedErrno es := by
  rw [start] at hrun
  cases hgoes : goesOn savedErrno with
  | false =>
      rw [hgoes, if_neg (by decide)] at hrun
      obtain ⟨-, rfl⟩ := run_of_registered_eq_none rfl hrun
      exact ⟨fun _ => Or.inl hgoes, fun _ => by decide⟩
  | true =>
      rw [hgoes, if_pos rfl] at hrun
      have hor : DisposedOnce savedErrno es ↔ ∃ e, es.find? Event.called = some e ∧
          ¬ (.EPOLLERR ∈ e.revents ∧ .EPOLLOUT ∈ e.revents) :=
        or_iff_right (by rw [hgoes]; decide)
      rw [hor]
      rcases run_connecting hrun with ⟨hnone, rfl⟩ | ⟨e, he, rfl⟩
      · rw [hnone]
        exact ⟨fun h => absurd h (by decide), fun h => by
          obtain ⟨e, he, -⟩ := h
          cases he⟩
      · rw [ownedOnce_handleEvent (List.find?_some he), he]
        simp

/-- The connection is refused: `epoll` reports that with all three bits. -/
def refused : List Event := [⟨{.EPOLLOUT, .EPOLLERR, .EPOLLHUP}, 9⟩]

/-- The connection is made. -/
def accepted : List Event := [⟨{.EPOLLHUP}, 0⟩, ⟨{.EPOLLOUT}, 0⟩]

theorem ownedOnce_iff_accepted : ∃ s, run step (start EINPROGRESS) accepted = some s ∧
    OwnedOnce s.operations := by
  have hsome : (run step (start EINPROGRESS) accepted).isSome = true := by decide +kernel
  obtain ⟨s, hs⟩ := Option.isSome_iff_exists.mp hsome
  have hone : DisposedOnce EINPROGRESS accepted := Or.inr ⟨⟨{.EPOLLOUT}, 0⟩, rfl, by decide⟩
  exact ⟨s, hs, (ownedOnce_iff EINPROGRESS accepted s hs).mpr hone⟩

/-- A refused connection is closed twice. -/
theorem not_always_ownedOnce :
    ¬ ∀ (savedErrno : Int) (es : List Event) (s : Connector),
      run step (start savedErrno) es = some s → OwnedOnce s.operations := by
  intro h
  have hrun : (run step (start EINPROGRESS) refused).map
      (fun s => decide (OwnedOnce s.operations)) = some false := by decide +kernel
  obtain ⟨s, hs, hnot⟩ := Option.map_eq_some_iff.mp hrun
  exact absurd (h EINPROGRESS refused s hs) (of_decide_eq_false hnot)

end Connector

end Dummyload
