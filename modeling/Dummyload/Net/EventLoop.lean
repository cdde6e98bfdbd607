import Dummyload.Lib.Machine
import Dummyload.Net.TcpConnection

/-!
# Dummyload.Net.EventLoop

`EventLoop::loop` dispatching to the connections of one `TcpServer`
(`src/EventLoop.cpp`, `src/Channel.cpp`, `src/TcpServer.cpp`, `src/Acceptor.cpp`).

A connection is an object on the heap, numbered in the order of allocation. What
keeps it alive is counted (`owners`): its entry in `connections_` and the local
`shared_ptr`s of the functions on the stack; the application keeps none. The
stack holds the frames of the connections and, at its bottom, the
`Channel::handleEvent` that the loop is in, so that every single test of
`revents_` is a step of its own.
-/

namespace Dummyload

/-- A `TcpConnection` on the heap, with its `name_`. -/
structure ConnObject where
  name : Int
  conn : TcpConnection

/-- `TcpServer`: `connections_` maps names to objects. A name is the decimal text
of a number, which stands for it here. -/
structure TcpServer where
  nextId : Int := 0
  connections : Std.ExtTreeMap Int Nat := ∅

/-- A channel that `epoll` can report: the acceptor's, or a connection's. -/
inductive Target
  | acceptor
  | conn (c : Nat)
  deriving DecidableEq

/-- The tests that `Channel::handleEvent` makes, in order. -/
inductive Test
  | error | read | write
  deriving DecidableEq

/-- A function that has not returned. -/
inductive Call
  /-- `Channel::handleEvent` of a connection's channel, about to make this test. -/
  | handleEvent (c : Nat) (test : Test)
  /-- A function of a connection, in a callback of the application. -/
  | conn (c : Nat) (frame : Frame)
  deriving DecidableEq

/-- The local `shared_ptr`s of a connection's function: `newConnection` has one
besides the argument of the callback. -/
def Frame.pointers : Frame → Nat
  | .connectEstablished => 2
  | _ => 1

/-- The `shared_ptr`s to object `c` that a function on the stack holds. -/
def Call.pointers (c : Nat) : Call → Nat
  | .handleEvent _ _ => 0
  | .conn c' frame => if c' = c then frame.pointers else 0

structure EventLoop where
  server : TcpServer := {}
  writeComplete : Bool
  heap : List ConnObject := []
  /-- What is left of `activeChannels_`. -/
  active : List Target := []
  stack : List Call := []

namespace EventLoop

/-- How many `shared_ptr`s own object `c`. -/
def owners (s : EventLoop) (c : Nat) : Nat :=
  s.server.connections.toList.countP (fun entry => entry.2 = c) +
    (s.stack.map (·.pointers c)).sum

/-- May `epoll_wait` report this channel with this mask? A connection's must be
alive and registered; EPOLLERR and EPOLLHUP come unasked. -/
def reports (s : EventLoop) : Target × Events → Bool
  | (.acceptor, _) => true
  | (.conn c, revents) => 0 < s.owners c &&
      (s.heap[c]?.bind (·.conn.channel.registered)).any fun events =>
        revents ⊆ events ∪ {.EPOLLERR, .EPOLLHUP}

/-- `channel->setRevents(revents)`. -/
def setRevents (heap : List ConnObject) (e : Target × Events) : List ConnObject :=
  match e with
  | (.acceptor, _) => heap
  | (.conn c, revents) => heap.modify c fun obj =>
      { obj with conn := { obj.conn with channel := { obj.conn.channel with revents := revents } } }

/-- Object `c` and the stack after a function of its connection has run. -/
def after (s : EventLoop) (c : Nat) (out : TcpConnection × Option Frame) : EventLoop :=
  { s with
    heap := s.heap.modify c fun obj => { obj with conn := out.1 }
    stack := (out.2.map (Call.conn c)).toList ++ s.stack }

/-- `TcpServer::newConnection`. -/
def newConnection (s : EventLoop) : EventLoop :=
  let c := s.heap.length
  let name := toInt (s.server.nextId + 1)
  let out := TcpConnection.connectEstablished { writeComplete := s.writeComplete }
  { s with
    server := ⟨name, s.server.connections.insert name c⟩
    heap := s.heap ++ [⟨name, out.1⟩]
    stack := (out.2.map (Call.conn c)).toList ++ s.stack }

/-- `TcpServer::removeConnection`. -/
def removeConnection (s : EventLoop) (name : Int) : EventLoop :=
  { s with server := { s.server with connections := s.server.connections.erase name } }

/-- `Channel::handleEvent` from this test to the next, or into a callback. The
results are those of `::readv` and `::write`, should they be called. -/
def handleEvent (s : EventLoop) (c : Nat) (conn : TcpConnection) (readv : Buffer.Readv)
    (nwrote : Int) : Test → Option EventLoop
  -- a connection sets no `errorCallback_`
  | .error => some { s with stack := .handleEvent c .read :: s.stack }
  | .read =>
    let s := { s with stack := .handleEvent c .write :: s.stack }
    if (conn.channel.revents ∩ {.EPOLLIN, .EPOLLPRI, .EPOLLRDHUP}).Nonempty then
      (conn.handleRead readv).map (s.after c)
    else some s
  | .write =>
    if (conn.channel.revents ∩ {.EPOLLOUT}).Nonempty then (conn.handleWrite nwrote).map (s.after c)
    else some s

/-- Is the application in control, with a pointer to object `c` that a callback was
given? -/
def inCallback (s : EventLoop) (c : Nat) : Bool :=
  match s.stack with
  | .conn _ _ :: _ => s.stack.any fun call => match call with
    | .conn c' _ => c' = c
    | .handleEvent _ _ => false
  | _ => false

/-- A function of object `c`, called by the application. -/
def call (s : EventLoop) (c : Nat) (f : TcpConnection → TcpConnection.Outcome) : Option EventLoop :=
  if s.inCallback c then s.heap[c]?.bind fun obj => (f obj.conn).map (s.after c) else none

/-- One step of the loop, or of a callback that it runs. -/
inductive Input
  /-- `epoll_wait` reports these channels, each once and at most 16. -/
  | wait (ready : List (Target × Events))
  /-- The acceptor is next, and `::accept` may give it a connection. -/
  | accept (ok : Bool)
  /-- A connection's channel is next. -/
  | dispatch
  /-- `handleEvent` makes its next test. -/
  | test (readv : Buffer.Readv) (nwrote : Int)
  /-- A callback calls `send` of object `c`. -/
  | send (c : Nat) (message : Bytes) (nwrote : Int)
  /-- A callback calls `shutdown` of object `c`. -/
  | shutdown (c : Nat)
  /-- A callback takes bytes out of the input buffer of object `c`. -/
  | retrieve (c : Nat) (len : Nat)
  /-- The innermost callback returns. -/
  | ret

/-- Calls on a destroyed object have no defined result: they are `none`. -/
def step (s : EventLoop) : Input → Option EventLoop
  | .wait ready =>
    if s.stack = [] ∧ s.active = [] ∧ ready.length ≤ 16 ∧ (ready.map Prod.fst).Nodup ∧
        ready.all s.reports then
      some { s with heap := ready.foldl setRevents s.heap, active := ready.map Prod.fst }
    else none
  | .accept ok =>
    match s.stack, s.active with
    | [], .acceptor :: active =>
      let s := { s with active := active }
      some (if ok then s.newConnection else s)
    | _, _ => none
  | .dispatch =>
    match s.stack, s.active with
    | [], .conn c :: active => some { s with active := active, stack := [.handleEvent c .error] }
    | _, _ => none
  | .test readv nwrote =>
    match s.stack with
    | .handleEvent c test :: stack =>
      if 0 < s.owners c then
        s.heap[c]?.bind fun obj =>
          { s with stack := stack }.handleEvent c obj.conn readv nwrote test
      else none
    | _ => none
  | .send c message nwrote => s.call c fun conn => conn.send message nwrote
  | .shutdown c => s.call c fun conn => some (conn.shutdown, none)
  | .retrieve c len => s.call c fun conn =>
      (conn.inputBuffer.retrieve len).map fun buf => ({ conn with inputBuffer := buf }, none)
  | .ret =>
    match s.stack with
    | .conn c frame :: stack =>
      s.heap[c]?.bind fun obj => (obj.conn.resume frame).map fun conn =>
        let s := { s with stack := stack }.after c (conn, none)
        -- `closeCallback_` is `removeConnection`
        if frame = .handleClose then s.removeConnection obj.name else s
    | _ => none

/-- The loop before any event. -/
def start (writeComplete : Bool) : EventLoop := { writeComplete := writeComplete }

/-! ### What a step does -/

section Inversion

variable {s t : EventLoop} {c : Nat}

theorem step_wait {ready : List (Target × Events)} (h : step s (.wait ready) = some t) :
    (s.stack = [] ∧ s.active = [] ∧ ready.length ≤ 16 ∧ (ready.map Prod.fst).Nodup ∧
        ∀ e ∈ ready, s.reports e = true) ∧
      t = { s with heap := ready.foldl setRevents s.heap, active := ready.map Prod.fst } := by
  rw [step] at h
  split at h
  · rename_i hready
    obtain ⟨hstack, hactive, hlen, hnodup, hall⟩ := hready
    exact ⟨⟨hstack, hactive, hlen, hnodup, List.all_eq_true.mp hall⟩, (Option.some.inj h).symm⟩
  · cases h

theorem step_accept {ok : Bool} (h : step s (.accept ok) = some t) :
    s.stack = [] ∧ ∃ active, s.active = .acceptor :: active ∧
      t = if ok then newConnection { s with active := active }
        else { s with active := active } := by
  rw [step] at h
  split at h
  · rename_i active hstack hactive
    exact ⟨hstack, active, hactive, (Option.some.inj h).symm⟩
  · cases h

theorem step_dispatch (h : step s .dispatch = some t) :
    s.stack = [] ∧ ∃ c active, s.active = .conn c :: active ∧
      t = { s with active := active, stack := [.handleEvent c .error] } := by
  rw [step] at h
  split at h
  · rename_i c active hstack hactive
    exact ⟨hstack, c, active, hactive, (Option.some.inj h).symm⟩
  · cases h

theorem step_test {readv : Buffer.Readv} {nwrote : Int} (h : step s (.test readv nwrote) = some t) :
    ∃ c test below obj, s.stack = .handleEvent c test :: below ∧ 0 < s.owners c ∧
      s.heap[c]? = some obj ∧
      { s with stack := below }.handleEvent c obj.conn readv nwrote test = some t := by
  rw [step] at h
  split at h
  · rename_i c test below hstack
    split at h
    · rename_i hpos
      obtain ⟨obj, hobj, hevent⟩ := Option.bind_eq_some_iff.mp h
      exact ⟨c, test, below, obj, hstack, hpos, hobj, hevent⟩
    · cases h
  · cases h

theorem handleEvent_eq_some {conn : TcpConnection} {readv : Buffer.Readv} {nwrote : Int}
    {test : Test} (h : s.handleEvent c conn readv nwrote test = some t) :
    (∃ test', t = { s with stack := .handleEvent c test' :: s.stack }) ∨
      (∃ out, conn.handleRead readv = some out ∧
        t = { s with stack := .handleEvent c .write :: s.stack }.after c out) ∨
      t = s ∨ ∃ out, conn.handleWrite nwrote = some out ∧ t = s.after c out := by
  cases test with
  | error => exact Or.inl ⟨.read, (Option.some.inj h).symm⟩
  | read =>
      rw [handleEvent] at h
      split at h
      · obtain ⟨out, hout, rfl⟩ := Option.map_eq_some_iff.mp h
        exact Or.inr (Or.inl ⟨out, hout, rfl⟩)
      · exact Or.inl ⟨.write, (Option.some.inj h).symm⟩
  | write =>
      rw [handleEvent] at h
      split at h
      · obtain ⟨out, hout, rfl⟩ := Option.map_eq_some_iff.mp h
        exact Or.inr (Or.inr (Or.inr ⟨out, hout, rfl⟩))
      · exact Or.inr (Or.inr (Or.inl (Option.some.inj h).symm))

theorem call_eq_some {f : TcpConnection → TcpConnection.Outcome} (h : s.call c f = some t) :
    s.inCallback c = true ∧ ∃ obj out, s.heap[c]? = some obj ∧ f obj.conn = some out ∧
      t = s.after c out := by
  rw [call] at h
  split at h
  · rename_i hin
    obtain ⟨obj, hobj, h⟩ := Option.bind_eq_some_iff.mp h
    obtain ⟨out, hout, rfl⟩ := Option.map_eq_some_iff.mp h
    exact ⟨hin, obj, out, hobj, hout, rfl⟩
  · cases h

theorem step_ret (h : step s .ret = some t) :
    ∃ c frame below obj conn, s.stack = .conn c frame :: below ∧ s.heap[c]? = some obj ∧
      obj.conn.resume frame = some conn ∧
      ((frame = .handleClose ∧
          t = ({ s with stack := below }.after c (conn, none)).removeConnection obj.name) ∨
        (frame ≠ .handleClose ∧ t = { s with stack := below }.after c (conn, none))) := by
  rw [step] at h
  split at h
  · rename_i c frame below hstack
    obtain ⟨obj, hobj, h⟩ := Option.bind_eq_some_iff.mp h
    obtain ⟨conn, hresume, h⟩ := Option.map_eq_some_iff.mp h
    refine ⟨c, frame, below, obj, conn, hstack, hobj, hresume, ?_⟩
    split at h
    · rename_i hclose
      exact Or.inl ⟨hclose, h.symm⟩
    · rename_i hclose
      exact Or.inr ⟨hclose, h.symm⟩
  · cases h

end Inversion

end EventLoop

end Dummyload
