import Dummyload.Net.Lifetime

/-!
# Dummyload.Net.Application

The `EventLoop` of a `TcpServer` with an application that keeps `shared_ptr`s to
connections. Such a pointer is one more owner; through it the application may call
`send` and `shutdown` from the callback of another connection, or of a timer, and
after the connection was closed as well.

A connection that nobody owns is gone. `handleEvent` still makes its write test on
the channel of a connection that it has just closed (`not_owned_of_closed`); when the
connection is gone that test has no defined result, and a run goes on from there as if
it had come out false.
-/

namespace Dummyload

structure Application where
  loop : EventLoop
  /-- The objects to which the application keeps a `shared_ptr`. -/
  kept : Finset Nat := ∅

namespace Application

/-- Does any `shared_ptr` own object `c`? -/
def owned (s : Application) (c : Nat) : Bool := 0 < s.loop.owners c || c ∈ s.kept

/-- May `epoll_wait` report this channel with this mask? -/
def reports (s : Application) : Target × Events → Bool
  | (.acceptor, _) => true
  | (.conn c, revents) => s.owned c &&
      (s.loop.heap[c]?.bind (·.conn.channel.registered)).any fun events =>
        revents ⊆ events ∪ {.EPOLLERR, .EPOLLHUP}

/-- Is the application in control? With nothing on the stack, it is in the callback of a
timer. -/
def inControl (s : Application) : Bool :=
  match s.loop.stack with
  | [] => true
  | .conn _ _ :: _ => true
  | .handleEvent _ _ :: _ => false

/-- Is the application in control, with a pointer to object `c` that it kept or that a
callback was given? -/
def holds (s : Application) (c : Nat) : Bool :=
  s.inControl && (c ∈ s.kept || s.loop.inCallback c)

/-- The application, with the loop in this state. -/
def withLoop (s : Application) (loop : EventLoop) : Application := { s with loop := loop }

/-- A function of object `c`, called by the application. -/
def call (s : Application) (c : Nat) (f : TcpConnection → TcpConnection.Outcome) :
    Option Application :=
  if s.holds c then
    s.loop.heap[c]?.bind fun obj => (f obj.conn).map fun out => s.withLoop (s.loop.after c out)
  else none

/-- One step of the loop, or of a callback that it runs. -/
inductive Input
  /-- `epoll_wait` reports these channels, each once and at most 16. -/
  | wait (ready : List (Target × Events))
  /-- The acceptor is next, and `::accept` may give it a connection. -/
  | accept (ok : Bool)
  /-- A connection's channel is next. -/
  | dispatch
  /-- `handleEvent` makes its next test. -/
  | test (readv : Buffer.Readv) (nwrote : Int)
  /-- The application calls `send` of object `c`. -/
  | send (c : Nat) (message : Bytes) (nwrote : Int)
  /-- The application calls `shutdown` of object `c`. -/
  | shutdown (c : Nat)
  /-- The application takes bytes out of the input buffer of object `c`. -/
  | retrieve (c : Nat) (len : Nat)
  /-- The application copies a pointer to object `c`. -/
  | keep (c : Nat)
  /-- The application gives up its pointer to object `c`. -/
  | drop (c : Nat)
  /-- The innermost callback returns. -/
  | ret

def step (s : Application) : Input → Option Application
  | .wait ready =>
    if s.loop.stack = [] ∧ s.loop.active = [] ∧ ready.length ≤ 16 ∧ (ready.map Prod.fst).Nodup ∧
        ready.all s.reports then
      some (s.withLoop { s.loop with
        heap := ready.foldl EventLoop.setRevents s.loop.heap, active := ready.map Prod.fst })
    else none
  | .accept ok => (s.loop.step (.accept ok)).map s.withLoop
  | .dispatch => (s.loop.step .dispatch).map s.withLoop
  | .test readv nwrote =>
    match s.loop.stack with
    | .handleEvent c test :: stack =>
      if s.owned c then
        s.loop.heap[c]?.bind fun obj =>
          ({ s.loop with stack := stack }.handleEvent c obj.conn readv nwrote test).map s.withLoop
      -- the channel is gone
      else some (s.withLoop { s.loop with stack := stack })
    | _ => none
  | .send c message nwrote => s.call c fun conn => conn.send message nwrote
  | .shutdown c => s.call c fun conn => some (conn.shutdown, none)
  | .retrieve c len => s.call c fun conn =>
      (conn.inputBuffer.retrieve len).map fun buf => ({ conn with inputBuffer := buf }, none)
  | .keep c => if s.holds c then some { s with kept := insert c s.kept } else none
  | .drop c => if s.inControl then some { s with kept := s.kept.erase c } else none
  | .ret => (s.loop.step .ret).map s.withLoop

/-- The application before any event. -/
def start (writeComplete : Bool) : Application := ⟨.start writeComplete, ∅⟩

/-! ### What a step does -/

section Inversion

variable {s t : Application} {c : Nat}

theorem step_wait {ready : List (Target × Events)} (h : step s (.wait ready) = some t) :
    (s.loop.stack = [] ∧ s.loop.active = [] ∧ (ready.map Prod.fst).Nodup ∧
        ∀ e ∈ ready, s.reports e = true) ∧
      t.loop = { s.loop with
        heap := ready.foldl EventLoop.setRevents s.loop.heap, active := ready.map Prod.fst } := by
  rw [step] at h
  split at h
  · rename_i hready
    obtain ⟨hstack, hactive, -, hnodup, hall⟩ := hready
    obtain rfl := Option.some.inj h
    exact ⟨⟨hstack, hactive, hnodup, List.all_eq_true.mp hall⟩, rfl⟩
  · cases h

theorem step_test {readv : Buffer.Readv} {nwrote : Int} (h : step s (.test readv nwrote) = some t) :
    ∃ c test below, s.loop.stack = .handleEvent c test :: below ∧
      ((∃ obj, s.loop.heap[c]? = some obj ∧
          { s.loop with stack := below }.handleEvent c obj.conn readv nwrote test = some t.loop) ∨
        t.loop = { s.loop with stack := below }) := by
  rw [step] at h
  split at h
  · rename_i c test below hstack
    refine ⟨c, test, below, hstack, ?_⟩
    split at h
    · obtain ⟨obj, hobj, h⟩ := Option.bind_eq_some_iff.mp h
      obtain ⟨loop, hevent, rfl⟩ := Option.map_eq_some_iff.mp h
      exact Or.inl ⟨obj, hobj, hevent⟩
    · obtain rfl := Option.some.inj h
      exact Or.inr rfl
  · cases h

theorem call_eq_some {f : TcpConnection → TcpConnection.Outcome} (h : s.call c f = some t) :
    ∃ obj out, s.loop.heap[c]? = some obj ∧ f obj.conn = some out ∧
      t.loop = s.loop.after c out := by
  rw [call] at h
  split at h
  · obtain ⟨obj, hobj, h⟩ := Option.bind_eq_some_iff.mp h
    obtain ⟨out, hout, rfl⟩ := Option.map_eq_some_iff.mp h
    exact ⟨obj, out, hobj, hout, rfl⟩
  · cases h

theorem step_keep (h : step s (.keep c) = some t) : t.loop = s.loop := by
  rw [step] at h
  split at h
  · obtain rfl := Option.some.inj h
    rfl
  · cases h

theorem step_drop (h : step s (.drop c) = some t) : t.loop = s.loop := by
  rw [step] at h
  split at h
  · obtain rfl := Option.some.inj h
    rfl
  · cases h

/-- The steps that do not depend on what is kept. -/
theorem step_loop {i : EventLoop.Input} (h : (s.loop.step i).map s.withLoop = some t) :
    s.loop.step i = some t.loop := by
  obtain ⟨loop, hloop, rfl⟩ := Option.map_eq_some_iff.mp h
  exact hloop

end Inversion

end Application

end Dummyload
