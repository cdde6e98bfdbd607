import Dummyload.Buffer
import Dummyload.Net.Channel

/-!
# Dummyload.Net.TcpConnection

`TcpConnection` (`src/TcpConnection.cpp`). Its functions invoke callbacks in
their middle, and a callback may call `send` and `shutdown` again, so each
function runs up to its first callback and leaves the `Frame` of what remains to
be done; `resume` does the rest once the callback has returned.

`Session` is a connection with the stack of its frames, driven one `Input` at a
time: what the application calls, with what `::write` or `::readv` answers, the
events the loop dispatches, and the return of the innermost callback. Every order
of these is a run.
-/

namespace Dummyload

/-- `TcpConnection::StateE`. -/
inductive StateE
  | kConnecting | kConnected | kDisconnecting | kDisconnected
  deriving DecidableEq, Repr

/-- What a connection does to its socket, and the callbacks it invokes. -/
inductive Effect
  | write (count : Nat) (result : Int)
  | shutdownWrite
  | connectionCallback
  | messageCallback
  | writeCompleteCallback
  | closeCallback
  deriving DecidableEq, Repr

/-- A function of the connection whose callback has not returned yet. -/
inductive Frame
  | connectEstablished
  | handleRead
  | handleWrite
  | handleClose
  /-- `send(data, len)` after its `::write` returned `nwrote`. -/
  | send (data : Bytes) (len nwrote : Int)
  deriving DecidableEq

structure TcpConnection where
  state : StateE := .kConnecting
  channel : Channel := {}
  /-- Is `writeCompleteCallback_` set? -/
  writeComplete : Bool
  inputBuffer : Buffer := Buffer.new kInitialSize
  outputBuffer : Buffer := Buffer.new kInitialSize
  /-- The bytes that the kernel has accepted, in order. -/
  written : Bytes := []
  effects : List Effect := []

namespace TcpConnection

/-- A function that ran to its end (`none`) or into a callback. A failed assertion,
a read outside of the message and a result that `::write` never gives are `none`
on the outside. -/
abbrev Outcome := Option (TcpConnection × Option Frame)

/-- One more effect. -/
def emit (conn : TcpConnection) (e : Effect) : TcpConnection :=
  { conn with effects := conn.effects ++ [e] }

/-- `::write(fd, data, count)` answering `result`: -1, or how many of the bytes
the kernel accepted. -/
def write (conn : TcpConnection) (data : Bytes) (count : Nat) (result : Int) :
    Option TcpConnection :=
  if -1 ≤ result ∧ result ≤ count ∧ result ≤ data.length then
    some { conn.emit (.write count result) with written := conn.written ++ data.take result.toNat }
  else none

/-- The end of `send`: what was not written goes to the output buffer. -/
def sendRest (conn : TcpConnection) (data : Bytes) (len nwrote : Int) : Option TcpConnection :=
  -- both sides are converted to `size_t`: -1 is its largest value
  if toSize nwrote < toSize len then
    let rest := data.drop nwrote.toNat
    if toSize (len - nwrote) ≤ rest.length then
      (conn.outputBuffer.append (rest.take (toSize (len - nwrote)))).map fun buf =>
        let conn := { conn with outputBuffer := buf }
        if ¬ conn.channel.isWriting then { conn with channel := conn.channel.enableWriting }
        else conn
    else none
  else some conn

/-- `send(message)`, should `::write` answer `result`. -/
def send (conn : TcpConnection) (message : Bytes) (result : Int) : Outcome :=
  let len := toInt message.length
  if ¬ conn.channel.isWriting ∧ conn.outputBuffer.readableBytes = 0 then
    (conn.write message (toSize len) result).bind fun conn =>
      let nwrote := result
      if nwrote ≥ 0 ∧ toSize (len - nwrote) = 0 ∧ conn.writeComplete then
        some (conn.emit .writeCompleteCallback, some (.send message len nwrote))
      else (conn.sendRest message len nwrote).map (·, none)
  else (conn.sendRest message len 0).map (·, none)

/-- `socket_->shutdownWrite()`; it aborts the process when `::shutdown` fails. -/
def shutdownWrite (conn : TcpConnection) : TcpConnection := conn.emit .shutdownWrite

/-- The end of `handleWrite`, after `writeCompleteCallback_`. -/
def handleWriteRest (conn : TcpConnection) : TcpConnection :=
  if conn.state = .kDisconnecting then conn.shutdownWrite else conn

/-- `handleWrite()`, should `::write` answer `result`. -/
def handleWrite (conn : TcpConnection) (result : Int) : Outcome :=
  if conn.channel.isWriting then
    (conn.write conn.outputBuffer.readable conn.outputBuffer.readableBytes result).bind fun conn =>
      if result > 0 then
        (conn.outputBuffer.retrieve result.toNat).map fun buf =>
          let conn := { conn with outputBuffer := buf }
          if buf.readableBytes = 0 then
            let conn := { conn with channel := conn.channel.disableWriting }
            if conn.writeComplete then (conn.emit .writeCompleteCallback, some .handleWrite)
            else (conn.handleWriteRest, none)
          else (conn, none)
      else some (conn, none)
  else some (conn, none)

def shutdown (conn : TcpConnection) : TcpConnection :=
  if conn.state = .kConnected then
    let conn := { conn with state := .kDisconnecting }
    if ¬ conn.channel.isWriting then conn.shutdownWrite else conn
  else conn

/-- `handleClose()` up to `connectionCallback_`. -/
def handleClose (conn : TcpConnection) : TcpConnection × Option Frame :=
  let conn := { conn with state := .kDisconnected, channel := conn.channel.disableAll }
  (conn.emit .connectionCallback, some .handleClose)

/-- `handleRead()` on a read with this result. -/
def handleRead (conn : TcpConnection) (r : Buffer.Readv) : Outcome :=
  (conn.inputBuffer.readFd 0 r).map fun (n, _, buf) =>
    let conn := { conn with inputBuffer := buf }
    if n > 0 then (conn.emit .messageCallback, some .handleRead)
    else if n = 0 then conn.handleClose
    else (conn, none)

def connectEstablished (conn : TcpConnection) : TcpConnection × Option Frame :=
  let conn := { conn with state := .kConnected, channel := conn.channel.enableReading }
  (conn.emit .connectionCallback, some .connectEstablished)

/-- What is left to do when the callback of a frame has returned. -/
def resume (conn : TcpConnection) : Frame → Option TcpConnection
  | .connectEstablished => some conn
  | .handleRead => some conn
  | .handleWrite => some conn.handleWriteRest
  | .handleClose => some (conn.emit .closeCallback)
  | .send data len nwrote => conn.sendRest data len nwrote

/-! ### What the functions do -/

/-- The connection after its `::write` has answered `result`. -/
def wrote (conn : TcpConnection) (data : Bytes) (count : Nat) (result : Int) : TcpConnection :=
  { conn.emit (.write count result) with written := conn.written ++ data.take result.toNat }

/-- The connection with this output buffer, and with write interest. -/
def keep (conn : TcpConnection) (buf : Buffer) : TcpConnection :=
  { conn with
    outputBuffer := buf
    channel := if conn.channel.isWriting then conn.channel else conn.channel.enableWriting }

/-- The connection with its output buffer drained, and without write interest. -/
def drain (conn : TcpConnection) (buf : Buffer) : TcpConnection :=
  { conn with outputBuffer := buf, channel := conn.channel.disableWriting }

/-- How `send` ends. -/
inductive SendEnds (conn : TcpConnection) (len nwrote : Int) : TcpConnection → Prop
  | done (hall : ¬ toSize nwrote < toSize len) : SendEnds conn len nwrote conn
  | kept {buf : Buffer} {rest : Bytes} (hpart : toSize nwrote < toSize len) (hrest : rest ≠ [])
      (hbuf : buf.readable = conn.outputBuffer.readable ++ rest) :
      SendEnds conn len nwrote (conn.keep buf)

/-- What `send` does: the kernel takes all of the message and `writeCompleteCallback_` is
invoked; or the message goes to the kernel first; or to the output buffer directly. -/
inductive Sends (conn : TcpConnection) (message : Bytes) (result : Int) :
    TcpConnection → Option Frame → Prop
  | complete (hwriting : conn.channel.isWriting = false) (hempty : conn.outputBuffer.readable = [])
      (hall : ¬ toSize result < toSize (toInt message.length)) :
      Sends conn message result
        ((conn.wrote message (toSize (toInt message.length)) result).emit .writeCompleteCallback)
        (some (.send message (toInt message.length) result))
  | direct {conn' : TcpConnection} (hwriting : conn.channel.isWriting = false)
      (hempty : conn.outputBuffer.readable = [])
      (hend : SendEnds (conn.wrote message (toSize (toInt message.length)) result)
        (toInt message.length) result conn') : Sends conn message result conn' none
  | queued {conn' : TcpConnection}
      (hbusy : conn.channel.isWriting = true ∨ conn.outputBuffer.readable ≠ [])
      (hend : SendEnds conn (toInt message.length) 0 conn') : Sends conn message result conn' none

/-- What `handleWrite` does: it finds no write interest; or the kernel takes nothing, a part
or all of the output buffer, and then `writeCompleteCallback_` is invoked if it is set. -/
inductive HandlesWrite (conn : TcpConnection) (result : Int) : TcpConnection → Option Frame → Prop
  | idle (hwriting : conn.channel.isWriting = false) : HandlesWrite conn result conn none
  | refused (hwriting : conn.channel.isWriting = true) :
      HandlesWrite conn result
        (conn.wrote conn.outputBuffer.readable conn.outputBuffer.readableBytes result) none
  | part {buf : Buffer} (hwriting : conn.channel.isWriting = true) (hbuf : buf.readable ≠ []) :
      HandlesWrite conn result
        { conn.wrote conn.outputBuffer.readable conn.outputBuffer.readableBytes result with
          outputBuffer := buf } none
  | complete {buf : Buffer} (hwriting : conn.channel.isWriting = true) (hbuf : buf.readable = []) :
      HandlesWrite conn result
        (((conn.wrote conn.outputBuffer.readable conn.outputBuffer.readableBytes result).drain
          buf).emit .writeCompleteCallback) (some .handleWrite)
  | drained {buf : Buffer} (hwriting : conn.channel.isWriting = true) (hbuf : buf.readable = []) :
      HandlesWrite conn result
        ((conn.wrote conn.outputBuffer.readable conn.outputBuffer.readableBytes result).drain
          buf).handleWriteRest none

section Inversion

variable {conn conn' : TcpConnection} {data message : Bytes} {result : Int} {frame : Option Frame}

theorem write_cases {count : Nat} (h : conn.write data count result = some conn') :
    (-1 ≤ result ∧ result ≤ count ∧ result ≤ data.length) ∧
      conn' = conn.wrote data count result := by
  rw [write] at h
  split at h
  · rename_i hresult
    exact ⟨hresult, (Option.some.inj h).symm⟩
  · cases h

theorem sendRest_cases {len nwrote : Int} (h : conn.sendRest data len nwrote = some conn') :
    SendEnds conn len nwrote conn' := by
  rw [sendRest] at h
  split at h
  · rename_i hlt
    dsimp only at h
    split at h
    · rename_i hle
      obtain ⟨buf, hbuf, hread⟩ := conn.outputBuffer.append_eq_some
        ((data.drop nwrote.toNat).take (toSize (len - nwrote)))
      have hrest : (data.drop nwrote.toNat).take (toSize (len - nwrote)) ≠ [] := by
        rw [Ne, ← List.length_eq_zero_iff, List.length_take, min_eq_left hle]
        simp only [toSize] at hlt ⊢
        omega
      rw [hbuf, Option.map_some] at h
      obtain rfl := Option.some.inj h
      have hkept : conn.keep buf = if ¬ conn.channel.isWriting then
          { conn with outputBuffer := buf, channel := conn.channel.enableWriting }
          else { conn with outputBuffer := buf } := by
        rw [keep]
        split <;> rfl
      rw [← hkept]
      exact .kept hlt hrest hread
    · cases h
  · rename_i hnot
    obtain rfl := Option.some.inj h
    exact .done hnot

theorem send_cases (h : conn.send message result = some (conn', frame)) :
    Sends conn message result conn' frame := by
  rw [send] at h
  dsimp only at h
  split at h
  · rename_i hidle
    obtain ⟨hwriting, hempty⟩ := hidle
    rw [Bool.not_eq_true] at hwriting
    rw [Buffer.readableBytes_eq_zero] at hempty
    obtain ⟨conn₁, hwrite, h⟩ := Option.bind_eq_some_iff.mp h
    obtain ⟨-, rfl⟩ := write_cases hwrite
    split at h
    · rename_i hnothing
      obtain ⟨rfl, rfl⟩ := Prod.mk.inj (Option.some.inj h)
      refine .complete hwriting hempty ?_
      -- nothing remains, so `nwrote` and `len` are the same `size_t`
      have hzero := hnothing.2.1
      simp only [toSize] at hzero ⊢
      omega
    · obtain ⟨conn₂, hrest, h⟩ := Option.map_eq_some_iff.mp h
      obtain ⟨rfl, rfl⟩ := Prod.mk.inj h
      exact .direct hwriting hempty (sendRest_cases hrest)
  · rename_i hbusy
    obtain ⟨conn₁, hrest, h⟩ := Option.map_eq_some_iff.mp h
    obtain ⟨rfl, rfl⟩ := Prod.mk.inj h
    refine .queued ?_ (sendRest_cases hrest)
    rw [not_and_or, not_not, Buffer.readableBytes_eq_zero] at hbusy
    exact hbusy

theorem handleWrite_cases (h : conn.handleWrite result = some (conn', frame)) :
    HandlesWrite conn result conn' frame := by
  rw [handleWrite] at h
  split at h
  · rename_i hwriting
    obtain ⟨conn₁, hwrite, h⟩ := Option.bind_eq_some_iff.mp h
    obtain ⟨-, rfl⟩ := write_cases hwrite
    split at h
    · obtain ⟨buf, -, h⟩ := Option.map_eq_some_iff.mp h
      dsimp only at h
      split at h
      · rename_i hempty
        rw [Buffer.readableBytes_eq_zero] at hempty
        split at h
        · obtain ⟨rfl, rfl⟩ := Prod.mk.inj h
          exact .complete hwriting hempty
        · obtain ⟨rfl, rfl⟩ := Prod.mk.inj h
          exact .drained hwriting hempty
      · rename_i hmore
        rw [Buffer.readableBytes_eq_zero] at hmore
        obtain ⟨rfl, rfl⟩ := Prod.mk.inj h
        exact .part hwriting hmore
    · obtain ⟨rfl, rfl⟩ := Prod.mk.inj (Option.some.inj h)
      exact .refused hwriting
  · rename_i hwriting
    obtain ⟨rfl, rfl⟩ := Prod.mk.inj (Option.some.inj h)
    exact .idle (by simpa using hwriting)

/-- What `handleRead` does: it invokes `messageCallback_`, or closes, or neither. -/
theorem handleRead_cases {r : Buffer.Readv} (h : conn.handleRead r = some (conn', frame)) :
    ∃ buf, (conn' = { conn with inputBuffer := buf }.emit .messageCallback ∧
        frame = some .handleRead) ∨
      ((conn', frame) = { conn with inputBuffer := buf }.handleClose) ∨
      (conn' = { conn with inputBuffer := buf } ∧ frame = none) := by
  rw [handleRead] at h
  obtain ⟨⟨n, savedErrno, buf⟩, -, h⟩ := Option.map_eq_some_iff.mp h
  refine ⟨buf, ?_⟩
  dsimp only at h
  split at h
  · obtain ⟨rfl, rfl⟩ := Prod.mk.inj h
    exact Or.inl ⟨rfl, rfl⟩
  · split at h
    · exact Or.inr (Or.inl h.symm)
    · obtain ⟨rfl, rfl⟩ := Prod.mk.inj h
      exact Or.inr (Or.inr ⟨rfl, rfl⟩)

end Inversion

end TcpConnection

/-! ### Sessions -/

/-- A connection, the frames whose callbacks are running (the innermost first),
and the messages passed to `send` so far. -/
structure Session where
  conn : TcpConnection
  stack : List Frame
  messages : List Bytes

namespace Session

/-- One step from outside of the connection. -/
inductive Input
  /-- `send(message)` is called; `::write`, if it is called, answers `result`. -/
  | send (message : Bytes) (result : Int)
  /-- `shutdown()` is called. -/
  | shutdown
  /-- The loop dispatches a read event. -/
  | handleRead (r : Buffer.Readv)
  /-- The loop dispatches a write event. -/
  | handleWrite (result : Int)
  /-- The message callback takes `len` bytes out of `inputBuffer_`. -/
  | retrieve (len : Nat)
  /-- The innermost callback returns. -/
  | ret
  deriving DecidableEq

/-- A connection in its first callback, `connectionCallback_`. -/
def start (writeComplete : Bool) : Session :=
  let (conn, frame) := TcpConnection.connectEstablished { writeComplete := writeComplete }
  ⟨conn, frame.toList, []⟩

/-- The session after a function of the connection has run. -/
def after (s : Session) (out : TcpConnection × Option Frame) : Session :=
  { s with conn := out.1, stack := out.2.toList ++ s.stack }

def step (s : Session) : Input → Option Session
  | .send message result =>
    (s.conn.send message result).map { s with messages := s.messages ++ [message] }.after
  | .shutdown => some { s with conn := s.conn.shutdown }
  | .handleRead r => if s.stack = [] then (s.conn.handleRead r).map s.after else none
  | .handleWrite result => if s.stack = [] then (s.conn.handleWrite result).map s.after else none
  | .retrieve len =>
    (s.conn.inputBuffer.retrieve len).map fun buf =>
      { s with conn := { s.conn with inputBuffer := buf } }
  | .ret =>
    match s.stack with
    | [] => none
    | frame :: stack =>
      (s.conn.resume frame).map fun conn => { s with conn := conn, stack := stack }

/-! ### What a step does -/

section Inversion

variable {s t : Session}

theorem step_send {message : Bytes} {result : Int} (h : step s (.send message result) = some t) :
    ∃ out, s.conn.send message result = some out ∧
      t = { s with messages := s.messages ++ [message] }.after out := by
  obtain ⟨out, hout, rfl⟩ := Option.map_eq_some_iff.mp h
  exact ⟨out, hout, rfl⟩

theorem step_handleRead {r : Buffer.Readv} (h : step s (.handleRead r) = some t) :
    s.stack = [] ∧ ∃ out, s.conn.handleRead r = some out ∧ t = s.after out := by
  rw [step] at h
  split at h
  · rename_i hstack
    obtain ⟨out, hout, rfl⟩ := Option.map_eq_some_iff.mp h
    exact ⟨hstack, out, hout, rfl⟩
  · cases h

theorem step_handleWrite {result : Int} (h : step s (.handleWrite result) = some t) :
    s.stack = [] ∧ ∃ out, s.conn.handleWrite result = some out ∧ t = s.after out := by
  rw [step] at h
  split at h
  · rename_i hstack
    obtain ⟨out, hout, rfl⟩ := Option.map_eq_some_iff.mp h
    exact ⟨hstack, out, hout, rfl⟩
  · cases h

theorem step_retrieve {len : Nat} (h : step s (.retrieve len) = some t) :
    ∃ buf, s.conn.inputBuffer.retrieve len = some buf ∧
      t = { s with conn := { s.conn with inputBuffer := buf } } := by
  obtain ⟨buf, hbuf, rfl⟩ := Option.map_eq_some_iff.mp h
  exact ⟨buf, hbuf, rfl⟩

theorem step_ret (h : step s .ret = some t) :
    ∃ frame stack conn, s.stack = frame :: stack ∧ s.conn.resume frame = some conn ∧
      t = { s with conn := conn, stack := stack } := by
  rw [step] at h
  split at h
  · cases h
  · rename_i frame stack hstack
    obtain ⟨conn, hconn, rfl⟩ := Option.map_eq_some_iff.mp h
    exact ⟨frame, stack, conn, hstack, hconn, rfl⟩

end Inversion

end Session

end Dummyload
