import Dummyload.Net.Output

/-!
# Dummyload.Net.HalfClose

When the connection closes its sending side. `shutdown()` does it at once when
nothing waits to be written, and otherwise leaves it to the `handleWrite` that
drains `outputBuffer_`, which reads `state_` after its `writeCompleteCallback_`.

So `shutdownWrite()` is executed once, with nothing left to write, unless this
callback is where `shutdown()` is called, or bytes are buffered after the buffer
was drained for the last time (`shutdownWrite_once`).
-/

namespace Dummyload

/-! ### Effects, counted -/

namespace TcpConnection

/-- How often this effect has happened. -/
def happened (conn : TcpConnection) (e : Effect) : Nat := conn.effects.count e

theorem happened_emit (conn : TcpConnection) (e e' : Effect) :
    (conn.emit e').happened e = conn.happened e + if e' = e then 1 else 0 := by
  rw [happened, emit, List.count_append, List.count_singleton]
  simp [happened]

theorem happened_wrote (conn : TcpConnection) (data : Bytes) (count : Nat) (result : Int)
    {e : Effect} (h : ∀ count result, e ≠ .write count result) :
    (conn.wrote data count result).happened e = conn.happened e := by
  have hemit := happened_emit conn e (.write count result)
  rwa [if_neg (fun heq => h _ _ heq.symm), Nat.add_zero] at hemit

/-- How often `shutdownWrite()` was executed. -/
def halfCloses (conn : TcpConnection) : Nat := conn.effects.count .shutdownWrite

theorem halfCloses_emit (conn : TcpConnection) {e : Effect} (h : e ≠ .shutdownWrite) :
    (conn.emit e).halfCloses = conn.halfCloses := by
  have hemit := happened_emit conn .shutdownWrite e
  rwa [if_neg h, Nat.add_zero] at hemit

@[simp] theorem halfCloses_wrote (conn : TcpConnection) (data : Bytes) (count : Nat)
    (result : Int) : (conn.wrote data count result).halfCloses = conn.halfCloses :=
  happened_wrote conn data count result (by simp)

@[simp] theorem halfCloses_shutdownWrite (conn : TcpConnection) :
    conn.shutdownWrite.halfCloses = conn.halfCloses + 1 :=
  happened_emit conn .shutdownWrite .shutdownWrite

@[simp] theorem isWriting_keep (conn : TcpConnection) (buf : Buffer) :
    (conn.keep buf).channel.isWriting = true := by
  rw [keep]
  dsimp only
  split
  · assumption
  · exact Channel.isWriting_enableWriting _

end TcpConnection

namespace Session

open Lib.Machine (run Meets)

/-- A step executes `shutdownWrite()` not at all, or for the first time and with
`outputBuffer_` empty. It is the last thing that a step does. -/
def Graceful (s : Session) (i : Input) : Prop :=
  ∀ t ∈ step s i, t.conn.halfCloses = s.conn.halfCloses ∨
    (s.conn.halfCloses = 0 ∧ t.conn.halfCloses = 1 ∧ t.conn.outputBuffer.readable = [])

/-- `shutdown()` is not called in the `writeCompleteCallback_` of `handleWrite`, and once the
output is drained nothing more is buffered: a `send` after `shutdown()` that finds the channel
not writing has all of its message taken by `::write`, or is answered -1. -/
def Orderly (s : Session) : Input → Prop
  | .shutdown => s.conn.state = .kConnected → Frame.handleWrite ∉ s.stack
  | .send message result =>
    s.conn.state = .kDisconnecting → s.conn.channel.isWriting = false →
      ¬ toSize result < toSize (toInt message.length)
  | _ => True

/-- `handleWrite` will close the sending side: it has yet to drain `outputBuffer_`, or its
`writeCompleteCallback_` to return. -/
def Awaited (s : Session) : Prop :=
  s.conn.channel.isWriting = true ∨ Frame.handleWrite ∈ s.stack

structure HalfClosing (s : Session) : Prop where
  writing : s.conn.state ≠ .kDisconnected →
    (s.conn.channel.isWriting = true ↔ s.conn.outputBuffer.readable ≠ [])
  settled : ∀ f ∈ s.stack, f.Settled
  single : s.stack.count .handleWrite ≤ 1
  up : s.conn.state = .kConnecting ∨ s.conn.state = .kConnected → s.conn.halfCloses = 0
  awaited : s.conn.state = .kDisconnecting → Awaited s → s.conn.halfCloses = 0
  closed : s.conn.state = .kDisconnecting → ¬ Awaited s → s.conn.halfCloses = 1
  drained : s.conn.state = .kDisconnecting → Frame.handleWrite ∈ s.stack →
    s.conn.channel.isWriting = false
  le : s.conn.halfCloses ≤ 1

/-- A new connection has nothing to write. -/
theorem writing_start (writeComplete : Bool) :
    (start writeComplete).conn.channel.isWriting = true ↔
      (start writeComplete).conn.outputBuffer.readable ≠ [] := by
  have hwriting : (start writeComplete).conn.channel.isWriting = false :=
    Channel.isWriting_enableReading {}
  have hbuf : (start writeComplete).conn.outputBuffer.readable = [] :=
    Buffer.readable_new kInitialSize
  simp [hwriting, hbuf]

theorem halfClosing_start (writeComplete : Bool) : HalfClosing (start writeComplete) where
  writing _ := writing_start writeComplete
  settled := by simp [start, TcpConnection.connectEstablished, Frame.Settled]
  single := Nat.zero_le 1
  up _ := rfl
  awaited hstate := by cases hstate
  closed hstate := by cases hstate
  drained hstate := by cases hstate
  le := Nat.zero_le 1

/-- A step that the half-close does not depend on. -/
theorem HalfClosing.of_same {s t : Session} (h : HalfClosing s)
    (hstate : t.conn.state = s.conn.state)
    (hwriting : t.conn.channel.isWriting = s.conn.channel.isWriting)
    (hbuf : t.conn.outputBuffer.readable = s.conn.outputBuffer.readable)
    (hcloses : t.conn.halfCloses = s.conn.halfCloses)
    (hcount : t.stack.count .handleWrite = s.stack.count .handleWrite)
    (hsettled : ∀ f ∈ t.stack, f.Settled) : HalfClosing t := by
  have hmem : Frame.handleWrite ∈ t.stack ↔ Frame.handleWrite ∈ s.stack := by
    rw [← List.count_pos_iff, hcount, List.count_pos_iff]
  have hawaited : Awaited t ↔ Awaited s := by rw [Awaited, Awaited, hwriting, hmem]
  exact {
    writing := by rw [hstate, hwriting, hbuf]; exact h.writing
    settled := hsettled
    single := by rw [hcount]; exact h.single
    up := by rw [hstate, hcloses]; exact h.up
    awaited := by rw [hstate, hawaited, hcloses]; exact h.awaited
    closed := by rw [hstate, hawaited, hcloses]; exact h.closed
    drained := by rw [hstate, hwriting, hmem]; exact h.drained
    le := by rw [hcloses]; exact h.le }

/-- Bytes are buffered; after `shutdown()`, only behind others. -/
theorem HalfClosing.of_kept {s t : Session} (h : HalfClosing s)
    (hstate : t.conn.state = s.conn.state) (hwriting : t.conn.channel.isWriting = true)
    (hbuf : t.conn.outputBuffer.readable ≠ [])
    (hcloses : t.conn.halfCloses = s.conn.halfCloses) (hstack : t.stack = s.stack)
    (hbusy : s.conn.state = .kDisconnecting → s.conn.channel.isWriting = true) :
    HalfClosing t where
  writing _ := ⟨fun _ => hbuf, fun _ => hwriting⟩
  settled := by rw [hstack]; exact h.settled
  single := by rw [hstack]; exact h.single
  up := by rw [hstate, hcloses]; exact h.up
  awaited := by
    rw [hstate, hcloses]
    exact fun hd _ => h.awaited hd (Or.inl (hbusy hd))
  closed _ hnot := absurd (Or.inl hwriting) hnot
  drained hd hmem := by
    rw [hstate] at hd
    rw [hstack] at hmem
    have hfalse := h.drained hd hmem
    rw [hbusy hd] at hfalse
    cases hfalse
  le := by rw [hcloses]; exact h.le

/-- The sending side has just been closed. -/
theorem HalfClosing.of_closed {t : Session} (hstate : t.conn.state = .kDisconnecting)
    (hwriting : t.conn.channel.isWriting = false) (hbuf : t.conn.outputBuffer.readable = [])
    (hcloses : t.conn.halfCloses = 1) (hstack : Frame.handleWrite ∉ t.stack)
    (hsettled : ∀ f ∈ t.stack, f.Settled) : HalfClosing t where
  writing _ := by simp [hwriting, hbuf]
  settled := hsettled
  single := by rw [List.count_eq_zero_of_not_mem hstack]; exact Nat.zero_le 1
  up hor := by
    rw [hstate] at hor
    rcases hor with hor | hor
    · cases hor
    · cases hor
  awaited _ hawaited := by
    rcases hawaited with hw | hmem
    · rw [hwriting] at hw
      cases hw
    · exact absurd hmem hstack
  closed _ _ := hcloses
  drained _ _ := hwriting
  le := hcloses.le

/-- Without a `shutdown()` that waits, nothing is to be closed. -/
theorem HalfClosing.of_notDisconnecting {t : Session} (hstate : t.conn.state ≠ .kDisconnecting)
    (hwriting : t.conn.state ≠ .kDisconnected →
      (t.conn.channel.isWriting = true ↔ t.conn.outputBuffer.readable ≠ []))
    (hup : t.conn.state = .kConnecting ∨ t.conn.state = .kConnected → t.conn.halfCloses = 0)
    (hle : t.conn.halfCloses ≤ 1) (hsingle : t.stack.count .handleWrite ≤ 1)
    (hsettled : ∀ f ∈ t.stack, f.Settled) : HalfClosing t where
  writing := hwriting
  settled := hsettled
  single := hsingle
  up := hup
  awaited hd := absurd hd hstate
  closed hd := absurd hd hstate
  drained hd := absurd hd hstate
  le := hle

/-- What a step leaves. -/
structure Closes (s t : Session) : Prop where
  inv : HalfClosing t
  graceful : t.conn.halfCloses = s.conn.halfCloses ∨
    (s.conn.halfCloses = 0 ∧ t.conn.halfCloses = 1 ∧ t.conn.outputBuffer.readable = [])

theorem closes_send {s t : Session} {message : Bytes} {result : Int} (h : HalfClosing s)
    (hi : Orderly s (.send message result)) (hstep : step s (.send message result) = some t) :
    Closes s t := by
  obtain ⟨⟨conn, frame⟩, hsend, rfl⟩ := step_send hstep
  cases TcpConnection.send_cases hsend with
  | complete hwriting hempty hall =>
      have hcloses : ((s.conn.wrote message (toSize (toInt message.length)) result).emit
          .writeCompleteCallback).halfCloses = s.conn.halfCloses := by
        rw [TcpConnection.halfCloses_emit _ (by simp), TcpConnection.halfCloses_wrote]
      refine ⟨h.of_same rfl rfl rfl hcloses ?_ ?_, Or.inl hcloses⟩
      · exact List.count_cons_of_ne (by simp)
      · exact List.forall_mem_cons.mpr ⟨hall, h.settled⟩
  | direct hwriting hempty hend =>
      cases hend with
      | done hall =>
          have hcloses := TcpConnection.halfCloses_wrote s.conn message
            (toSize (toInt message.length)) result
          exact ⟨h.of_same rfl rfl rfl hcloses rfl h.settled, Or.inl hcloses⟩
      | kept hpart hrest hbuf =>
          have hcloses := TcpConnection.halfCloses_wrote s.conn message
            (toSize (toInt message.length)) result
          refine ⟨h.of_kept rfl (TcpConnection.isWriting_keep _ _) ?_ hcloses rfl ?_,
            Or.inl hcloses⟩
          · show _ ≠ _
            simp [TcpConnection.keep, Session.after, hbuf, hrest]
          · exact fun hd => absurd hpart (hi hd hwriting)
  | queued hbusy hend =>
      cases hend with
      | done hall => exact ⟨h.of_same rfl rfl rfl rfl rfl h.settled, Or.inl rfl⟩
      | kept hpart hrest hbuf =>
          refine ⟨h.of_kept rfl (TcpConnection.isWriting_keep _ _) ?_ rfl rfl ?_, Or.inl rfl⟩
          · simp [TcpConnection.keep, Session.after, hbuf, hrest]
          · intro hd
            rcases hbusy with hw | hne
            · exact hw
            · exact (h.writing (by rw [hd]; decide)).mpr hne

theorem closes_shutdown {s t : Session} (h : HalfClosing s) (hi : Orderly s .shutdown)
    (hstep : step s .shutdown = some t) : Closes s t := by
  obtain rfl := Option.some.inj hstep
  rw [TcpConnection.shutdown]
  split
  · rename_i hup
    have hzero : s.conn.halfCloses = 0 := h.up (Or.inr hup)
    have hwriting := h.writing (by rw [hup]; decide)
    dsimp only
    split
    · -- nothing waits: the sending side is closed now
      rename_i hidle
      rw [Bool.not_eq_true] at hidle
      have hbuf : s.conn.outputBuffer.readable = [] := by
        by_contra hne
        rw [hwriting.mpr hne] at hidle
        cases hidle
      have hone :
          ({ s.conn with state := .kDisconnecting } : TcpConnection).shutdownWrite.halfCloses =
            1 := by
        rw [TcpConnection.halfCloses_shutdownWrite]
        exact congrArg (· + 1) hzero
      exact ⟨.of_closed rfl hidle hbuf hone (hi hup) h.settled, Or.inr ⟨hzero, hone, hbuf⟩⟩
    · rename_i hbusy
      rw [not_not] at hbusy
      refine ⟨?_, Or.inl rfl⟩
      exact {
        writing := fun _ => hwriting
        settled := h.settled
        single := h.single
        up := fun _ => hzero
        awaited := fun _ _ => hzero
        closed := fun _ hnot => absurd (Or.inl hbusy) hnot
        drained := fun _ hmem => absurd hmem (hi hup)
        le := h.le }
  · exact ⟨h, Or.inl rfl⟩

/-- The end of `handleWrite`: after `shutdown()`, nothing is left in `outputBuffer_`. -/
theorem closes_handleWriteRest {s t : Session} (h : HalfClosing s) (conn : TcpConnection)
    (hstate : conn.state = s.conn.state) (hcloses : conn.halfCloses = s.conn.halfCloses)
    (hwriting : conn.state ≠ .kDisconnected →
      (conn.channel.isWriting = true ↔ conn.outputBuffer.readable ≠ []))
    (hdrained : conn.state = .kDisconnecting → conn.channel.isWriting = false)
    (hawaited : Awaited s) (hconn : t.conn = conn.handleWriteRest)
    (hstack : Frame.handleWrite ∉ t.stack) (hsettled : ∀ f ∈ t.stack, f.Settled) : Closes s t := by
  rw [TcpConnection.handleWriteRest] at hconn
  split at hconn
  · rename_i hd
    have hidle := hdrained hd
    have hbuf : conn.outputBuffer.readable = [] := by
      by_contra hne
      rw [(hwriting (by rw [hd]; decide)).mpr hne] at hidle
      cases hidle
    have hzero := h.awaited (hstate.symm.trans hd) hawaited
    have hone : conn.shutdownWrite.halfCloses = 1 := by
      rw [TcpConnection.halfCloses_shutdownWrite, hcloses, hzero]
    have hinv : HalfClosing t := by
      refine .of_closed ?_ ?_ ?_ ?_ hstack hsettled
      · rw [hconn]
        exact hd
      · rw [hconn]
        exact hidle
      · rw [hconn]
        exact hbuf
      · rw [hconn]
        exact hone
    exact ⟨hinv, Or.inr ⟨hzero, by rw [hconn]; exact hone, by rw [hconn]; exact hbuf⟩⟩
  · rename_i hd
    refine ⟨.of_notDisconnecting ?_ ?_ ?_ ?_ ?_ hsettled, Or.inl (by rw [hconn]; exact hcloses)⟩
    · rw [hconn]
      exact hd
    · rw [hconn]
      exact hwriting
    · rw [hconn, hstate, hcloses]
      exact h.up
    · rw [hconn, hcloses]
      exact h.le
    · rw [List.count_eq_zero_of_not_mem hstack]
      exact Nat.zero_le 1

theorem closes_handleWrite {s t : Session} {result : Int} (h : HalfClosing s)
    (hstep : step s (.handleWrite result) = some t) : Closes s t := by
  obtain ⟨hstack, ⟨conn, frame⟩, hwrite, rfl⟩ := step_handleWrite hstep
  have hwrote := TcpConnection.halfCloses_wrote s.conn s.conn.outputBuffer.readable
    s.conn.outputBuffer.readableBytes result
  cases TcpConnection.handleWrite_cases hwrite with
  | idle hwriting => exact ⟨h.of_same rfl rfl rfl rfl rfl h.settled, Or.inl rfl⟩
  | refused hwriting => exact ⟨h.of_same rfl rfl rfl hwrote rfl h.settled, Or.inl hwrote⟩
  | part hwriting hbuf =>
      exact ⟨h.of_kept rfl hwriting hbuf hwrote rfl fun _ => hwriting, Or.inl hwrote⟩
  | @complete buf hwriting hbuf =>
      have hidle : s.conn.channel.disableWriting.isWriting = false :=
        Channel.isWriting_disableWriting _
      have hcloses := (TcpConnection.halfCloses_emit (e := .writeCompleteCallback)
        ((s.conn.wrote s.conn.outputBuffer.readable s.conn.outputBuffer.readableBytes
          result).drain buf) (by simp)).trans hwrote
      refine ⟨?_, Or.inl hcloses⟩
      exact {
        writing := fun _ => by simp [TcpConnection.emit, TcpConnection.drain, Session.after, hbuf]
        settled := by
          rw [Session.after, hstack]
          simp [Frame.Settled]
        single := by
          rw [Session.after, hstack]
          exact le_rfl
        up := fun hup => hcloses.trans (h.up hup)
        awaited := fun hd _ => hcloses.trans (h.awaited hd (Or.inl hwriting))
        closed := fun _ hnot => absurd (Or.inr (by simp [Session.after])) hnot
        drained := fun _ _ => hidle
        le := hcloses.trans_le h.le }
  | @drained buf hwriting hbuf =>
      have hidle : s.conn.channel.disableWriting.isWriting = false :=
        Channel.isWriting_disableWriting _
      refine closes_handleWriteRest h ((s.conn.wrote _ _ _).drain buf) rfl hwrote
        (fun _ => ?_) (fun _ => hidle) (Or.inl hwriting) rfl ?_ h.settled
      · simp [TcpConnection.drain, hbuf]
      · simp [Session.after, hstack]

theorem closes_ret {s t : Session} (h : HalfClosing s) (hstep : step s .ret = some t) :
    Closes s t := by
  obtain ⟨frame, stack, conn, hstack, hresume, rfl⟩ := step_ret hstep
  have hall := h.settled
  have hsingle := h.single
  rw [hstack] at hall hsingle
  obtain ⟨hf, hsettled⟩ := List.forall_mem_cons.mp hall
  -- another frame leaves the half-close alone
  have hother : ∀ {conn' : TcpConnection}, frame ≠ .handleWrite → conn'.state = s.conn.state →
      conn'.channel = s.conn.channel → conn'.outputBuffer = s.conn.outputBuffer →
      conn'.halfCloses = s.conn.halfCloses → Closes s { s with conn := conn', stack := stack } := by
    intro conn' hne hstate hchannel hbuf hcloses
    refine ⟨h.of_same hstate (congrArg _ hchannel) (congrArg _ hbuf) hcloses ?_ hsettled,
      Or.inl hcloses⟩
    rw [hstack, List.count_cons_of_ne hne]
  cases frame with
  | handleWrite =>
      obtain rfl := Option.some.inj hresume
      rw [List.count_cons_self] at hsingle
      have hmem : Frame.handleWrite ∈ s.stack := by rw [hstack]; exact List.mem_cons_self
      refine closes_handleWriteRest h s.conn rfl rfl h.writing (fun hd => h.drained hd hmem)
        (Or.inr hmem) rfl ?_ hsettled
      show Frame.handleWrite ∉ stack
      exact List.count_eq_zero.mp (by omega)
  | connectEstablished =>
      obtain rfl := Option.some.inj hresume
      exact hother (by simp) rfl rfl rfl rfl
  | handleRead =>
      obtain rfl := Option.some.inj hresume
      exact hother (by simp) rfl rfl rfl rfl
  | handleClose =>
      obtain rfl := Option.some.inj hresume
      exact hother (by simp) rfl rfl rfl (TcpConnection.halfCloses_emit _ (by simp))
  | send data len nwrote =>
      cases TcpConnection.sendRest_cases hresume with
      | done hall => exact hother (by simp) rfl rfl rfl rfl
      | kept hpart hrest hbuf => exact absurd hpart hf

theorem closes_handleRead {s t : Session} {r : Buffer.Readv} (h : HalfClosing s)
    (hstep : step s (.handleRead r) = some t) : Closes s t := by
  obtain ⟨hstack, ⟨conn, frame⟩, hread, rfl⟩ := step_handleRead hstep
  obtain ⟨buf, ⟨rfl, rfl⟩ | hclose | ⟨rfl, rfl⟩⟩ := TcpConnection.handleRead_cases hread
  · have hcloses : ({ s.conn with inputBuffer := buf }.emit .messageCallback).halfCloses =
        s.conn.halfCloses := TcpConnection.halfCloses_emit _ (by simp)
    refine ⟨h.of_same rfl rfl rfl hcloses ?_ ?_, Or.inl hcloses⟩
    · exact List.count_cons_of_ne (by simp)
    · exact List.forall_mem_cons.mpr ⟨trivial, h.settled⟩
  · obtain ⟨rfl, rfl⟩ := Prod.mk.inj hclose
    have hcloses : ({ s.conn with
        inputBuffer := buf
        state := .kDisconnected
        channel := s.conn.channel.disableAll }.emit .connectionCallback).halfCloses =
          s.conn.halfCloses := TcpConnection.halfCloses_emit _ (by simp)
    refine ⟨.of_notDisconnecting (by simp [Session.after, TcpConnection.emit])
      (fun hne => absurd rfl hne) (fun hup => ?_) (hcloses.trans_le h.le) ?_ ?_, Or.inl hcloses⟩
    · rcases hup with hup | hup
      · cases hup
      · cases hup
    · rw [Session.after, hstack]
      exact Nat.zero_le 1
    · exact List.forall_mem_cons.mpr ⟨trivial, h.settled⟩
  · exact ⟨h.of_same rfl rfl rfl rfl rfl h.settled, Or.inl rfl⟩

theorem closes_step {s t : Session} {i : Input} (h : HalfClosing s) (hi : Orderly s i)
    (hstep : step s i = some t) : Closes s t := by
  cases i with
  | send message result => exact closes_send h hi hstep
  | shutdown => exact closes_shutdown h hi hstep
  | handleRead r => exact closes_handleRead h hstep
  | handleWrite result => exact closes_handleWrite h hstep
  | retrieve len =>
      obtain ⟨buf, -, rfl⟩ := step_retrieve hstep
      exact ⟨h.of_same rfl rfl rfl rfl rfl h.settled, Or.inl rfl⟩
  | ret => exact closes_ret h hstep

/-- **The half-close is graceful.** In every run whose steps are orderly, `shutdownWrite()` is
executed at most once, and with `outputBuffer_` empty. -/
theorem shutdownWrite_once (writeComplete : Bool) (is : List Input) (s : Session)
    (h : Meets step Orderly (start writeComplete) is)
    (hrun : run step (start writeComplete) is = some s) :
    s.conn.effects.count .shutdownWrite ≤ 1 ∧ Meets step Graceful (start writeComplete) is := by
  have hinv : ∀ s i t, HalfClosing s → Orderly s i → step s i = some t → HalfClosing t :=
    fun s i t h hi hstep => (closes_step h hi hstep).inv
  refine ⟨(Lib.Machine.invariant_of_meets hinv (halfClosing_start writeComplete) h hrun).le, ?_⟩
  refine Lib.Machine.meets_imp hinv (fun s i h hi t ht => ?_) (halfClosing_start writeComplete) h
  exact (closes_step h hi ht).graceful

instance (s : Session) : (i : Input) → Decidable (Orderly s i)
  | .shutdown => inferInstanceAs (Decidable (_ → _))
  | .send _ _ => inferInstanceAs (Decidable (_ → _ → _))
  | .handleRead _ => .isTrue trivial
  | .handleWrite _ => .isTrue trivial
  | .retrieve _ => .isTrue trivial
  | .ret => .isTrue trivial

instance (s : Session) (i : Input) : Decidable (Graceful s i) :=
  inferInstanceAs (Decidable (∀ t ∈ step s i, _))

/-- `shutdown()` finds bytes to write, and the write event for them comes. -/
def shutdownBusy : List Input :=
  [.send (ascii "ab") 1, .shutdown, .ret, .send (ascii "c") 0, .handleWrite 1, .handleWrite 1,
    .send (ascii "d") (-1), .ret]

theorem shutdownWrite_once_shutdownBusy :
    Meets step Graceful (start true) shutdownBusy := by
  have hsome : (run step (start true) shutdownBusy).isSome = true := by decide +kernel
  obtain ⟨s, hs⟩ := Option.isSome_iff_exists.mp hsome
  exact (shutdownWrite_once true shutdownBusy s (by decide +kernel) hs).2

/-- The callback of `handleWrite` calls `shutdown()`. -/
def shutdownWhenWritten : List Input :=
  [.ret, .send (ascii "ab") 1, .handleWrite 1, .shutdown, .ret]

/-- In `shutdownWhenWritten` the sending side is closed twice. -/
theorem shutdownWrite_not_always_once :
    ¬ ∀ (writeComplete : Bool) (is : List Input) (s : Session),
      run step (start writeComplete) is = some s →
        s.conn.effects.count .shutdownWrite ≤ 1 ∧
          Meets step Graceful (start writeComplete) is := by
  intro h
  have hsome : (run step (start true) shutdownWhenWritten).isSome = true := by decide +kernel
  obtain ⟨s, hs⟩ := Option.isSome_iff_exists.mp hsome
  exact absurd (h true shutdownWhenWritten s hs).2 (by decide +kernel)

end Session

end Dummyload
