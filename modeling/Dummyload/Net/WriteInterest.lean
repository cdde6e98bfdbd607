import Dummyload.Net.HalfClose

/-!
# Dummyload.Net.WriteInterest

Until `handleClose()` runs, the channel asks for write events exactly while bytes wait
in `outputBuffer_` (`writing_iff_pending`): between any two steps, so wherever a function
of the connection is entered or left and around every callback, however deep. It rests
on the frames of `send`, which have nothing left to buffer once their callback returns.
-/

namespace Dummyload

namespace TcpConnection

theorem happened_handleWriteRest (conn : TcpConnection) {e : Effect} (h : e ≠ .shutdownWrite) :
    conn.handleWriteRest.happened e = conn.happened e := by
  rw [handleWriteRest]
  split
  · rw [shutdownWrite, happened_emit, if_neg (fun heq => h heq.symm), Nat.add_zero]
  · rfl

theorem happened_shutdown (conn : TcpConnection) {e : Effect} (h : e ≠ .shutdownWrite) :
    conn.shutdown.happened e = conn.happened e := by
  rw [shutdown]
  split
  · dsimp only
    split
    · rw [shutdownWrite, happened_emit, if_neg (fun heq => h heq.symm), Nat.add_zero]
      rfl
    · rfl
  · rfl

theorem handleWriteRest_frame (conn : TcpConnection) :
    conn.handleWriteRest.channel = conn.channel ∧
      conn.handleWriteRest.outputBuffer = conn.outputBuffer ∧
      conn.handleWriteRest.state = conn.state := by
  rw [handleWriteRest]
  split <;> exact ⟨rfl, rfl, rfl⟩

/-- `shutdown()` does not touch the output, nor a connection that is closed. -/
theorem shutdown_frame (conn : TcpConnection) :
    conn.shutdown.channel = conn.channel ∧ conn.shutdown.outputBuffer = conn.outputBuffer ∧
      (conn.shutdown.state = .kDisconnected ↔ conn.state = .kDisconnected) := by
  rw [shutdown]
  split
  · rename_i hup
    rw [hup]
    dsimp only
    split
    · exact ⟨rfl, rfl, by simp [shutdownWrite, emit]⟩
    · exact ⟨rfl, rfl, by simp⟩
  · exact ⟨rfl, rfl, Iff.rfl⟩

end TcpConnection

namespace Session

open Lib.Machine (run)

/-- `handleClose()` has run: it is the second to invoke `connectionCallback_`. -/
def HasClosed (s : Session) : Prop := 1 < s.conn.happened .connectionCallback

/-- `writeCompleteCallback_` is invoked between these two states. -/
def Completes (s t : Session) : Prop :=
  t.conn.happened .writeCompleteCallback ≠ s.conn.happened .writeCompleteCallback

structure Tracks (s : Session) : Prop where
  writing : s.conn.state ≠ .kDisconnected →
    (s.conn.channel.isWriting = true ↔ s.conn.outputBuffer.readable ≠ [])
  settled : ∀ f ∈ s.stack, f.Settled
  established : 1 ≤ s.conn.happened .connectionCallback
  closed : s.conn.state = .kDisconnected ↔ HasClosed s

theorem tracks_start (writeComplete : Bool) : Tracks (start writeComplete) where
  writing _ := writing_start writeComplete
  settled := by simp [start, TcpConnection.connectEstablished, Frame.Settled]
  established := le_refl 1
  closed := iff_of_false (by simp [start, TcpConnection.connectEstablished, TcpConnection.emit])
    (lt_irrefl 1)

/-- What a step leaves: the invariant, and the output drained if it invokes
`writeCompleteCallback_`. -/
structure Tracked (s t : Session) : Prop where
  inv : Tracks t
  complete : Completes s t → t.conn.outputBuffer.readable = [] ∧ t.conn.channel.isWriting = false

section Step

variable {s t : Session}

/-- A step that invokes neither of the two callbacks and leaves `state_` alone. -/
theorem Tracks.of_quiet (h : Tracks s) (hstate : t.conn.state = .kDisconnected ↔
      s.conn.state = .kDisconnected)
    (hup : t.conn.happened .connectionCallback = s.conn.happened .connectionCallback)
    (hcomplete : t.conn.happened .writeCompleteCallback = s.conn.happened .writeCompleteCallback)
    (hsettled : ∀ f ∈ t.stack, f.Settled)
    (hwriting : s.conn.state ≠ .kDisconnected →
      (t.conn.channel.isWriting = true ↔ t.conn.outputBuffer.readable ≠ [])) : Tracked s t where
  inv := {
    writing := fun hne => hwriting fun heq => hne (hstate.mpr heq)
    settled := hsettled
    established := hup ▸ h.established
    closed := by
      rw [hstate, h.closed, HasClosed, HasClosed, hup] }
  complete hcompletes := absurd hcomplete hcompletes

/-- A step that invokes `writeCompleteCallback_` with the output drained. -/
theorem Tracks.of_complete (h : Tracks s) (hstate : t.conn.state = s.conn.state)
    (hup : t.conn.happened .connectionCallback = s.conn.happened .connectionCallback)
    (hsettled : ∀ f ∈ t.stack, f.Settled) (hbuf : t.conn.outputBuffer.readable = [])
    (hwriting : t.conn.channel.isWriting = false) : Tracked s t where
  inv := {
    writing := fun _ => by simp [hbuf, hwriting]
    settled := hsettled
    established := hup ▸ h.established
    closed := by
      rw [hstate, h.closed, HasClosed, HasClosed, hup] }
  complete _ := ⟨hbuf, hwriting⟩

theorem tracked_send {message : Bytes} {result : Int} (h : Tracks s)
    (hstep : step s (.send message result) = some t) : Tracked s t := by
  obtain ⟨⟨conn, frame⟩, hsend, rfl⟩ := step_send hstep
  have hwrote : ∀ {e : Effect}, (∀ count result, e ≠ .write count result) →
      (s.conn.wrote message (toSize (toInt message.length)) result).happened e =
        s.conn.happened e := fun he => TcpConnection.happened_wrote _ _ _ _ he
  cases TcpConnection.send_cases hsend with
  | complete hwriting hempty hall =>
      refine h.of_complete rfl ?_ (List.forall_mem_cons.mpr ⟨hall, h.settled⟩) hempty hwriting
      show TcpConnection.happened (TcpConnection.emit _ _) _ = _
      rw [TcpConnection.happened_emit, hwrote (by simp)]
      rfl
  | direct hwriting hempty hend =>
      cases hend with
      | done hall =>
          exact h.of_quiet Iff.rfl (hwrote (by simp)) (hwrote (by simp)) h.settled h.writing
      | kept hpart hrest hbuf =>
          refine h.of_quiet Iff.rfl (hwrote (by simp)) (hwrote (by simp)) h.settled fun _ => ?_
          refine iff_of_true (TcpConnection.isWriting_keep _ _) ?_
          simp [TcpConnection.keep, Session.after, hbuf, hrest]
  | queued hbusy hend =>
      cases hend with
      | done hall => exact h.of_quiet Iff.rfl rfl rfl h.settled h.writing
      | kept hpart hrest hbuf =>
          refine h.of_quiet Iff.rfl rfl rfl h.settled fun _ => ?_
          refine iff_of_true (TcpConnection.isWriting_keep _ _) ?_
          simp [TcpConnection.keep, Session.after, hbuf, hrest]

theorem tracked_shutdown (h : Tracks s) (hstep : step s .shutdown = some t) : Tracked s t := by
  obtain rfl := Option.some.inj hstep
  obtain ⟨hchannel, hbuf, hstate⟩ := s.conn.shutdown_frame
  refine h.of_quiet hstate (TcpConnection.happened_shutdown _ (by simp))
    (TcpConnection.happened_shutdown _ (by simp)) h.settled fun hne => ?_
  rw [hchannel, hbuf]
  exact h.writing hne

theorem tracked_handleWrite {result : Int} (h : Tracks s)
    (hstep : step s (.handleWrite result) = some t) : Tracked s t := by
  obtain ⟨hstack, ⟨conn, frame⟩, hwrite, rfl⟩ := step_handleWrite hstep
  have hwrote : ∀ {e : Effect}, (∀ count result, e ≠ .write count result) →
      (s.conn.wrote s.conn.outputBuffer.readable s.conn.outputBuffer.readableBytes
        result).happened e = s.conn.happened e := fun he => TcpConnection.happened_wrote _ _ _ _ he
  have hidle : s.conn.channel.disableWriting.isWriting = false :=
    Channel.isWriting_disableWriting _
  cases TcpConnection.handleWrite_cases hwrite with
  | idle hwriting => exact h.of_quiet Iff.rfl rfl rfl h.settled h.writing
  | refused hwriting =>
      exact h.of_quiet Iff.rfl (hwrote (by simp)) (hwrote (by simp)) h.settled h.writing
  | part hwriting hbuf =>
      exact h.of_quiet Iff.rfl (hwrote (by simp)) (hwrote (by simp)) h.settled fun _ =>
        iff_of_true hwriting hbuf
  | complete hwriting hbuf =>
      refine h.of_complete rfl ?_ (List.forall_mem_cons.mpr ⟨trivial, h.settled⟩) hbuf hidle
      show TcpConnection.happened (TcpConnection.emit _ _) _ = _
      rw [TcpConnection.happened_emit]
      exact hwrote (by simp)
  | @drained buf hwriting hbuf =>
      have hrest : ∀ {e : Effect}, e ≠ .shutdownWrite → (∀ count result, e ≠ .write count result) →
          ((s.conn.wrote s.conn.outputBuffer.readable s.conn.outputBuffer.readableBytes
            result).drain buf).handleWriteRest.happened e = s.conn.happened e := fun he he' =>
        (TcpConnection.happened_handleWriteRest _ he).trans (hwrote he')
      have hframe := TcpConnection.handleWriteRest_frame
        ((s.conn.wrote s.conn.outputBuffer.readable s.conn.outputBuffer.readableBytes
          result).drain buf)
      refine h.of_quiet ?_ (hrest (by simp) (by simp)) (hrest (by simp) (by simp)) h.settled
        fun _ => ?_
      · show TcpConnection.state (TcpConnection.handleWriteRest _) = _ ↔ _
        rw [hframe.2.2]
        exact Iff.rfl
      · show Channel.isWriting (TcpConnection.handleWriteRest _).channel = true ↔
          Buffer.readable (TcpConnection.handleWriteRest _).outputBuffer ≠ []
        rw [hframe.1, hframe.2.1]
        exact iff_of_false (by simp [TcpConnection.drain, hidle, TcpConnection.wrote,
          TcpConnection.emit]) (by simp [TcpConnection.drain, hbuf])

theorem tracked_handleRead {r : Buffer.Readv} (h : Tracks s)
    (hstep : step s (.handleRead r) = some t) : Tracked s t := by
  obtain ⟨hstack, ⟨conn, frame⟩, hread, rfl⟩ := step_handleRead hstep
  obtain ⟨buf, ⟨rfl, rfl⟩ | hclose | ⟨rfl, rfl⟩⟩ := TcpConnection.handleRead_cases hread
  · refine h.of_quiet Iff.rfl ?_ ?_ (List.forall_mem_cons.mpr ⟨trivial, h.settled⟩) h.writing
    · exact TcpConnection.happened_emit _ _ _
    · exact TcpConnection.happened_emit _ _ _
  · obtain ⟨rfl, rfl⟩ := Prod.mk.inj hclose
    have hup : ∀ conn : TcpConnection, (conn.emit .connectionCallback).happened
        .connectionCallback = conn.happened .connectionCallback + 1 := fun conn => by
      rw [TcpConnection.happened_emit]
      rfl
    have hcount := hup { s.conn with
      inputBuffer := buf
      state := .kDisconnected
      channel := s.conn.channel.disableAll }
    have hestablished := h.established
    refine ⟨⟨fun hne => absurd rfl hne, List.forall_mem_cons.mpr ⟨trivial, h.settled⟩, ?_, ?_⟩, ?_⟩
    · exact hcount ▸ Nat.le_add_left _ _
    · refine iff_of_true rfl ?_
      show 1 < TcpConnection.happened (TcpConnection.emit _ _) _
      rw [hcount]
      exact Nat.lt_add_of_pos_left hestablished
    · intro hcompletes
      refine absurd ?_ hcompletes
      show TcpConnection.happened (TcpConnection.emit _ _) _ = _
      rw [TcpConnection.happened_emit]
      rfl
  · exact h.of_quiet Iff.rfl rfl rfl h.settled h.writing

theorem tracked_ret (h : Tracks s) (hstep : step s .ret = some t) : Tracked s t := by
  obtain ⟨frame, stack, conn, hstack, hresume, rfl⟩ := step_ret hstep
  have hall := h.settled
  rw [hstack] at hall
  obtain ⟨hf, hsettled⟩ := List.forall_mem_cons.mp hall
  cases frame with
  | connectEstablished =>
      obtain rfl := Option.some.inj hresume
      exact h.of_quiet Iff.rfl rfl rfl hsettled h.writing
  | handleRead =>
      obtain rfl := Option.some.inj hresume
      exact h.of_quiet Iff.rfl rfl rfl hsettled h.writing
  | handleWrite =>
      obtain rfl := Option.some.inj hresume
      obtain ⟨hchannel, hbuf, hstate⟩ := s.conn.handleWriteRest_frame
      refine h.of_quiet (by rw [hstate]) (TcpConnection.happened_handleWriteRest _ (by simp))
        (TcpConnection.happened_handleWriteRest _ (by simp)) hsettled fun hne => ?_
      rw [hchannel, hbuf]
      exact h.writing hne
  | handleClose =>
      obtain rfl := Option.some.inj hresume
      refine h.of_quiet Iff.rfl ?_ ?_ hsettled h.writing
      · exact TcpConnection.happened_emit _ _ _
      · exact TcpConnection.happened_emit _ _ _
  | send data len nwrote =>
      cases TcpConnection.sendRest_cases hresume with
      | done hall => exact h.of_quiet Iff.rfl rfl rfl hsettled h.writing
      | kept hpart hrest hbuf => exact absurd hpart hf

theorem tracked_step {i : Input} (h : Tracks s) (hstep : step s i = some t) : Tracked s t := by
  cases i with
  | send message result => exact tracked_send h hstep
  | shutdown => exact tracked_shutdown h hstep
  | handleRead r => exact tracked_handleRead h hstep
  | handleWrite result => exact tracked_handleWrite h hstep
  | retrieve len =>
      obtain ⟨buf, -, rfl⟩ := step_retrieve hstep
      exact h.of_quiet Iff.rfl rfl rfl h.settled h.writing
  | ret => exact tracked_ret h hstep

end Step

/-- **Write interest tracks pending output.** In every state of every run, unless
`handleClose()` has run, the channel is writing if and only if bytes wait in
`outputBuffer_`; and whenever a step invokes `writeCompleteCallback_`, no bytes wait and
the channel is not writing. -/
theorem writing_iff_pending (writeComplete : Bool) (is : List Input) (s : Session)
    (hrun : run step (start writeComplete) is = some s) :
    (¬ HasClosed s →
      (s.conn.channel.isWriting = true ↔ s.conn.outputBuffer.readable ≠ [])) ∧
    ∀ i t, step s i = some t → Completes s t →
      t.conn.outputBuffer.readable = [] ∧ t.conn.channel.isWriting = false := by
  have h : Tracks s := Lib.Machine.invariant (fun _ _ _ h hstep => (tracked_step h hstep).inv)
    (tracks_start writeComplete) hrun
  refine ⟨fun hopen => h.writing fun hstate => hopen (h.closed.mp hstate), ?_⟩
  intro i t hstep hcompletes
  exact (tracked_step h hstep).complete hcompletes

/-- Callbacks that send from within callbacks, short writes and a refused one, and the write
events for what waits. -/
def nestedSends : List Input :=
  [.send (ascii "a") 1, .send (ascii "bc") 1, .ret, .ret, .handleWrite (-1), .handleWrite 1,
    .send (ascii "de") 2, .send (ascii "f") 0, .shutdown, .ret, .ret, .handleWrite 1]

theorem writing_iff_pending_nestedSends :
    ∃ s, run step (start true) nestedSends = some s ∧
      (¬ HasClosed s →
        (s.conn.channel.isWriting = true ↔ s.conn.outputBuffer.readable ≠ [])) ∧
      ∀ i t, step s i = some t → Completes s t →
        t.conn.outputBuffer.readable = [] ∧ t.conn.channel.isWriting = false := by
  have hsome : (run step (start true) nestedSends).isSome = true := by decide +kernel
  obtain ⟨s, hs⟩ := Option.isSome_iff_exists.mp hsome
  exact ⟨s, hs, writing_iff_pending true nestedSends s hs⟩

end Session

end Dummyload
