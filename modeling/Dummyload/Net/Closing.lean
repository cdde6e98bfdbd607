import Dummyload.Net.HalfClose

/-!
# Dummyload.Net.Closing

What `send()` does once the connection is closing or closed. It does not look at
`state_`, so it writes, or buffers and asks for write events again, unless it has
nothing to send (`closing_silent`). Without such a `send`, nothing is written
after `shutdownWrite()`, and after `handleClose()` the channel stays unregistered.
-/

namespace Dummyload

namespace Session

open Lib.Machine (run Meets)

/-- `shutdown()` was called while the connection was up, or `handleClose()` has run. -/
def Closing (s : Session) : Prop :=
  s.conn.state = .kDisconnecting ∨ s.conn.state = .kDisconnected

/-- On a closing connection `send()` does nothing to it: no `::write`, no bytes in
`outputBuffer_`, no `epoll_ctl`. -/
def Silent (s : Session) (i : Input) : Prop :=
  match i with
  | .send _ _ => Closing s → ∀ t ∈ step s i, t.conn = s.conn
  | _ => True

/-- On a closing connection `send()` has nothing to send, behind output that waits. -/
def Mute (s : Session) : Input → Prop
  | .send message _ =>
    Closing s → (s.conn.channel.isWriting = true ∨ s.conn.outputBuffer.readable ≠ []) ∧
      toSize (toInt message.length) = 0
  | _ => True

/-- `shutdown()` is not called in the `writeCompleteCallback_` of `handleWrite` when this
callback has sent more. -/
def Uninterrupted (s : Session) : Input → Prop
  | .shutdown => s.conn.state = .kConnected → Frame.handleWrite ∈ s.stack →
      s.conn.channel.isWriting = false
  | _ => True

/-- `epoll` reports nothing for a descriptor that is not registered. -/
def Polled (s : Session) : Input → Prop
  | .handleRead _ => s.conn.channel.registered ≠ none
  | _ => True

/-- No `::write` is attempted after `shutdownWrite()`. -/
def NoWriteAfter (effects : List Effect) : Prop :=
  effects.Pairwise fun e e' => e = .shutdownWrite → ∀ count result, e' ≠ .write count result

/-! ### What `send` does on a closing connection -/

theorem silent_iff_mute {s t : Session} {i : Input} (hstep : step s i = some t) :
    Silent s i ↔ Mute s i := by
  cases i with
  | send message result =>
      refine forall_congr' fun _ => ?_
      have hsilent : (∀ u ∈ step s (.send message result), u.conn = s.conn) ↔ t.conn = s.conn := by
        rw [hstep]
        simp
      rw [hsilent]
      obtain ⟨⟨conn, frame⟩, hsend, rfl⟩ := step_send hstep
      -- a `::write` leaves an effect
      have hwrote : ∀ es : List Effect,
          s.conn.effects ++ [.write (toSize (toInt message.length)) result] ++ es ≠
            s.conn.effects := by
        intro es heq
        have := congrArg List.length heq
        simp at this
      have hbusy : s.conn.channel.isWriting = false → s.conn.outputBuffer.readable = [] →
          ¬ (s.conn.channel.isWriting = true ∨ s.conn.outputBuffer.readable ≠ []) := by
        intro hw hr
        simp [hw, hr]
      cases TcpConnection.send_cases hsend with
      | complete hwriting hempty hall =>
          refine iff_of_false (fun heq => ?_) fun h => hbusy hwriting hempty h.1
          exact hwrote [.writeCompleteCallback] (congrArg TcpConnection.effects heq)
      | direct hwriting hempty hend =>
          refine iff_of_false (fun heq => ?_) fun h => hbusy hwriting hempty h.1
          cases hend with
          | done hall =>
              exact hwrote [] ((List.append_nil _).trans (congrArg TcpConnection.effects heq))
          | kept hpart hrest hbuf =>
              exact hwrote [] ((List.append_nil _).trans (congrArg TcpConnection.effects heq))
      | queued hbusy hend =>
          cases hend with
          | done hall =>
              refine iff_of_true rfl ⟨hbusy, ?_⟩
              rw [show toSize 0 = 0 from rfl] at hall
              omega
          | kept hpart hrest hbuf =>
              refine iff_of_false (fun heq => hrest ?_) fun h => ?_
              · have hread := congrArg (fun conn => conn.outputBuffer.readable) heq
                simpa [TcpConnection.keep, Session.after, hbuf] using hread
              · rw [h.2] at hpart
                cases hpart
  | shutdown => exact Iff.rfl
  | handleRead r => exact Iff.rfl
  | handleWrite result => exact Iff.rfl
  | retrieve len => exact Iff.rfl
  | ret => exact Iff.rfl

/-! ### After the half-close -/

theorem NoWriteAfter.append {effects : List Effect} {e : Effect} (h : NoWriteAfter effects)
    (he : .shutdownWrite ∈ effects → ∀ count result, e ≠ .write count result) :
    NoWriteAfter (effects ++ [e]) := by
  refine List.pairwise_append.mpr ⟨h, List.pairwise_singleton _ _, ?_⟩
  intro e₁ he₁ e₂ he₂ hclose
  obtain rfl := List.mem_singleton.mp he₂
  rw [hclose] at he₁
  exact he he₁

/-- A connection on which `send()` is silent once it is closing. -/
structure Quiet (s : Session) : Prop where
  effects : NoWriteAfter s.conn.effects
  closed : .shutdownWrite ∈ s.conn.effects → Closing s ∧ s.conn.channel.isWriting = false
  drained : s.conn.state = .kDisconnecting → Frame.handleWrite ∈ s.stack →
    s.conn.channel.isWriting = false
  settled : ∀ f ∈ s.stack, f.Settled
  reads : s.conn.state ≠ .kDisconnected → s.conn.channel.Reads
  unregistered : s.conn.state = .kDisconnected →
    s.conn.channel.registered = none ∧ s.conn.channel.isWriting = false

theorem noWriteAfter_of_not_mem {effects : List Effect} (h : .shutdownWrite ∉ effects) :
    NoWriteAfter effects :=
  List.pairwise_of_forall_mem_list fun _ he _ _ hclose => absurd (hclose ▸ he) h

/-- The sending side is open. -/
theorem Quiet.of_open {s : Session} (hstate : s.conn.state ≠ .kDisconnected)
    (heffects : .shutdownWrite ∉ s.conn.effects)
    (hdrained : s.conn.state = .kDisconnecting → Frame.handleWrite ∈ s.stack →
      s.conn.channel.isWriting = false)
    (hsettled : ∀ f ∈ s.stack, f.Settled) (hreads : s.conn.channel.Reads) : Quiet s where
  effects := noWriteAfter_of_not_mem heffects
  closed hmem := absurd hmem heffects
  drained := hdrained
  settled := hsettled
  reads _ := hreads
  unregistered hd := absurd hd hstate

/-- The connection is up. -/
theorem Quiet.of_up {s : Session} (hup : ¬ Closing s) (heffects : .shutdownWrite ∉ s.conn.effects)
    (hsettled : ∀ f ∈ s.stack, f.Settled) (hreads : s.conn.channel.Reads) : Quiet s :=
  .of_open (fun hd => hup (Or.inr hd)) heffects (fun hd => absurd (Or.inl hd) hup) hsettled hreads

theorem quiet_start (writeComplete : Bool) : Quiet (start writeComplete) := by
  refine .of_up ?_ ?_ ?_ ?_
  · simp [Closing, start, TcpConnection.connectEstablished, TcpConnection.emit]
  · simp [start, TcpConnection.connectEstablished, TcpConnection.emit]
  · simp [start, TcpConnection.connectEstablished, Frame.Settled]
  · show Channel.Reads (Channel.enableReading {})
    exact ⟨by decide, by decide⟩

theorem Quiet.not_mem {s : Session} (h : Quiet s)
    (hbusy : ¬ Closing s ∨ s.conn.channel.isWriting = true) :
    Effect.shutdownWrite ∉ s.conn.effects := by
  intro hmem
  obtain ⟨hclosing, hwriting⟩ := h.closed hmem
  rcases hbusy with hnot | hw
  · exact hnot hclosing
  · rw [hwriting] at hw
    cases hw

/-- A callback is invoked, or nothing happens that matters here. -/
theorem Quiet.of_effects {s t : Session} (h : Quiet s) (es : List Effect)
    (hstate : t.conn.state = s.conn.state) (hchannel : t.conn.channel = s.conn.channel)
    (heffects : t.conn.effects = s.conn.effects ++ es)
    (hes : ∀ e ∈ es, e ≠ .shutdownWrite ∧ ∀ count result, e ≠ .write count result)
    (hstack : Frame.handleWrite ∈ t.stack → Frame.handleWrite ∈ s.stack)
    (hsettled : ∀ f ∈ t.stack, f.Settled) : Quiet t := by
  have hclosing : Closing t ↔ Closing s := by rw [Closing, Closing, hstate]
  exact {
    effects := by
      rw [heffects]
      refine List.pairwise_append.mpr ⟨h.effects, ?_, fun _ _ e' he' _ => (hes e' he').2⟩
      exact List.pairwise_of_forall_mem_list fun e he e' he' hclose => absurd hclose (hes e he).1
    closed := by
      rw [heffects, hclosing, hchannel]
      intro hmem
      rcases List.mem_append.mp hmem with hmem | hmem
      · exact h.closed hmem
      · exact absurd rfl (hes _ hmem).1
    drained := by
      rw [hstate, hchannel]
      exact fun hd hmem => h.drained hd (hstack hmem)
    settled := hsettled
    reads := by rw [hstate, hchannel]; exact h.reads
    unregistered := by rw [hstate, hchannel]; exact h.unregistered }

theorem quiet_send {s t : Session} {message : Bytes} {result : Int} (h : Quiet s)
    (hi : Mute s (.send message result)) (hstep : step s (.send message result) = some t) :
    Quiet t := by
  obtain ⟨⟨conn, frame⟩, hsend, rfl⟩ := step_send hstep
  by_cases hclosing : Closing s
  · -- nothing to send, and nothing is done
    obtain ⟨hbusy, hlen⟩ := hi hclosing
    have hidle : s.conn.channel.isWriting = false → s.conn.outputBuffer.readable = [] → False := by
      intro hw hr
      simp [hw, hr] at hbusy
    cases TcpConnection.send_cases hsend with
    | complete hwriting hempty hall => exact (hidle hwriting hempty).elim
    | direct hwriting hempty hend => exact (hidle hwriting hempty).elim
    | queued hbusy hend =>
        cases hend with
        | done hall =>
            exact h.of_effects [] rfl rfl (List.append_nil _).symm (by simp) (fun hm => hm)
              h.settled
        | kept hpart hrest hbuf =>
            rw [hlen] at hpart
            cases hpart
  · have hnot := h.not_mem (Or.inl hclosing)
    have hreads := h.reads fun hd => hclosing (Or.inr hd)
    have hkeep : ∀ (conn : TcpConnection) (buf : Buffer), conn.channel = s.conn.channel →
        (conn.keep buf).channel.Reads := by
      intro conn buf hchannel
      rw [TcpConnection.keep, hchannel]
      dsimp only
      split
      · exact hreads
      · exact hreads.enableWriting
    have hwrote : Effect.shutdownWrite ∉
        (s.conn.wrote message (toSize (toInt message.length)) result).effects := by
      simp [TcpConnection.wrote, TcpConnection.emit, hnot]
    cases TcpConnection.send_cases hsend with
    | complete hwriting hempty hall =>
        refine .of_up hclosing ?_ (List.forall_mem_cons.mpr ⟨hall, h.settled⟩) hreads
        simpa [TcpConnection.emit, Session.after] using hwrote
    | direct hwriting hempty hend =>
        cases hend with
        | done hall => exact .of_up hclosing hwrote h.settled hreads
        | kept hpart hrest hbuf => exact .of_up hclosing hwrote h.settled (hkeep _ _ rfl)
    | queued hbusy hend =>
        cases hend with
        | done hall => exact .of_up hclosing hnot h.settled hreads
        | kept hpart hrest hbuf => exact .of_up hclosing hnot h.settled (hkeep _ _ rfl)

theorem quiet_shutdown {s t : Session} (h : Quiet s) (hi : Uninterrupted s .shutdown)
    (hstep : step s .shutdown = some t) : Quiet t := by
  obtain rfl := Option.some.inj hstep
  rw [TcpConnection.shutdown]
  split
  · rename_i hup
    have hopen : ¬ Closing s := by simp [Closing, hup]
    have hreads := h.reads (by rw [hup]; decide)
    dsimp only
    split
    · rename_i hidle
      rw [Bool.not_eq_true] at hidle
      exact {
        effects := h.effects.append fun _ _ _ heq => by cases heq
        closed := fun _ => ⟨Or.inl rfl, hidle⟩
        drained := fun _ _ => hidle
        settled := h.settled
        reads := fun _ => hreads
        unregistered := fun hd => by cases hd }
    · exact .of_open (by simp) (h.not_mem (Or.inl hopen)) (fun _ hmem => hi hup hmem) h.settled
        hreads
  · exact h

/-- The end of `handleWrite`. -/
theorem quiet_handleWriteRest {s t : Session} (conn : TcpConnection)
    (h : Quiet { s with conn := conn })
    (hdrained : conn.state = .kDisconnecting → conn.channel.isWriting = false)
    (hconn : t.conn = conn.handleWriteRest)
    (hstack : ∀ f ∈ t.stack, f ∈ s.stack) : Quiet t := by
  rw [TcpConnection.handleWriteRest] at hconn
  split at hconn
  · rename_i hd
    exact {
      effects := by rw [hconn]; exact h.effects.append fun _ _ _ heq => by cases heq
      closed := fun _ => by rw [Closing, hconn]; exact ⟨Or.inl hd, hdrained hd⟩
      drained := fun _ _ => by rw [hconn]; exact hdrained hd
      settled := fun f hf => h.settled f (hstack f hf)
      reads := by rw [hconn]; exact h.reads
      unregistered := by rw [hconn]; exact h.unregistered }
  · exact h.of_effects [] (by rw [hconn]) (by rw [hconn])
      (by rw [hconn, List.append_nil]) (by simp) (hstack _) fun f hf => h.settled f (hstack f hf)

theorem quiet_handleWrite {s t : Session} {result : Int} (h : Quiet s)
    (hstep : step s (.handleWrite result) = some t) : Quiet t := by
  obtain ⟨hstack, ⟨conn, frame⟩, hwrite, rfl⟩ := step_handleWrite hstep
  -- what writes has its sending side open
  have hopen : s.conn.channel.isWriting = true → s.conn.state ≠ .kDisconnected := by
    intro hw hd
    rw [(h.unregistered hd).2] at hw
    cases hw
  have hwrote : s.conn.channel.isWriting = true →
      .shutdownWrite ∉ (s.conn.wrote s.conn.outputBuffer.readable
        s.conn.outputBuffer.readableBytes result).effects := by
    intro hw
    simp [TcpConnection.wrote, TcpConnection.emit, h.not_mem (Or.inr hw)]
  cases TcpConnection.handleWrite_cases hwrite with
  | idle hwriting =>
      exact h.of_effects [] rfl rfl (List.append_nil _).symm (by simp) (fun hm => hm)
        h.settled
  | refused hwriting =>
      refine .of_open (hopen hwriting) (hwrote hwriting) ?_ h.settled (h.reads (hopen hwriting))
      simp [Session.after, hstack]
  | part hwriting hbuf =>
      refine .of_open (hopen hwriting) (hwrote hwriting) ?_ h.settled (h.reads (hopen hwriting))
      simp [Session.after, hstack]
  | complete hwriting hbuf =>
      refine .of_open (hopen hwriting) ?_ (fun _ _ => Channel.isWriting_disableWriting _) ?_
        (h.reads (hopen hwriting)).disableWriting
      · simpa [TcpConnection.emit, TcpConnection.drain, Session.after] using hwrote hwriting
      · exact List.forall_mem_cons.mpr ⟨trivial, h.settled⟩
  | @drained buf hwriting hbuf =>
      refine quiet_handleWriteRest (s := s) ((s.conn.wrote _ _ _).drain buf) ?_
        (fun _ => Channel.isWriting_disableWriting _) rfl (fun _ hf => hf)
      exact .of_open (hopen hwriting) (hwrote hwriting)
        (fun _ _ => Channel.isWriting_disableWriting _) h.settled
        (h.reads (hopen hwriting)).disableWriting

theorem quiet_ret {s t : Session} (h : Quiet s) (hstep : step s .ret = some t) : Quiet t := by
  obtain ⟨frame, stack, conn, hstack, hresume, rfl⟩ := step_ret hstep
  have hmem : ∀ f ∈ stack, f ∈ s.stack := fun f hf => by
    rw [hstack]
    exact List.mem_cons_of_mem _ hf
  have hsame : Quiet { s with stack := stack } :=
    h.of_effects [] rfl rfl (List.append_nil _).symm (by simp) (hmem _)
      fun f hf => h.settled f (hmem f hf)
  cases frame with
  | handleWrite =>
      obtain rfl := Option.some.inj hresume
      refine quiet_handleWriteRest s.conn h (fun hd => h.drained hd ?_) rfl hmem
      rw [hstack]
      exact List.mem_cons_self
  | connectEstablished =>
      obtain rfl := Option.some.inj hresume
      exact hsame
  | handleRead =>
      obtain rfl := Option.some.inj hresume
      exact hsame
  | handleClose =>
      obtain rfl := Option.some.inj hresume
      exact hsame.of_effects [.closeCallback] rfl rfl rfl (by simp) (fun hm => hm)
        hsame.settled
  | send data len nwrote =>
      cases TcpConnection.sendRest_cases hresume with
      | done hall => exact hsame
      | kept hpart hrest hbuf =>
          refine absurd hpart (h.settled (.send data len nwrote) ?_)
          rw [hstack]
          exact List.mem_cons_self

theorem quiet_handleRead {s t : Session} {r : Buffer.Readv} (h : Quiet s)
    (hi : Polled s (.handleRead r)) (hstep : step s (.handleRead r) = some t) : Quiet t := by
  obtain ⟨hstack, ⟨conn, frame⟩, hread, rfl⟩ := step_handleRead hstep
  have hsettled : ∀ f ∈ Frame.handleRead :: s.stack, f.Settled :=
    List.forall_mem_cons.mpr ⟨trivial, h.settled⟩
  obtain ⟨buf, ⟨rfl, rfl⟩ | hclose | ⟨rfl, rfl⟩⟩ := TcpConnection.handleRead_cases hread
  · refine h.of_effects [.messageCallback] rfl rfl rfl (by simp) ?_ hsettled
    simp [Session.after]
  · -- the channel was registered, so this is the first `handleClose`
    obtain ⟨rfl, rfl⟩ := Prod.mk.inj hclose
    have hopen : s.conn.state ≠ .kDisconnected := fun hd => hi (h.unregistered hd).1
    exact {
      effects := h.effects.append fun _ _ _ heq => by cases heq
      closed := fun _ => ⟨Or.inr rfl, Channel.isWriting_disableAll _⟩
      drained := fun hd => by cases hd
      settled := List.forall_mem_cons.mpr ⟨trivial, h.settled⟩
      reads := fun hd => absurd rfl hd
      unregistered := fun _ => ⟨(h.reads hopen).disableAll, Channel.isWriting_disableAll _⟩ }
  · exact h.of_effects [] rfl rfl (List.append_nil _).symm (by simp) (fun hm => hm)
      h.settled

theorem quiet_step {s t : Session} {i : Input} (h : Quiet s)
    (hi : (Mute s i ∧ Uninterrupted s i) ∧ Polled s i) (hstep : step s i = some t) : Quiet t := by
  cases i with
  | send message result => exact quiet_send h hi.1.1 hstep
  | shutdown => exact quiet_shutdown h hi.1.2 hstep
  | handleRead r => exact quiet_handleRead h hi.2 hstep
  | handleWrite result => exact quiet_handleWrite h hstep
  | retrieve len =>
      obtain ⟨buf, -, rfl⟩ := step_retrieve hstep
      exact h.of_effects [] rfl rfl (List.append_nil _).symm (by simp) (fun hm => hm)
        h.settled
  | ret => exact quiet_ret h hstep

/-- **`send()` on a closing connection.** In a run, every such `send` is without effect if and
only if each has nothing to send. Then, unless `shutdown()` interrupts a `handleWrite` that
has more to do, no `::write` is attempted after `shutdownWrite()`, and the channel stays
unregistered after `handleClose()`. -/
theorem closing_silent (writeComplete : Bool) (is : List Input) (s : Session)
    (hpolled : Meets step Polled (start writeComplete) is)
    (hrun : run step (start writeComplete) is = some s) :
    (Meets step Silent (start writeComplete) is ↔ Meets step Mute (start writeComplete) is) ∧
      (Meets step Mute (start writeComplete) is →
        Meets step Uninterrupted (start writeComplete) is →
          NoWriteAfter s.conn.effects ∧
            (s.conn.state = .kDisconnected → s.conn.channel.registered = none)) := by
  refine ⟨Lib.Machine.meets_congr_of_run (fun _ _ _ hstep => silent_iff_mute hstep) hrun, ?_⟩
  intro hmute huninterrupted
  have h : Quiet s := Lib.Machine.invariant_of_meets (fun _ _ _ h hi hstep => quiet_step h hi hstep)
    (quiet_start writeComplete)
    (Lib.Machine.meets_and.mpr ⟨Lib.Machine.meets_and.mpr ⟨hmute, huninterrupted⟩, hpolled⟩) hrun
  exact ⟨h.effects, fun hd => (h.unregistered hd).1⟩

instance (s : Session) : Decidable (Closing s) := inferInstanceAs (Decidable (_ ∨ _))

instance (s : Session) : (i : Input) → Decidable (Mute s i)
  | .send _ _ => inferInstanceAs (Decidable (_ → _))
  | .shutdown => .isTrue trivial
  | .handleRead _ => .isTrue trivial
  | .handleWrite _ => .isTrue trivial
  | .retrieve _ => .isTrue trivial
  | .ret => .isTrue trivial

instance (s : Session) : (i : Input) → Decidable (Uninterrupted s i)
  | .shutdown => inferInstanceAs (Decidable (_ → _ → _))
  | .send _ _ => .isTrue trivial
  | .handleRead _ => .isTrue trivial
  | .handleWrite _ => .isTrue trivial
  | .retrieve _ => .isTrue trivial
  | .ret => .isTrue trivial

instance (s : Session) : (i : Input) → Decidable (Polled s i)
  | .handleRead _ => inferInstanceAs (Decidable (_ ≠ _))
  | .send _ _ => .isTrue trivial
  | .shutdown => .isTrue trivial
  | .handleWrite _ => .isTrue trivial
  | .retrieve _ => .isTrue trivial
  | .ret => .isTrue trivial

/-- `shutdown()` with bytes to write, which are written; then the peer closes. -/
def shutdownThenClosed : List Input :=
  [.send (ascii "ab") 1, .shutdown, .send [] 0, .ret, .handleWrite 1, .ret,
    .handleRead (.bytes []), .ret]

theorem closing_silent_shutdownThenClosed :
    ∃ s, run step (start true) shutdownThenClosed = some s ∧ s.conn.state = .kDisconnected ∧
      Meets step Silent (start true) shutdownThenClosed ∧ NoWriteAfter s.conn.effects ∧
      s.conn.channel.registered = none := by
  have hstate : (run step (start true) shutdownThenClosed).map (fun s => s.conn.state) =
      some .kDisconnected := by decide +kernel
  have hmute : Meets step Mute (start true) shutdownThenClosed := by decide +kernel
  obtain ⟨s, hs, hd⟩ := Option.map_eq_some_iff.mp hstate
  obtain ⟨hsilent, hrest⟩ := closing_silent true shutdownThenClosed s (by decide +kernel) hs
  obtain ⟨heffects, hregistered⟩ := hrest hmute (by decide +kernel)
  exact ⟨s, hs, hd, hsilent.mpr hmute, heffects, hregistered hd⟩

/-- A message after `shutdown()`. -/
def sendAfterShutdown : List Input := [.ret, .shutdown, .send (ascii "a") (-1)]

/-- In `sendAfterShutdown` the message goes to `::write`. -/
theorem closing_not_always_silent :
    ¬ ∀ (writeComplete : Bool) (is : List Input) (s : Session),
      Meets step Polled (start writeComplete) is → run step (start writeComplete) is = some s →
        Meets step Silent (start writeComplete) is ∧ NoWriteAfter s.conn.effects ∧
          (s.conn.state = .kDisconnected → s.conn.channel.registered = none) := by
  intro h
  have hsome : (run step (start true) sendAfterShutdown).isSome = true := by decide +kernel
  obtain ⟨s, hs⟩ := Option.isSome_iff_exists.mp hsome
  have hsilent := (h true sendAfterShutdown s (by decide +kernel) hs).1
  rw [Lib.Machine.meets_congr_of_run (fun _ _ _ hstep => silent_iff_mute hstep) hs] at hsilent
  exact absurd hsilent (by decide +kernel)

end Session

end Dummyload
