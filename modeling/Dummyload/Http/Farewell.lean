import Dummyload.Http.Serving

/-!
# Dummyload.Http.Farewell

The end of a connection of the HTTP server. `onMessage` calls `shutdown()` behind its last `send`;
the sending side is closed when the output has drained, so behind all replies
(`closed_behind_sent`), unless the client sends another request that is answered too.
As long as the socket takes bytes the output drains (`drains`).
-/

namespace Dummyload

namespace TcpConnection

variable {conn : TcpConnection}

theorem state_shutdown (conn : TcpConnection) : conn.shutdown.state =
    if conn.state = .kConnected then .kDisconnecting else conn.state := by
  rw [shutdown]
  split
  · dsimp only
    split <;> rfl
  · rfl

theorem outputBuffer_shutdown (conn : TcpConnection) :
    conn.shutdown.outputBuffer = conn.outputBuffer := by
  rw [shutdown]
  split
  · dsimp only
    split <;> rfl
  · rfl

theorem channel_shutdown (conn : TcpConnection) : conn.shutdown.channel = conn.channel := by
  rw [shutdown]
  split
  · dsimp only
    split <;> rfl
  · rfl

/-- Without write interest `handleWrite` does nothing. -/
theorem handleWrite_idle {result : Int} (hwriting : conn.channel.isWriting = false) :
    conn.handleWrite result = some (conn, none) := by
  rw [handleWrite, if_neg (by simp [hwriting])]

/-- The kernel takes the next bytes of the output. -/
theorem handleWrite_takes {k : Nat} (hwriting : conn.channel.isWriting = true) (hk : 0 < k)
    (hle : k ≤ conn.outputBuffer.readable.length) :
    ∃ out, conn.handleWrite k = some out ∧
      out.1.outputBuffer.readable = conn.outputBuffer.readable.drop k := by
  have hbytes : k ≤ conn.outputBuffer.readableBytes := by
    rwa [Buffer.length_readable] at hle
  obtain ⟨buf, hretrieve, hread⟩ := Buffer.retrieve_eq_some hbytes
  have hwrite : conn.write conn.outputBuffer.readable conn.outputBuffer.readableBytes k =
      some (conn.wrote conn.outputBuffer.readable conn.outputBuffer.readableBytes k) :=
    if_pos ⟨by omega, by omega, by omega⟩
  have hretrieve' : (conn.wrote conn.outputBuffer.readable conn.outputBuffer.readableBytes
      k).outputBuffer.retrieve (k : Int).toNat = some buf := hretrieve
  have hpos : (k : Int) > 0 := by omega
  rw [handleWrite, if_pos hwriting, hwrite, Option.bind_some, if_pos hpos, hretrieve',
    Option.map_some]
  refine ⟨_, rfl, ?_⟩
  dsimp only
  split
  · split
    · exact hread
    · rw [handleWriteRest]
      split <;> exact hread
  · exact hread

end TcpConnection

namespace HttpSession

open Lib.Machine (run run_cons_eq_some Meets)
open Session (HalfClosing Closes)

/-! ### Closing the sending side -/

/-- Once the sending side is closed, nothing waits to be written. -/
structure Shuts (u : Session) : Prop where
  closing : HalfClosing u
  drained : u.conn.halfCloses = 1 → u.conn.outputBuffer.readable = []
  down : u.conn.state = .kDisconnected → u.conn.channel.isWriting = false

section Steps

variable {u v : Session} {result : Int}

/-- And nothing is about to be. -/
theorem Shuts.idle (h : Shuts u) (hone : u.conn.halfCloses = 1) :
    u.conn.channel.isWriting = false := by
  cases hstate : u.conn.state with
  | kConnecting =>
      rw [h.closing.up (Or.inl hstate)] at hone
      cases hone
  | kConnected =>
      rw [h.closing.up (Or.inr hstate)] at hone
      cases hone
  | kDisconnecting =>
      have hiff := h.closing.writing (by rw [hstate]; decide)
      by_contra hwriting
      exact hiff.mp (by simpa using hwriting) (h.drained hone)
  | kDisconnected => exact h.down hstate

theorem Shuts.of_closes (h : Closes u v)
    (hdrained : u.conn.halfCloses = 1 → v.conn.outputBuffer.readable = [])
    (hdown : v.conn.state = .kDisconnected → v.conn.channel.isWriting = false) : Shuts v where
  closing := h.inv
  drained hone := by
    rcases h.graceful with hsame | ⟨-, -, hempty⟩
    · exact hdrained (hsame.symm.trans hone)
    · exact hempty
  down := hdown

theorem Shuts.shutdown (h : Shuts u) (hstack : u.stack = [.handleRead])
    (hstep : u.step .shutdown = some v) : Shuts v := by
  have hcloses := Session.closes_shutdown h.closing (fun _ => by rw [hstack]; decide) hstep
  obtain rfl := Option.some.inj hstep
  refine .of_closes hcloses (fun hone => ?_) fun hdown => ?_
  · show u.conn.shutdown.outputBuffer.readable = []
    rw [TcpConnection.outputBuffer_shutdown]
    exact h.drained hone
  · show u.conn.shutdown.channel.isWriting = false
    rw [TcpConnection.channel_shutdown]
    refine h.down ?_
    have hstate : u.conn.shutdown.state = .kDisconnected := hdown
    rw [TcpConnection.state_shutdown] at hstate
    split at hstate
    · cases hstate
    · exact hstate

/-- A reply is sent while the connection is up. -/
theorem Shuts.send {message : Bytes} (h : Shuts u) (hup : u.conn.state = .kConnected)
    (hstate : v.conn.state = u.conn.state) (hstep : u.step (.send message result) = some v) :
    Shuts v := by
  have horderly : Session.Orderly u (.send message result) := by
    intro hd
    rw [hup] at hd
    cases hd
  refine .of_closes (Session.closes_send h.closing horderly hstep) (fun hone => ?_) fun hdown => ?_
  · rw [h.closing.up (Or.inr hup)] at hone
    cases hone
  · rw [hstate, hup] at hdown
    cases hdown

theorem Shuts.ret {frame : Frame} (h : Shuts u) (hstack : u.stack = [frame])
    (hframe : frame = .handleRead ∨ frame = .handleClose) (hstep : u.step .ret = some v) :
    Shuts v ∧ v.conn.state = u.conn.state := by
  have hcloses := Session.closes_ret h.closing hstep
  obtain ⟨frame', stack, conn, hstack', hresume, rfl⟩ := Session.step_ret hstep
  obtain ⟨rfl, rfl⟩ := List.cons.inj (hstack.symm.trans hstack')
  rcases hframe with rfl | rfl <;> obtain rfl := Option.some.inj hresume <;>
    exact ⟨.of_closes hcloses h.drained h.down, rfl⟩

theorem Shuts.handleRead {r : Buffer.Readv} (h : Shuts u)
    (hstep : u.step (.handleRead r) = some v) :
    Shuts v ∧ (v.conn.state = u.conn.state ∨
      v.conn.state = .kDisconnected ∧ v.stack.head? = some .handleClose) := by
  have hcloses := Session.closes_handleRead h.closing hstep
  obtain ⟨-, ⟨conn, frame⟩, hread, rfl⟩ := Session.step_handleRead hstep
  obtain ⟨buf, ⟨rfl, rfl⟩ | hclose | ⟨rfl, rfl⟩⟩ := TcpConnection.handleRead_cases hread
  · exact ⟨.of_closes hcloses h.drained h.down, Or.inl rfl⟩
  · obtain ⟨rfl, rfl⟩ := Prod.mk.inj hclose
    exact ⟨.of_closes hcloses h.drained fun _ => Channel.isWriting_disableAll _,
      Or.inr ⟨rfl, rfl⟩⟩
  · exact ⟨.of_closes hcloses h.drained h.down, Or.inl rfl⟩

theorem Shuts.handleWrite (h : Shuts u) (hcallback : u.conn.writeComplete = false)
    (hstep : u.step (.handleWrite result) = some v) :
    Shuts v ∧ v.conn.state = u.conn.state := by
  have hcloses := Session.closes_handleWrite h.closing hstep
  obtain ⟨-, ⟨conn, frame⟩, hwrite, rfl⟩ := Session.step_handleWrite hstep
  obtain ⟨-, -, -, hstate⟩ := TcpConnection.handleWrite_noCallback hcallback hwrite
  -- without write interest nothing happens
  have hidle : u.conn.channel.isWriting = false → conn = u.conn := fun hwriting => by
    rw [TcpConnection.handleWrite_idle hwriting] at hwrite
    exact (Prod.mk.inj (Option.some.inj hwrite)).1.symm
  refine ⟨.of_closes hcloses (fun hone => ?_) fun hdown => ?_, hstate⟩
  · show conn.outputBuffer.readable = []
    rw [hidle (h.idle hone)]
    exact h.drained hone
  · have hwriting := h.down (hstate.symm.trans hdown)
    show conn.channel.isWriting = false
    rw [hidle hwriting, hwriting]

theorem Shuts.setInputBuffer (h : Shuts u) (buf : Buffer) :
    Shuts { u with conn := { u.conn with inputBuffer := buf } } where
  closing := h.closing.of_same rfl rfl rfl rfl rfl h.closing.settled
  drained := h.drained
  down := h.down

end Steps

/-! ### The calls of `onMessage` -/

variable {α : Type*} {httpCallback : HttpCallback α} {fuel : Nat} {s t : HttpSession α}

/-- The calls behind the parser: nothing, or one `send`, and then `shutdown()` if the connection
is not to be kept. -/
theorem Serves.perform_cases {app : α} {as : List Action} (h : Serves httpCallback app as)
    (u : Session) (results : List Int) :
    as = [] ∨ ∃ message close, sent as = [message] ∧ (Action.shutdown ∈ as ↔ close = true) ∧
      perform u as results =
        perform u (.send message :: if close then [.shutdown] else []) results := by
  cases h with
  | waits => exact Or.inl rfl
  | rejects => exact Or.inr ⟨badRequest, true, rfl, by simp, rfl⟩
  | answers req =>
      refine Or.inr ⟨_,
        (httpCallback app req { closeConnection := wantsClose req }).2.closeConnection, ?_, ?_, rfl⟩
      · exact sent_answer httpCallback app req
      · rw [answer]
        split <;> simp_all

/-- A reply is sent while the connection is up, and nothing when it is not. -/
theorem shuts_perform {u v : Session} {app : α} {as : List Action} {results : List Int}
    {messages : List Bytes} (hserves : Serves httpCallback app as) (h : Shuts u)
    (hout : Outputs u [.handleRead] messages) (hlen : Sendable (sent as))
    (hres : ∀ result ∈ results, result ≠ -1) (hquiet : u.conn.state ≠ .kConnected → sent as = [])
    (hperform : perform u as results = some v) :
    Shuts v ∧ v.stack = [.handleRead] ∧
      (v.conn.state = u.conn.state ∧ Action.shutdown ∉ as ∨ v.conn.state = .kDisconnecting) := by
  rcases hserves.perform_cases u results with rfl | ⟨message, close, hsent, hclose, heq⟩
  · obtain rfl := Option.some.inj hperform
    exact ⟨h, hout.stack, Or.inl ⟨rfl, List.not_mem_nil⟩⟩
  · have hup : u.conn.state = .kConnected := by
      by_contra hdown
      rw [hquiet hdown] at hsent
      cases hsent
    rw [hsent] at hlen
    rw [heq] at hperform
    obtain ⟨u', hstep, hrest⟩ := Option.bind_eq_some_iff.mp hperform
    obtain ⟨hout', -, hstate⟩ :=
      hout.send (hlen message List.mem_cons_self) (headD_ne hres) hstep
    have h' := h.send hup hstate hstep
    cases close with
    | false =>
        obtain rfl := Option.some.inj hrest
        exact ⟨h', hout'.stack, Or.inl ⟨hstate, fun hmem => Bool.false_ne_true (hclose.mp hmem)⟩⟩
    | true =>
        obtain ⟨u'', hstep', hrest⟩ := Option.bind_eq_some_iff.mp hrest
        obtain rfl := Option.some.inj hrest
        refine ⟨h'.shutdown hout'.stack hstep', (hout'.shutdown hstep').1.stack, Or.inr ?_⟩
        obtain rfl := Option.some.inj hstep'
        show u'.conn.shutdown.state = .kDisconnecting
        rw [TcpConnection.state_shutdown, if_pos (hstate.trans hup)]

/-! ### Events -/

/-- The events of a client that sends nothing more once the server has shut down, on a socket
that refuses no `::write`. -/
def Final (httpCallback : HttpCallback α) (fuel : Nat) (s : HttpSession α) (e : Event) : Prop :=
  Unrefused e ∧ (s.session.conn.state ≠ .kConnected →
    ∀ t, step httpCallback fuel s e = some t → sent t.actions = sent s.actions)

/-- A write event answers nothing. -/
theorem final_writable (httpCallback : HttpCallback α) (fuel : Nat) (s : HttpSession α)
    (result : Int) : Final httpCallback fuel s (.writable result) := by
  refine ⟨trivial, fun _ t ht => ?_⟩
  obtain ⟨v, -, rfl⟩ := Option.map_eq_some_iff.mp ht
  rfl

/-- The connection between two events. -/
structure Serving (s : HttpSession α) : Prop where
  outputs : Outputs s.session [] (sent s.actions)
  shuts : Shuts s.session
  up : s.session.conn.state ≠ .kConnecting
  asked : .shutdown ∈ s.actions → s.session.conn.state ≠ .kConnected

theorem serving_accepted (app : α) : Serving (accepted app) where
  outputs := outputs_accepted app
  shuts :=
    { closing := (Session.halfClosing_start false).of_same rfl rfl rfl rfl rfl
        fun _ h => nomatch h
      drained := fun h => by cases h
      down := fun h => by cases h }
  up h := by cases h
  asked h := nomatch h

/-- A state that is neither the one before nor the one moved to is not reached. -/
theorem moved_ne {before after target state : StateE} (h : after = before ∨ after = target)
    (hbefore : before ≠ state) (htarget : target ≠ state) : after ≠ state := by
  rcases h with rfl | rfl
  · exact hbefore
  · exact htarget

theorem serving_step {e : Event} (h : Serving s) (he : Final httpCallback fuel s e)
    (hstep : step httpCallback fuel s e = some t) (hlen : Sendable (sent t.actions)) :
    Serving t := by
  have houtputs := outputs_step he.1 h.outputs hstep hlen
  cases e with
  | writable result =>
      obtain ⟨v, hv, rfl⟩ := Option.map_eq_some_iff.mp hstep
      obtain ⟨hshuts, hstate⟩ := h.shuts.handleWrite h.outputs.noCallback hv
      exact ⟨houtputs, hshuts, hstate ▸ h.up, fun hmem => hstate ▸ h.asked hmem⟩
  | readable r results =>
      obtain ⟨u, hu, hcases⟩ := step_readable hstep
      obtain ⟨frames, hout, hframes⟩ := h.outputs.handleRead hu
      obtain ⟨hshuts, hstate⟩ := h.shuts.handleRead hu
      have hmoved := hstate.imp_right And.left
      have hup : u.conn.state ≠ .kConnecting := moved_ne hmoved h.up (by decide)
      have hasked : .shutdown ∈ s.actions → u.conn.state ≠ .kConnected :=
        fun hmem => moved_ne hmoved (h.asked hmem) (by decide)
      rcases hcases with ⟨-, rfl⟩ | ⟨stack, conn, v, w, hstack, hconn, hperform, hret, rfl⟩ |
        ⟨v, hne, hread, hret, rfl⟩
      · exact ⟨houtputs, hshuts, hup, hasked⟩
      · obtain rfl : frames = [.handleRead] := by
          have heq := hout.stack.symm.trans hstack
          rcases hframes with rfl | rfl | rfl
          · cases heq
          · rfl
          · cases heq
        have hsame : u.conn.state = s.session.conn.state := by
          rcases hstate with hstate | ⟨-, hhead⟩
          · exact hstate
          · rw [hstack] at hhead
            cases hhead
        have hquiet : u.conn.state ≠ .kConnected → sent conn.actions = [] := by
          intro hdown
          have hsent := he.2 (hsame ▸ hdown) _ hstep
          rw [sent_append] at hsent
          exact List.append_right_eq_self.mp hsent
        obtain ⟨ok, context, buf, hreturns, rfl⟩ := onMessage_cases hconn
        have hserves := serves_afterParse httpCallback s.app hreturns
        rw [inputBuffer_afterParse] at hperform
        rw [sent_append] at hlen
        obtain ⟨hshutsv, hstackv, hstatev⟩ := shuts_perform hserves (hshuts.setInputBuffer buf)
          (hout.setInputBuffer buf) hlen.of_append_right he.1 hquiet hperform
        obtain ⟨hshutsw, hstatew⟩ := hshutsv.ret hstackv (Or.inl rfl) hret
        refine ⟨houtputs, hshutsw, ?_, fun hmem => ?_⟩
        · rw [hstatew]
          exact moved_ne (hstatev.imp_left And.left) hup (by decide)
        · rcases hstatev with ⟨hstatev, hnot⟩ | hstatev
          · rw [hstatew, hstatev]
            exact hasked ((List.mem_append.mp hmem).resolve_right hnot)
          · rw [hstatew, hstatev]
            decide
      · obtain rfl : frames = [.handleClose] := by
          rcases hframes with rfl | rfl | rfl
          · exact absurd hout.stack hne
          · exact absurd (by rw [hout.stack]; rfl) hread
          · rfl
        obtain ⟨hshutsv, hstatev⟩ := hshuts.ret hout.stack (Or.inr rfl) hret
        refine ⟨houtputs, hshutsv, hstatev ▸ hup, fun hmem => hstatev ▸ hasked ?_⟩
        exact (List.mem_append.mp hmem).resolve_right (by decide)

theorem serving_run {es : List Event} (h : Serving s)
    (hes : Meets (step httpCallback fuel) (Final httpCallback fuel) s es)
    (hrun : run (step httpCallback fuel) s es = some t) (hlen : Sendable (sent t.actions)) :
    Serving t := by
  induction es generalizing s with
  | nil =>
      obtain rfl := Option.some.inj hrun
      exact h
  | cons e es ih =>
      obtain ⟨u, hu, hrest⟩ := run_cons_eq_some.mp hrun
      exact ih (serving_step h hes.1 hu (hlen.of_prefix (sent_run hrest))) (hes.2 u hu) hrest

/-- What `shutdown()` asked for has been done if nothing waits. -/
theorem Serving.closed (h : Serving s) (hasked : .shutdown ∈ s.actions)
    (hup : s.session.conn.state ≠ .kDisconnected)
    (hempty : s.session.conn.outputBuffer.readable = []) : s.session.conn.halfCloses = 1 := by
  have hstate : s.session.conn.state = .kDisconnecting := by
    cases hstate : s.session.conn.state with
    | kConnecting => exact absurd hstate h.up
    | kConnected => exact absurd hstate (h.asked hasked)
    | kDisconnecting => rfl
    | kDisconnected => exact absurd hstate hup
  refine h.shuts.closing.closed hstate fun hawaited => ?_
  rcases hawaited with hwriting | hmem
  · exact (h.shuts.closing.writing hup).mp hwriting hempty
  · rw [h.outputs.stack] at hmem
    exact absurd hmem List.not_mem_nil

/-- **The last reply, then the end.** The sending side is closed once at most and with all
replies written; and it is, if the server asked for it, the peer is there and nothing waits. -/
theorem closed_behind_sent (httpCallback : HttpCallback α) (fuel : Nat) (app : α)
    (es : List Event) (t : HttpSession α)
    (hes : Meets (step httpCallback fuel) (Final httpCallback fuel) (accepted app) es)
    (hrun : run (step httpCallback fuel) (accepted app) es = some t)
    (hlen : Sendable (sent t.actions)) :
    t.session.conn.effects.count .shutdownWrite ≤ 1 ∧
    (.shutdownWrite ∈ t.session.conn.effects →
      t.session.conn.written = (sent t.actions).flatten) ∧
    (.shutdown ∈ t.actions → t.session.conn.state ≠ .kDisconnected →
      t.session.conn.outputBuffer.readable = [] → .shutdownWrite ∈ t.session.conn.effects) := by
  have h := serving_run (serving_accepted app) hes hrun hlen
  refine ⟨h.shuts.closing.le, fun hmem => ?_, fun hasked hup hempty => ?_⟩
  · have hone : t.session.conn.halfCloses = 1 :=
      Nat.le_antisymm h.shuts.closing.le (List.count_pos_iff.mpr hmem)
    have houtput := h.outputs.output
    rw [TcpConnection.output, h.shuts.drained hone, List.append_nil] at houtput
    exact houtput
  · have hone : t.session.conn.effects.count .shutdownWrite = 1 := h.closed hasked hup hempty
    exact List.count_pos_iff.mp (by omega)

theorem final_getRootRun :
    Meets (step defaultHttpCallback 20) (Final defaultHttpCallback 20) (accepted ())
      getRootRun := by
  refine ⟨⟨?_, fun h => absurd rfl h⟩, fun t _ => ⟨final_writable _ _ t 5, fun _ _ => trivial⟩⟩
  simp [Unrefused]

theorem closed_behind_sent_getRootRun :
    ∃ t, run (step defaultHttpCallback 20) (accepted ()) getRootRun = some t ∧
      t.session.conn.effects.count .shutdownWrite ≤ 1 := by
  have hsent : ((run (step defaultHttpCallback 20) (accepted ()) getRootRun).map fun t =>
      decide (Sendable (sent t.actions))) = some true := by
    decide +kernel
  obtain ⟨t, ht, hlen⟩ := Option.map_eq_some_iff.mp hsent
  exact ⟨t, ht, (closed_behind_sent defaultHttpCallback 20 () getRootRun t final_getRootRun ht
    (of_decide_eq_true hlen)).1⟩

/-! ### Draining -/

/-- The next write event takes `k` bytes of those that wait. -/
theorem exists_step_writable (httpCallback : HttpCallback α) (fuel : Nat) (h : Serving s)
    (hup : s.session.conn.state ≠ .kDisconnected) {k : Nat} (hk : 0 < k)
    (hle : k ≤ s.session.conn.outputBuffer.readable.length) :
    ∃ t, step httpCallback fuel s (.writable k) = some t ∧ t.actions = s.actions ∧
      t.session.conn.state = s.session.conn.state ∧
      t.session.conn.outputBuffer.readable = s.session.conn.outputBuffer.readable.drop k := by
  have hwriting : s.session.conn.channel.isWriting = true := by
    refine (h.shuts.closing.writing hup).mpr fun hnil => ?_
    rw [hnil] at hle
    exact absurd (hk.trans_le hle) (lt_irrefl 0)
  obtain ⟨⟨conn, frame⟩, hout, hread⟩ := TcpConnection.handleWrite_takes hwriting hk hle
  obtain ⟨-, -, -, hstate⟩ := TcpConnection.handleWrite_noCallback h.outputs.noCallback hout
  have hstep : s.session.step (.handleWrite k) = some (s.session.after (conn, frame)) := by
    rw [Session.step, if_pos h.outputs.stack, hout, Option.map_some]
  exact ⟨{ s with session := s.session.after (conn, frame) }, by rw [step, hstep]; rfl, rfl, hstate,
    hread⟩

theorem drains_of_serving (httpCallback : HttpCallback α) (fuel : Nat) {ks : List Nat}
    (h : Serving s) (hlen : Sendable (sent s.actions))
    (hup : s.session.conn.state ≠ .kDisconnected) (hpos : ∀ k ∈ ks, 0 < k)
    (hsum : ks.sum = s.session.conn.outputBuffer.readable.length) :
    ∃ t, run (step httpCallback fuel) s (ks.map fun k => .writable k) = some t ∧ Serving t ∧
      t.actions = s.actions ∧ t.session.conn.state ≠ .kDisconnected ∧
      t.session.conn.outputBuffer.readable = [] := by
  induction ks generalizing s with
  | nil =>
      exact ⟨s, rfl, h, rfl, hup, List.length_eq_zero_iff.mp (by simpa using hsum.symm)⟩
  | cons k ks ih =>
      obtain ⟨hk, hpos⟩ := List.forall_mem_cons.mp hpos
      rw [List.sum_cons] at hsum
      obtain ⟨u, hu, hactions, hstate, hread⟩ :=
        exists_step_writable httpCallback fuel h hup hk (by omega)
      have hlen' : Sendable (sent u.actions) := hactions ▸ hlen
      have hserving := serving_step h (final_writable httpCallback fuel s k) hu hlen'
      obtain ⟨t, hrun, ht, hactions', hstate', hempty⟩ := ih hserving hlen' (hstate ▸ hup) hpos
        (by rw [hread, List.length_drop]; omega)
      exact ⟨t, run_cons_eq_some.mpr ⟨u, hu, hrun⟩, ht, hactions'.trans hactions, hstate', hempty⟩

/-- **The output drains.** If the socket takes some bytes at every write event, then after the
bytes that wait all replies are written, and the sending side is closed if the server asked. -/
theorem drains (httpCallback : HttpCallback α) (fuel : Nat) (app : α) (es : List Event)
    (s : HttpSession α)
    (hes : Meets (step httpCallback fuel) (Final httpCallback fuel) (accepted app) es)
    (hrun : run (step httpCallback fuel) (accepted app) es = some s)
    (hlen : Sendable (sent s.actions))
    (hup : s.session.conn.state ≠ .kDisconnected) (ks : List Nat) (hpos : ∀ k ∈ ks, 0 < k)
    (hsum : ks.sum = s.session.conn.outputBuffer.readable.length) :
    ∃ t, run (step httpCallback fuel) s (ks.map fun k => .writable k) = some t ∧
      t.session.conn.written = (sent s.actions).flatten ∧
      (.shutdown ∈ s.actions → .shutdownWrite ∈ t.session.conn.effects) := by
  obtain ⟨t, hrun', ht, hactions, hup', hempty⟩ :=
    drains_of_serving httpCallback fuel (serving_run (serving_accepted app) hes hrun hlen) hlen
      hup hpos hsum
  refine ⟨t, hrun', ?_, fun hasked => ?_⟩
  · have houtput := ht.outputs.output
    rwa [TcpConnection.output, hempty, List.append_nil, hactions] at houtput
  · have hone : t.session.conn.effects.count .shutdownWrite = 1 :=
      ht.closed (hactions ▸ hasked) hup' hempty
    exact List.count_pos_iff.mp (by omega)

/-- After `getRootRun` 43 bytes wait. -/
theorem drains_getRootRun : ∃ s t,
    run (step defaultHttpCallback 20) (accepted ()) getRootRun = some s ∧
    run (step defaultHttpCallback 20) s [.writable 20, .writable 23] = some t ∧
    t.session.conn.written = (sent s.actions).flatten := by
  have hlen : ((run (step defaultHttpCallback 20) (accepted ()) getRootRun).map fun s =>
      (s.session.conn.outputBuffer.readable.length, s.session.conn.state,
        decide (Sendable (sent s.actions)))) = some (43, .kDisconnecting, true) := by
    decide +kernel
  obtain ⟨s, hs, heq⟩ := Option.map_eq_some_iff.mp hlen
  obtain ⟨hread, heq⟩ := Prod.mk.inj heq
  obtain ⟨hstate, hsent⟩ := Prod.mk.inj heq
  obtain ⟨t, ht, hwritten, -⟩ := drains defaultHttpCallback 20 () getRootRun s final_getRootRun hs
    (of_decide_eq_true hsent) (by rw [hstate]; decide) [20, 23] (by simp) (by rw [hread]; rfl)
  exact ⟨s, t, hs, ht, hwritten⟩

end HttpSession

end Dummyload
