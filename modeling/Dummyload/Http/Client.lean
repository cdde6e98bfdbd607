import Dummyload.Http.Resume
import Dummyload.Http.Serving

/-!
# Dummyload.Http.Client

A client of the server: it sends its requests, each in one piece and when it likes, and takes as
much of the output at a time as it likes. With enough fuel for the parser the server
processes all of it to its end, calls the callback with these requests, and what the
client reads is what was replied (`readStream_served`).
-/

namespace Dummyload

/-! ### Fuel -/

namespace RequestText

open HttpContext

variable {r : RequestText} {fuel fuel' : Nat}

/-- So much fuel is enough to parse this request, whatever buffer holds it. -/
def ParsedWithin (r : RequestText) (fuel : Nat) : Prop :=
  ∀ buf : Buffer, buf.readable = r.render → ∃ buf',
    parseRequest {} buf fuel = .finished ⟨true, false, ⟨.kGotAll, r.toRequest⟩, buf'⟩ ∧
      buf'.readable = []

theorem ParsedWithin.mono (h : r.ParsedWithin fuel) (hle : fuel ≤ fuel') :
    r.ParsedWithin fuel' := by
  intro buf hbuf
  obtain ⟨buf', hparse, hrest⟩ := h buf hbuf
  refine ⟨buf', ?_, hrest⟩
  rw [parseRequest] at hparse ⊢
  rw [Lib.While.exec_mono hle (by rw [hparse]; simp), hparse]

/-- What is enough for one buffer is enough for the others, which hold the same bytes. -/
theorem exists_parsedWithin (r : RequestText) : ∃ fuel, r.ParsedWithin fuel := by
  have hbytes : (Buffer.holding r.render).readable = r.render ++ [] := by simp
  obtain ⟨buf₀, ⟨fuel, hparse⟩, hrest⟩ := r.returns_render hbytes
  refine ⟨fuel, fun buf hbuf => ?_⟩
  have hsame : SameBytes (enter {} (.holding r.render)) (enter {} buf) :=
    ⟨rfl, rfl, rfl, by rw [enter, enter, hbuf, Buffer.readable_holding]⟩
  obtain ⟨⟨ok, more, context, buf'⟩, hfinished, rfl, rfl, rfl, hread⟩ :=
    (inStep_sameBytes.exec hsame fuel).1 _ hparse
  exact ⟨buf', hfinished, hread.symm.trans hrest⟩

theorem exists_forall_parsedWithin (rs : List RequestText) :
    ∃ fuel, ∀ r ∈ rs, r.ParsedWithin fuel := by
  induction rs with
  | nil => exact ⟨0, fun _ h => absurd h List.not_mem_nil⟩
  | cons r rs ih =>
      obtain ⟨m, hm⟩ := r.exists_parsedWithin
      obtain ⟨n, hn⟩ := ih
      refine ⟨max m n, fun r' hr' => ?_⟩
      rcases List.mem_cons.mp hr' with rfl | hr'
      · exact hm.mono (le_max_left m n)
      · exact (hn r' hr').mono (le_max_right m n)

end RequestText

namespace HttpSession

variable {α : Type*} {httpCallback : HttpCallback α} {fuel fuel' : Nat}

theorem onMessage_mono {conn conn' : HttpConnection α} (hle : fuel ≤ fuel')
    (h : onMessage httpCallback fuel conn = .finished conn') :
    onMessage httpCallback fuel' conn = .finished conn' := by
  have hsame : HttpContext.parseRequest {} conn.inputBuffer fuel' =
      HttpContext.parseRequest {} conn.inputBuffer fuel := by
    refine Lib.While.exec_mono hle fun hout => ?_
    have hparse : HttpContext.parseRequest {} conn.inputBuffer fuel = .outOfFuel := hout
    rw [onMessage, hparse] at h
    cases h
  rw [onMessage] at h ⊢
  rw [hsame]
  exact h

/-- More fuel does not change what an event does. -/
theorem step_mono {s t : HttpSession α} {e : Event} (hle : fuel ≤ fuel')
    (h : step httpCallback fuel s e = some t) : step httpCallback fuel' s e = some t := by
  cases e with
  | writable result => exact h
  | readable r results =>
      rw [step] at h ⊢
      obtain ⟨u, hu, h⟩ := Option.bind_eq_some_iff.mp h
      rw [hu, Option.bind_some]
      split at h
      · exact h
      · obtain ⟨v, hv, rfl⟩ := Option.map_eq_some_iff.mp h
        rw [message] at hv ⊢
        split at hv
        · rename_i conn hconn
          rw [onMessage_mono hle hconn]
          dsimp only
          rw [hv, Option.map_some]
        · cases hv
        · cases hv
      · exact h

end HttpSession

/-! ### Calls that are possible -/

namespace TcpConnection

variable {conn : TcpConnection} {message : Bytes} {result : Int}

/-- The end of `send` finds the bytes it copies. -/
theorem exists_sendRest (conn : TcpConnection) (hlen : message.length < 2 ^ 31) (hge : 0 ≤ result)
    (hle : result ≤ message.length) :
    ∃ conn', conn.sendRest message message.length result = some conn' := by
  have hsize : (toSize (message.length - result) : Int) = message.length - result :=
    toSize_of_nonneg (by omega) (by omega)
  have hrest : toSize (message.length - result) ≤ (message.drop result.toNat).length := by
    rw [List.length_drop]
    omega
  obtain ⟨buf, hbuf, -⟩ := conn.outputBuffer.append_eq_some
    ((message.drop result.toNat).take (toSize (message.length - result)))
  rw [sendRest]
  split
  · dsimp only
    rw [if_pos hrest, hbuf]
    exact ⟨_, rfl⟩
  · exact ⟨conn, rfl⟩

theorem exists_send (conn : TcpConnection) (hlen : message.length < 2 ^ 31) (hge : 0 ≤ result)
    (hle : result ≤ message.length) : ∃ out, conn.send message result = some out := by
  have htoInt : toInt message.length = message.length := toInt_of_range (by omega) (by omega)
  have hwrite (conn : TcpConnection) : ∃ conn', conn.write message message.length result =
      some conn' := ⟨_, if_pos ⟨by omega, hle, hle⟩⟩
  rw [send, htoInt, toSize_natCast (by omega)]
  dsimp only
  split
  · obtain ⟨conn₁, hwrite⟩ := hwrite conn
    obtain ⟨conn₂, hrest⟩ := exists_sendRest conn₁ hlen hge hle
    rw [hwrite, Option.bind_some]
    split
    · exact ⟨_, rfl⟩
    · exact ⟨(conn₂, none), by rw [hrest]; rfl⟩
  · obtain ⟨conn₂, hrest⟩ := exists_sendRest conn hlen le_rfl (by omega)
    exact ⟨(conn₂, none), by rw [hrest]; rfl⟩

/-- The kernel takes no more than there is. -/
theorem exists_handleWrite (hge : -1 ≤ result) (hle : result ≤ conn.outputBuffer.readable.length) :
    ∃ out, conn.handleWrite result = some out := by
  have hbytes : result ≤ conn.outputBuffer.readableBytes := by
    rwa [Buffer.length_readable] at hle
  rw [handleWrite]
  split
  · have hwrite : conn.write conn.outputBuffer.readable conn.outputBuffer.readableBytes result =
        some (conn.wrote conn.outputBuffer.readable conn.outputBuffer.readableBytes result) :=
      if_pos ⟨hge, hbytes, hle⟩
    rw [hwrite, Option.bind_some]
    split
    · have hretrieve : result.toNat ≤ (conn.wrote conn.outputBuffer.readable
          conn.outputBuffer.readableBytes result).outputBuffer.readableBytes :=
        Int.toNat_le.mpr hbytes
      obtain ⟨buf, hbuf, -⟩ := Buffer.retrieve_eq_some hretrieve
      rw [hbuf, Option.map_some]
      exact ⟨_, rfl⟩
    · exact ⟨_, rfl⟩
  · exact ⟨_, rfl⟩

end TcpConnection

namespace HttpSession

open Lib.Machine (run run_cons_eq_some Meets)

variable {α : Type*} {httpCallback : HttpCallback α} {fuel : Nat} {s t : HttpSession α}

/-! ### The client -/

/-- What the client and its socket do. -/
inductive ClientEvent
  /-- The client sends a request. If nothing waits to be written, `::write` takes `result` bytes of
  the reply. -/
  | request (r : RequestText) (result : Int)
  /-- The loop dispatches a write event, and `::write` answers `result`. -/
  | writable (result : Int)

def ClientEvent.event : ClientEvent → Event
  | .request r result => .readable (.bytes r.render) [result]
  | .writable result => .writable result

def clientStep (httpCallback : HttpCallback α) (fuel : Nat) (s : HttpSession α) (e : ClientEvent) :
    Option (HttpSession α) :=
  step httpCallback fuel s e.event

/-- The requests of the client. -/
def requests (es : List ClientEvent) : List RequestText :=
  es.filterMap fun | .request r _ => some r | .writable _ => none

/-- What the callback replies. -/
def response (httpCallback : HttpCallback α) (app : α) (r : RequestText) : HttpResponse :=
  (httpCallback app r.toRequest { closeConnection := wantsClose r.toRequest }).2

/-- What it replies to the requests, one after the other. -/
def responses (httpCallback : HttpCallback α) : α → List RequestText → List HttpResponse
  | _, [] => []
  | app, r :: rs =>
    response httpCallback app r :: responses httpCallback (answered httpCallback app r.toRequest) rs

/-- `::write` takes no more bytes than it is given, and it is not refused with a reply. -/
def Takes (httpCallback : HttpCallback α) (s : HttpSession α) : ClientEvent → Prop
  | .request r result => 0 ≤ result ∧ result ≤ (response httpCallback s.app r).bytes.length
  | .writable result => -1 ≤ result ∧ result ≤ s.session.conn.outputBuffer.readable.length

/-- Between two requests nothing is left of the input. -/
structure Awaits (s : HttpSession α) : Prop where
  outputs : Outputs s.session [] (sent s.actions)
  empty : s.session.conn.inputBuffer.readable = []

theorem awaits_accepted (app : α) : Awaits (accepted app) :=
  ⟨outputs_accepted app, Buffer.readable_new _⟩

/-! ### One event -/

theorem exists_clientStep_writable (fuel : Nat) {result : Int} (h : Awaits s)
    (htakes : Takes httpCallback s (.writable result)) :
    ∃ t, clientStep httpCallback fuel s (.writable result) = some t ∧ Awaits t ∧ t.app = s.app ∧
      t.actions = s.actions := by
  obtain ⟨⟨conn, frame⟩, hwrite⟩ := TcpConnection.exists_handleWrite htakes.1 htakes.2
  obtain ⟨-, -, hbuf, -⟩ := TcpConnection.handleWrite_noCallback h.outputs.noCallback hwrite
  have hstep : s.session.step (.handleWrite result) = some (s.session.after (conn, frame)) := by
    rw [Session.step, if_pos h.outputs.stack, hwrite, Option.map_some]
  refine ⟨{ s with session := s.session.after (conn, frame) }, ?_,
    ⟨h.outputs.handleWrite hstep, ?_⟩, rfl, rfl⟩
  · rw [clientStep, ClientEvent.event, step, hstep, Option.map_some]
  · show conn.inputBuffer.readable = []
    rw [hbuf, h.empty]

/-- The calls of an answer. -/
theorem exists_perform_answer {u : Session} {frames : List Frame} {messages : List Bytes} {app : α}
    {r : RequestText} {result : Int} (h : Outputs u frames messages)
    (hlen : (response httpCallback app r).bytes.length < 2 ^ 31) (hge : 0 ≤ result)
    (hle : result ≤ (response httpCallback app r).bytes.length) :
    ∃ v, perform u (answer httpCallback app r.toRequest) [result] = some v ∧
      Outputs v frames (messages ++ [(response httpCallback app r).bytes]) ∧
      v.conn.inputBuffer = u.conn.inputBuffer := by
  obtain ⟨out, hsend⟩ := u.conn.exists_send hlen hge hle
  generalize hafter : { u with
    messages := u.messages ++ [(response httpCallback app r).bytes] }.after out = u'
  have hstep : u.step (.send (response httpCallback app r).bytes result) = some u' := by
    rw [Session.step, hsend, Option.map_some, hafter]
  obtain ⟨hout, hbuf, -⟩ := h.send hlen (by omega) hstep
  have hanswer : answer httpCallback app r.toRequest =
      .httpCallback r.toRequest :: .send (response httpCallback app r).bytes ::
        if (response httpCallback app r).closeConnection then [.shutdown] else [] := rfl
  have hperform : perform u (answer httpCallback app r.toRequest) [result] = perform u'
      (if (response httpCallback app r).closeConnection then [.shutdown] else []) [] := by
    rw [hanswer, perform, perform, List.headD_cons, hstep, Option.bind_some, List.tail_cons]
  rw [hperform]
  split
  · obtain ⟨hout', hbuf'⟩ := hout.shutdown (v := { u' with conn := u'.conn.shutdown }) rfl
    exact ⟨_, rfl, hout', hbuf'.trans hbuf⟩
  · exact ⟨u', rfl, hout, hbuf⟩

/-- A request is read and answered. -/
theorem exists_clientStep_request {r : RequestText} {result : Int} (h : Awaits s)
    (hparsed : r.ParsedWithin fuel)
    (hlen : (response httpCallback s.app r).bytes.length < 2 ^ 31)
    (htakes : Takes httpCallback s (.request r result)) :
    ∃ t, clientStep httpCallback fuel s (.request r result) = some t ∧ Awaits t ∧
      t.app = answered httpCallback s.app r.toRequest ∧
      t.actions = s.actions ++ answer httpCallback s.app r.toRequest := by
  obtain ⟨buf, hfd, hread⟩ := s.session.conn.inputBuffer.readFd_bytes 0 r.render
  rw [h.empty, List.nil_append] at hread
  obtain ⟨buf', hparse, hrest⟩ := hparsed buf hread
  -- the read
  let u := s.session.after
    ({ s.session.conn with inputBuffer := buf }.emit .messageCallback, some .handleRead)
  have hpos : (r.render.length : Int) > 0 := by
    have := List.length_pos_of_ne_nil (render_ne_nil r)
    omega
  have hu : s.session.step (.handleRead (.bytes r.render)) = some u := by
    rw [Session.step, if_pos h.outputs.stack, TcpConnection.handleRead, hfd, Option.map_some,
      Option.map_some]
    dsimp only
    rw [if_pos hpos]
  have hstack : u.stack = [.handleRead] := by
    have := h.outputs.stack
    simp [u, Session.after, this]
  have hout : Outputs { u with conn := { u.conn with inputBuffer := buf' } } [.handleRead]
      (sent s.actions) := ⟨h.outputs.noCallback, hstack, h.outputs.output⟩
  -- `onMessage`
  have hmessage : onMessage httpCallback fuel ⟨u.conn.inputBuffer, s.app, []⟩ =
      .finished ⟨buf', answered httpCallback s.app r.toRequest,
        answer httpCallback s.app r.toRequest⟩ := by
    have hparse' : HttpContext.parseRequest {} u.conn.inputBuffer fuel = _ := hparse
    rw [onMessage]
    dsimp only
    rw [hparse']
    dsimp only [HttpContext.gotAll]
    rw [onRequest_eq_some]
    rfl
  obtain ⟨v, hperform, houtv, hbufv⟩ := exists_perform_answer hout hlen htakes.1 htakes.2
  have hret : v.step .ret = some { v with stack := [] } := by
    rw [Session.step, houtv.stack]
    rfl
  obtain ⟨houtw, -⟩ := houtv.ret (Or.inl rfl) hret
  refine ⟨⟨{ v with stack := [] }, answered httpCallback s.app r.toRequest,
    s.actions ++ answer httpCallback s.app r.toRequest⟩, ?_, ⟨?_, ?_⟩, rfl, rfl⟩
  · rw [clientStep, ClientEvent.event, step, hu, Option.bind_some, hstack]
    dsimp only
    rw [message, hmessage]
    dsimp only
    rw [hperform, Option.bind_some, hret]
    rfl
  · rw [sent_append, sent_answer]
    exact houtw
  · show v.conn.inputBuffer.readable = []
    rw [hbufv]
    exact hrest

/-! ### All events -/

/-- Every event is processed to its end, and the callback is called with the requests. -/
theorem exists_run_client {es : List ClientEvent} (h : Awaits s)
    (hparsed : ∀ r ∈ requests es, r.ParsedWithin fuel)
    (hlen : Sendable ((responses httpCallback s.app (requests es)).map HttpResponse.bytes))
    (hes : Meets (clientStep httpCallback fuel) (Takes httpCallback) s es) :
    ∃ t, run (clientStep httpCallback fuel) s es = some t ∧ Awaits t ∧
      callbacks t.actions = callbacks s.actions ++ (requests es).map RequestText.toRequest ∧
      sent t.actions = sent s.actions ++
        (responses httpCallback s.app (requests es)).map HttpResponse.bytes := by
  induction es generalizing s with
  | nil => exact ⟨s, rfl, h, by simp [requests], by simp [requests, responses]⟩
  | cons e es ih =>
      cases e with
      | writable result =>
          obtain ⟨u, hu, hawaits, happ, hactions⟩ :=
            exists_clientStep_writable fuel h hes.1
          obtain ⟨t, hrun, ht, hcalls, hsent⟩ :=
            ih hawaits hparsed (by rw [happ]; exact hlen) (hes.2 u hu)
          rw [happ, hactions] at hsent
          rw [hactions] at hcalls
          exact ⟨t, run_cons_eq_some.mpr ⟨u, hu, hrun⟩, ht, hcalls, hsent⟩
      | request r result =>
          have hrequests : requests (.request r result :: es) = r :: requests es := rfl
          rw [hrequests] at hparsed hlen ⊢
          rw [responses, List.map_cons] at hlen ⊢
          obtain ⟨hfirst, hlen⟩ := List.forall_mem_cons.mp hlen
          obtain ⟨hr, hparsed⟩ := List.forall_mem_cons.mp hparsed
          obtain ⟨u, hu, hawaits, happ, hactions⟩ := exists_clientStep_request h hr hfirst hes.1
          rw [← happ] at hlen
          obtain ⟨t, hrun, ht, hcalls, hsent⟩ := ih hawaits hparsed hlen (hes.2 u hu)
          rw [hactions, callbacks_append, callbacks_answer, List.append_assoc] at hcalls
          rw [hactions, sent_append, sent_answer, happ, List.append_assoc] at hsent
          exact ⟨t, run_cons_eq_some.mpr ⟨u, hu, hrun⟩, ht, hcalls, hsent⟩

/-- **Served.** The client sends its requests, each when it likes and in one piece, and takes what
it likes at a time. With enough fuel every event is processed to its end; the callback is called
with these requests, and when nothing waits to be written the client reads what it replied, all
of it. -/
theorem readStream_served (httpCallback : HttpCallback α) (app : α) (rs : List RequestText)
    {fold : Bytes → Bytes} (hfold : fold (ascii "Content-Length") ≠ fold (ascii "Connection"))
    (hframable : ∀ resp ∈ responses httpCallback app rs, resp.Framable fold)
    (hkept : ∀ resp ∈ (responses httpCallback app rs).dropLast, resp.closeConnection = false)
    (hlen : Sendable ((responses httpCallback app rs).map HttpResponse.bytes)) :
    ∃ fuel₀, ∀ fuel ≥ fuel₀, ∀ es, requests es = rs →
      Meets (clientStep httpCallback fuel) (Takes httpCallback) (accepted app) es →
      ∃ t, run (clientStep httpCallback fuel) (accepted app) es = some t ∧
        callbacks t.actions = rs.map RequestText.toRequest ∧
        (t.session.conn.outputBuffer.readable = [] →
          readStream fold t.session.conn.written =
            some ((responses httpCallback app rs).map HttpResponse.reply)) := by
  obtain ⟨fuel₀, hparsed⟩ := RequestText.exists_forall_parsedWithin rs
  refine ⟨fuel₀, fun fuel hfuel es hrequests hes => ?_⟩
  subst hrequests
  obtain ⟨t, hrun, ht, hcalls, hsent⟩ := exists_run_client (awaits_accepted app)
    (fun r hr => (hparsed r hr).mono hfuel) hlen hes
  refine ⟨t, hrun, hcalls, fun hempty => ?_⟩
  have hsent' : sent t.actions =
      (responses httpCallback app (requests es)).map HttpResponse.bytes := hsent
  have houtput := ht.outputs.output
  rw [TcpConnection.output, hempty, List.append_nil, hsent', ← List.flatMap_def] at houtput
  rw [houtput]
  exact readResponses_bytes hfold hframable hkept (length_le_bytes hframable)

/-- A reply that the socket takes in two parts. -/
def getRootServed : List ClientEvent := [.request getRoot 10, .writable 48]

theorem readStream_served_getRoot : ∃ fuel t,
    run (clientStep defaultHttpCallback fuel) (accepted ()) getRootServed = some t ∧
    callbacks t.actions = [getRoot.toRequest] ∧
    readStream id t.session.conn.written =
      some ((responses defaultHttpCallback () [getRoot]).map HttpResponse.reply) := by
  have hframable : ∀ resp ∈ responses defaultHttpCallback () [getRoot], resp.Framable id := by
    refine List.forall_mem_singleton.mpr ⟨?_, ?_, ?_, ?_, ?_⟩ <;> decide +kernel
  obtain ⟨fuel₀, hserved⟩ := readStream_served defaultHttpCallback () [getRoot]
    (by decide) hframable (by simp [responses]) (by decide +kernel)
  -- the run, with fuel 20
  have hfirst : ((clientStep defaultHttpCallback 20 (accepted ()) (.request getRoot 10)).map
      fun u => u.session.conn.outputBuffer.readable.length) = some 48 := by decide +kernel
  obtain ⟨u, hu, hlen⟩ := Option.map_eq_some_iff.mp hfirst
  have hrun : ((clientStep defaultHttpCallback 20 (accepted ()) (.request getRoot 10)).bind
      fun u => (clientStep defaultHttpCallback 20 u (.writable 48)).map
        fun t => t.session.conn.outputBuffer.readable) = some [] := by decide +kernel
  rw [hu, Option.bind_some] at hrun
  obtain ⟨t', ht', hempty⟩ := Option.map_eq_some_iff.mp hrun
  -- with more fuel it is the same
  have hstep : clientStep defaultHttpCallback (max fuel₀ 20) (accepted ()) (.request getRoot 10) =
      some u := step_mono (le_max_right fuel₀ 20) hu
  have htakes : Meets (clientStep defaultHttpCallback (max fuel₀ 20)) (Takes defaultHttpCallback)
      (accepted ()) getRootServed := by
    refine ⟨⟨by decide, by decide +kernel⟩, fun v hv => ⟨⟨by decide, ?_⟩, fun _ _ => trivial⟩⟩
    obtain rfl := Option.some.inj (hstep.symm.trans hv)
    rw [hlen]
    decide
  obtain ⟨t, ht, hcalls, hread⟩ := hserved _ (le_max_left fuel₀ 20) getRootServed rfl htakes
  obtain rfl : t' = t := by
    obtain ⟨v, hv, hrest⟩ := run_cons_eq_some.mp ht
    obtain rfl := Option.some.inj (hstep.symm.trans hv)
    obtain ⟨w, hw, hnil⟩ := run_cons_eq_some.mp hrest
    obtain rfl := Option.some.inj hnil
    exact Option.some.inj (ht'.symm.trans hw)
  exact ⟨_, t', ht, hcalls, hread hempty⟩

end HttpSession

end Dummyload
