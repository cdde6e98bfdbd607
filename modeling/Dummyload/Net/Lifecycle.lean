import Dummyload.Net.Phases

/-!
# Dummyload.Net.Lifecycle

The runs of an `Application`, and what they say of the connections of its server: their
states only move forward, their callbacks come in the order up, messages, down, close, and
`connections_` has, between events, those that were not closed.

`Moves` is what a step can do to the loop; that the phases are kept and that the objects
advance are read off it.
-/

namespace Dummyload

namespace EventLoop

/-! ### Forward only -/

/-- The objects of `s` are still there, further on in their lives. -/
def Advances (s t : EventLoop) : Prop :=
  ∀ (c : Nat) (obj : ConnObject), s.heap[c]? = some obj → ∃ obj', t.heap[c]? = some obj' ∧
    obj.conn.state.rank ≤ obj'.conn.state.rank ∧ obj.conn.effects <+: obj'.conn.effects

section Advances

variable {s t u : EventLoop} {c : Nat} {obj : ConnObject} {conn : TcpConnection}

theorem advances_of_heap (h : t.heap = s.heap) : Advances s t := fun c obj hobj =>
  ⟨obj, by rw [h, hobj], le_rfl, List.prefix_refl _⟩

theorem Advances.trans (h : Advances s t) (h' : Advances t u) : Advances s u := by
  intro c obj hobj
  obtain ⟨obj₁, hobj₁, hrank₁, heffects₁⟩ := h c obj hobj
  obtain ⟨obj₂, hobj₂, hrank₂, heffects₂⟩ := h' c obj₁ hobj₁
  exact ⟨obj₂, hobj₂, hrank₁.trans hrank₂, heffects₁.trans heffects₂⟩

theorem advances_after (hobj : s.heap[c]? = some obj) {frame : Option Frame}
    (hrank : obj.conn.state.rank ≤ conn.state.rank) (heffects : obj.conn.effects <+: conn.effects) :
    Advances s (s.after c (conn, frame)) := by
  intro c' old hold
  rw [EventLoop.after]
  by_cases hcc : c = c'
  · obtain rfl := hcc
    obtain rfl := Option.some.inj (hobj.symm.trans hold)
    exact ⟨_, by rw [List.getElem?_modify_eq, hobj]; rfl, hrank, heffects⟩
  · exact ⟨old, (List.getElem?_modify_ne _ _ hcc).trans hold, le_rfl, List.prefix_refl _⟩

theorem advances_newConnection (s : EventLoop) : Advances s s.newConnection := by
  intro c obj hobj
  refine ⟨obj, ?_, le_rfl, List.prefix_refl _⟩
  show (s.heap ++ [_])[c]? = some obj
  rw [List.getElem?_append_left (List.getElem?_eq_some_iff.mp hobj).1, hobj]

theorem advances_polled {ready : List (Target × Events)} (hnodup : (ready.map Prod.fst).Nodup)
    {active : List Target} :
    Advances s { s with heap := ready.foldl setRevents s.heap, active := active } := by
  intro c obj hobj
  have hlt : c < (ready.foldl setRevents s.heap).length := by
    rw [length_foldl_setRevents]
    exact (List.getElem?_eq_some_iff.mp hobj).1
  obtain ⟨old, revents, hold, heq, -⟩ :=
    getElem?_foldl_setRevents hnodup (List.getElem?_eq_getElem hlt)
  obtain rfl := Option.some.inj (hobj.symm.trans hold)
  refine ⟨_, List.getElem?_eq_getElem hlt, ?_, ?_⟩
  · rw [heq]
  · rw [heq]

theorem advances_continues (hobj : s.heap[c]? = some obj) {frame : Option Frame}
    (hc : obj.conn.Continues conn) : Advances s (s.after c (conn, frame)) :=
  advances_after hobj hc.rank_le hc.effects

/-- The state only moves forward in `handleRead`, whatever it was. -/
theorem advances_handleRead (hobj : s.heap[c]? = some obj) {readv : Buffer.Readv}
    {frame : Option Frame} (h : obj.conn.handleRead readv = some (conn, frame)) :
    Advances s (s.after c (conn, frame)) := by
  have hinit : obj.conn.effects <+: obj.conn.effects ++ [.connectionCallback] :=
    List.prefix_append _ _
  obtain ⟨buf, ⟨rfl, rfl⟩ | hcase | ⟨rfl, rfl⟩⟩ := TcpConnection.handleRead_cases h
  · exact advances_after hobj le_rfl (List.prefix_append _ _)
  · obtain ⟨rfl, rfl⟩ := Prod.mk.inj hcase
    refine advances_after hobj ?_ hinit
    show _ ≤ 3
    cases obj.conn.state <;> decide
  · exact advances_after hobj le_rfl (List.prefix_refl _)

theorem advances_handleEvent (hobj : s.heap[c]? = some obj) {readv : Buffer.Readv}
    {nwrote : Int} {test : Test} (h : s.handleEvent c obj.conn readv nwrote test = some t) :
    Advances s t := by
  obtain ⟨test', rfl⟩ | ⟨⟨conn, frame⟩, hread, rfl⟩ | rfl | ⟨⟨conn, frame⟩, hwrite, rfl⟩ :=
    handleEvent_eq_some h
  · exact advances_of_heap rfl
  · have hpush : Advances s { s with stack := .handleEvent c .write :: s.stack } :=
      advances_of_heap rfl
    exact hpush.trans (advances_handleRead hobj hread)
  · exact advances_of_heap rfl
  · exact advances_continues hobj (TcpConnection.continues_handleWrite hwrite)

end Advances

/-! ### Runs -/

/-- What a step of the loop or of the application does to the loop. -/
inductive Moves (s : EventLoop) : EventLoop → Prop
  | polled {ready : List (Target × Events)} (hstack : s.stack = [])
      (hnodup : (ready.map Prod.fst).Nodup)
      (hready : ∀ (c : Nat) (obj : ConnObject) (revents : Events), (.conn c, revents) ∈ ready →
        s.heap[c]? = some obj → obj.conn.channel.WritesOnly → revents ∩ readBits = ∅) :
      Moves s { s with heap := ready.foldl setRevents s.heap, active := ready.map Prod.fst }
  | skipped {active : List Target} (hactive : s.active = .acceptor :: active) :
      Moves s { s with active := active }
  | accepted {active : List Target} (hstack : s.stack = [])
      (hactive : s.active = .acceptor :: active) :
      Moves s (newConnection { s with active := active })
  | dispatched {c : Nat} {active : List Target} (hstack : s.stack = [])
      (hactive : s.active = .conn c :: active) :
      Moves s { s with active := active, stack := [.handleEvent c .error] }
  | tested {t : EventLoop} {c : Nat} {test : Test} {below : List Call} {obj : ConnObject}
      {readv : Buffer.Readv} {nwrote : Int} (hstack : s.stack = .handleEvent c test :: below)
      (hobj : s.heap[c]? = some obj)
      (hevent : { s with stack := below }.handleEvent c obj.conn readv nwrote test = some t) :
      Moves s t
  /-- The test on a channel that is gone. -/
  | gone {c : Nat} {test : Test} {below : List Call}
      (hstack : s.stack = .handleEvent c test :: below) : Moves s { s with stack := below }
  | called {c : Nat} {obj : ConnObject} {conn : TcpConnection} {frame : Option Frame}
      (hobj : s.heap[c]? = some obj) (hc : obj.conn.Continues conn)
      (hframe : frame ≠ some .handleClose) : Moves s (s.after c (conn, frame))
  /-- The application keeps a pointer, or gives one up. -/
  | same : Moves s s
  | returned {c : Nat} {frame : Frame} {below : List Call} {obj : ConnObject} {conn : TcpConnection}
      (hstack : s.stack = .conn c frame :: below) (hframe : frame ≠ .handleClose)
      (hobj : s.heap[c]? = some obj) (hresume : obj.conn.resume frame = some conn) :
      Moves s ({ s with stack := below }.after c (conn, none))
  | closed {c : Nat} {below : List Call} {obj : ConnObject}
      (hstack : s.stack = .conn c .handleClose :: below) (hobj : s.heap[c]? = some obj) :
      Moves s (({ s with stack := below }.after c
        (obj.conn.emit .closeCallback, none)).removeConnection obj.name)

theorem Lifecycle.moves {s t : EventLoop} (h : Lifecycle s) (hmoves : Moves s t)
    (hcount : t.heap.length < 2 ^ 31) : Lifecycle t := by
  have htail : ∀ {target active}, s.active = target :: active →
      Lifecycle { s with active := active } := by
    intro target active hactive
    have hnodup := h.active
    rw [hactive, List.nodup_cons] at hnodup
    have hmem : ∀ target' ∈ active, target' ∈ s.active := fun target' hmem => by
      rw [hactive]
      exact List.mem_cons_of_mem _ hmem
    exact h.withControl h.nested hnodup.2
      (fun c test hcall hmem' => h.dispatched c test hcall (hmem _ hmem')) (fun _ => Iff.rfl)
      fun c hpending => hpending.imp_left (hmem _)
  cases hmoves with
  | polled hstack hnodup hready => exact h.polled hstack hnodup hready
  | skipped hactive => exact htail hactive
  | accepted hstack hactive =>
      refine (htail hactive).newConnection hstack ?_
      simpa [EventLoop.newConnection] using hcount
  | @dispatched c active hstack hactive =>
      have hnodup := h.active
      rw [hactive, List.nodup_cons] at hnodup
      refine h.withControl rfl hnodup.2 (fun c' test hcall => ?_) (by simp [hstack])
        fun c' hpending => ?_
      · obtain ⟨rfl, -⟩ := Call.handleEvent.inj (List.mem_singleton.mp hcall)
        exact hnodup.1
      · refine Or.inl ?_
        rw [hactive, List.mem_cons]
        rcases hpending with hmem | hmem | hmem
        · exact Or.inr hmem
        · obtain ⟨rfl, -⟩ := Call.handleEvent.inj (List.mem_singleton.mp hmem)
          exact Or.inl rfl
        · simp at hmem
  | tested hstack hobj hevent =>
      have hnested := h.nested
      rw [hstack] at hnested
      obtain rfl := hnested
      exact h.handleEvent hstack hobj hevent
  | gone hstack =>
      have hnested := h.nested
      rw [hstack] at hnested
      obtain rfl := hnested
      exact h.nextTest hstack (Or.inl rfl)
  | called hobj hc hframe => exact h.after hobj hc hframe
  | same => exact h
  | returned hstack hframe hobj hresume => exact h.returned hstack hframe hobj hresume
  | closed hstack hobj => exact h.closed hstack hobj

theorem Moves.advances {s t : EventLoop} (h : Moves s t) : Advances s t := by
  cases h with
  | polled _ hnodup _ => exact advances_polled hnodup
  | skipped _ => exact advances_of_heap rfl
  | @accepted active _ _ =>
      have hactive : Advances s { s with active := active } := advances_of_heap rfl
      exact hactive.trans (advances_newConnection _)
  | dispatched _ _ => exact advances_of_heap rfl
  | @tested _ c test below obj readv nwrote hstack hobj hevent =>
      have hbelow : Advances s { s with stack := below } := advances_of_heap rfl
      exact hbelow.trans (advances_handleEvent hobj hevent)
  | gone _ => exact advances_of_heap rfl
  | called hobj hc _ => exact advances_continues hobj hc
  | same => exact advances_of_heap rfl
  | @returned c frame below obj conn _ hframe hobj hresume =>
      have hbelow : Advances s { s with stack := below } := advances_of_heap rfl
      exact hbelow.trans
        (advances_continues hobj (TcpConnection.continues_resume hframe hresume))
  | @closed c below obj _ hobj =>
      have hbelow : Advances s { s with stack := below } := advances_of_heap rfl
      have hafter : Advances { s with stack := below }
          ({ s with stack := below }.after c (obj.conn.emit .closeCallback, none)) :=
        advances_after hobj le_rfl (List.prefix_append _ _)
      exact (hbelow.trans hafter).trans (advances_of_heap rfl)

theorem Advances.length_le {s t : EventLoop} (h : Advances s t) :
    s.heap.length ≤ t.heap.length := by
  by_contra hlt
  obtain ⟨obj, hobj, -⟩ := h t.heap.length _ (List.getElem?_eq_getElem (Nat.lt_of_not_le hlt))
  exact Nat.lt_irrefl _ (List.getElem?_eq_some_iff.mp hobj).1

end EventLoop

namespace Application

open Lib.Machine (run)

variable {s t : Application} {c : Nat}

/-- A channel that only writes is not reported for reading. -/
theorem reports_writesOnly {obj : ConnObject} {revents : Events}
    (h : s.reports (.conn c, revents) = true) (hobj : s.loop.heap[c]? = some obj)
    (hwrites : obj.conn.channel.WritesOnly) : revents ∩ readBits = ∅ := by
  rw [reports, Bool.and_eq_true, hobj, Option.bind_some, Option.any_eq_true] at h
  obtain ⟨-, events, hregistered, hsub⟩ := h
  have hevents := hwrites.registered events hregistered
  have hbits : (kWriteEvent ∪ {.EPOLLERR, .EPOLLHUP}) ∩ readBits = ∅ := by decide
  rw [← Finset.subset_empty, ← hbits]
  exact Finset.inter_subset_inter_right
    ((of_decide_eq_true hsub).trans (Finset.union_subset_union_left hevents))

/-- A function that the application calls: the phase goes on. -/
theorem moves_call {f : TcpConnection → TcpConnection.Outcome}
    (hf : ∀ conn conn' frame, f conn = some (conn', frame) →
      conn.Continues conn' ∧ frame ≠ some .handleClose)
    (hcall : s.call c f = some t) : s.loop.Moves t.loop := by
  obtain ⟨obj, ⟨conn, frame⟩, hobj, hout, heq⟩ := call_eq_some hcall
  obtain ⟨hc, hframe⟩ := hf _ _ _ hout
  rw [heq]
  exact .called hobj hc hframe

theorem moves_step {i : Input} (hstep : step s i = some t) : s.loop.Moves t.loop := by
  cases i with
  | wait ready =>
      obtain ⟨⟨hstack, -, hnodup, hreports⟩, heq⟩ := step_wait hstep
      rw [heq]
      exact .polled hstack hnodup fun c obj revents hmem hobj hwrites =>
        reports_writesOnly (hreports _ hmem) hobj hwrites
  | accept ok =>
      obtain ⟨hstack, active, hactive, heq⟩ := EventLoop.step_accept (step_loop hstep)
      rw [heq]
      cases ok with
      | false => exact .skipped hactive
      | true => exact .accepted hstack hactive
  | dispatch =>
      obtain ⟨hstack, c, active, hactive, heq⟩ := EventLoop.step_dispatch (step_loop hstep)
      rw [heq]
      exact .dispatched hstack hactive
  | test readv nwrote =>
      obtain ⟨c, test, below, hstack, ⟨obj, hobj, hevent⟩ | heq⟩ := step_test hstep
      · exact .tested hstack hobj hevent
      · rw [heq]
        exact .gone hstack
  | send c message nwrote =>
      rw [step] at hstep
      exact moves_call (fun _ _ _ hf => ⟨TcpConnection.continues_send hf,
        EventLoop.send_ne_handleClose hf⟩) hstep
  | shutdown c =>
      rw [step] at hstep
      refine moves_call (fun conn conn' frame hf => ?_) hstep
      obtain ⟨rfl, rfl⟩ := Prod.mk.inj (Option.some.inj hf)
      exact ⟨TcpConnection.continues_shutdown conn, by simp⟩
  | retrieve c len =>
      rw [step] at hstep
      refine moves_call (fun conn conn' frame hf => ?_) hstep
      obtain ⟨buf, -, hf⟩ := Option.map_eq_some_iff.mp hf
      obtain ⟨rfl, rfl⟩ := Prod.mk.inj hf
      exact ⟨.of_same rfl rfl rfl, by simp⟩
  | keep c =>
      rw [step_keep hstep]
      exact .same
  | drop c =>
      rw [step_drop hstep]
      exact .same
  | ret =>
      obtain ⟨c, frame, below, obj, conn, hstack, hobj, hresume, ⟨rfl, heq⟩ | ⟨hframe, heq⟩⟩ :=
        EventLoop.step_ret (step_loop hstep)
      · obtain rfl := Option.some.inj hresume
        rw [heq]
        exact .closed hstack hobj
      · rw [heq]
        exact .returned hstack hframe hobj hresume

theorem advances_run {is : List Input} (hrun : run step s is = some t) :
    s.loop.Advances t.loop :=
  Lib.Machine.invariant
    (fun _ _ _ h hstep => EventLoop.Advances.trans h (moves_step hstep).advances)
    (EventLoop.advances_of_heap rfl) hrun

theorem lifecycle_run {writeComplete : Bool} {is : List Input}
    (hrun : run step (start writeComplete) is = some t) (hcount : t.loop.heap.length < 2 ^ 31) :
    t.loop.Lifecycle := by
  have hstep : ∀ (s : Application) (i : Input) (t : Application),
      (s.loop.heap.length < 2 ^ 31 → s.loop.Lifecycle) → step s i = some t →
      t.loop.heap.length < 2 ^ 31 → t.loop.Lifecycle := by
    intro s i t h hstep hcount
    have hmoves := moves_step hstep
    exact (h (hmoves.advances.length_le.trans_lt hcount)).moves hmoves hcount
  exact Lib.Machine.invariant hstep (fun _ => EventLoop.lifecycle_start writeComplete) hrun hcount

/-- **Connection lifecycle.** From any state of a run to any later one, objects stay and
their states move forward only; each has got its callbacks in order; their names are
distinct; and between events `connections_` has the ones whose `closeCallback_` was not
invoked. -/
theorem lifecycle (writeComplete : Bool) (is js : List Input) (s t : Application)
    (hs : run step (start writeComplete) is = some s) (ht : run step s js = some t)
    (hcount : t.loop.heap.length < 2 ^ 31) :
    s.loop.Advances t.loop ∧
    (∀ obj ∈ t.loop.heap, Ordered obj.conn.state obj.conn.callbacks) ∧
    (t.loop.heap.map fun obj => connName obj.name).Nodup ∧
    (t.loop.stack = [] → ∀ (name : Int) (c : Nat), t.loop.server.connections[name]? = some c ↔
      ∃ obj, t.loop.heap[c]? = some obj ∧ obj.name = name ∧ .closeCallback ∉ obj.conn.effects) := by
  have hrun : run step (start writeComplete) (is ++ js) = some t := by
    rw [run, List.foldlM_append]
    exact Option.bind_eq_some_iff.mpr ⟨s, hs, ht⟩
  have h := lifecycle_run hrun hcount
  refine ⟨advances_run ht, fun obj hobj => ?_, h.nodup_names, fun hstack name c =>
    h.entry_iff hstack name c⟩
  obtain ⟨c, hc⟩ := List.getElem?_of_mem hobj
  exact (h.phase c obj hc).ordered

/-- Two connections come up. -/
def acceptTwo : List Input :=
  [.wait [(.acceptor, {.EPOLLIN})], .accept true, .keep 0, .ret,
    .wait [(.acceptor, {.EPOLLIN})], .accept true, .ret]

/-- The first of them is closed, and the application sends on it all the same; the channel
is registered again, and reported. -/
def sendAfterClose : List Input :=
  [.wait [(.conn 0, {.EPOLLIN}), (.conn 1, {.EPOLLIN})], .dispatch, .test (.bytes []) 0,
    .test (.bytes []) 0, .send 0 (ascii "bye") 0, .ret, .test (.bytes []) 0,
    .dispatch, .test (.bytes []) 0, .test (.bytes (ascii "hi")) 0, .send 1 (ascii "hi") 2, .ret,
    .ret, .test (.bytes []) 0, .wait [(.conn 0, {.EPOLLOUT, .EPOLLHUP})], .dispatch,
    .test (.bytes []) 0, .test (.bytes []) 0, .test (.bytes []) 0]

theorem lifecycle_sendAfterClose : ∃ s t, run step (start true) acceptTwo = some s ∧
    run step s sendAfterClose = some t ∧ t.loop.heap.length < 2 ^ 31 ∧
    s.loop.Advances t.loop ∧
    (∀ obj ∈ t.loop.heap, Ordered obj.conn.state obj.conn.callbacks) ∧
    (t.loop.heap.map fun obj => connName obj.name).Nodup ∧
    (t.loop.stack = [] → ∀ (name : Int) (c : Nat), t.loop.server.connections[name]? = some c ↔
      ∃ obj, t.loop.heap[c]? = some obj ∧ obj.name = name ∧
        .closeCallback ∉ obj.conn.effects) := by
  have hrun : (((run step (start true) acceptTwo).bind fun s => run step s sendAfterClose).map
      fun t => t.loop.heap.length) = some 2 := by decide +kernel
  obtain ⟨t, ht, hlen⟩ := Option.map_eq_some_iff.mp hrun
  obtain ⟨s, hs, ht⟩ := Option.bind_eq_some_iff.mp ht
  have hcount : t.loop.heap.length < 2 ^ 31 := by omega
  exact ⟨s, t, hs, ht, hcount, lifecycle true acceptTwo sendAfterClose s t hs ht hcount⟩

end Application

end Dummyload
