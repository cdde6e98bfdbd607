import Dummyload.Net.EventLoop

/-!
# Dummyload.Net.Lifetime

Who owns a connection while `Channel::handleEvent` works on its channel. The entry
in `connections_` does, as long as it is there (`owned_of_notClosed`): no other
owner lives below `handleEvent`. `handleClose` removes that entry in the middle of
the three tests, and its own pointer goes when it returns, so the test that
follows is made on a destroyed channel, every time (`not_owned_of_closed`).
-/

namespace Dummyload

/-- The object that a function on the stack works on. -/
def Call.object : Call → Nat
  | .handleEvent c _ => c
  | .conn c _ => c

namespace EventLoop

open Lib.Machine (run Meets)

/-- Whenever `handleEvent` is about to test `revents_` of a connection's channel,
and possibly to invoke a callback, the connection has an owner. -/
def Owned (s : EventLoop) : Prop :=
  ∀ c test below, s.stack = .handleEvent c test :: below → 0 < s.owners c

/-- The innermost function is a `handleClose`, in its `connectionCallback_`. -/
def closing (s : EventLoop) : Bool :=
  match s.stack with
  | .conn _ .handleClose :: _ => true
  | _ => false

/-- This step closes no connection and overwrites no entry of `connections_`: no
`handleClose` gets past its `connectionCallback_`, and a new connection's name is
not in use. -/
def NotClosed (s : EventLoop) : Input → Prop
  | .ret => s.closing = false
  | .accept ok => ok = true → s.server.connections[toInt (s.server.nextId + 1)]? = none
  | _ => True

instance (s : EventLoop) (i : Input) : Decidable (NotClosed s i) := by
  cases i <;> unfold NotClosed <;> infer_instance

/-! ### Frame conditions -/

section After

variable (s : EventLoop) (c : Nat) (out : TcpConnection × Option Frame)

@[simp] theorem after_server : (s.after c out).server = s.server := rfl

@[simp] theorem after_active : (s.after c out).active = s.active := rfl

@[simp] theorem length_heap_after : (s.after c out).heap.length = s.heap.length := by
  simp [after]

theorem mem_stack_after {call : Call} (h : call ∈ (s.after c out).stack) :
    (∃ frame ∈ out.2, call = .conn c frame) ∨ call ∈ s.stack := by
  rw [after, List.mem_append, Option.mem_toList, Option.map_eq_some_iff] at h
  rcases h with ⟨frame, hframe, rfl⟩ | h
  · exact Or.inl ⟨frame, hframe, rfl⟩
  · exact Or.inr h

end After

theorem length_setRevents (heap : List ConnObject) (e : Target × Events) :
    (setRevents heap e).length = heap.length := by
  obtain ⟨target, revents⟩ := e
  cases target with
  | acceptor => rfl
  | conn c => exact List.length_modify _ _ _

theorem length_foldl_setRevents (heap : List ConnObject) (ready : List (Target × Events)) :
    (ready.foldl setRevents heap).length = heap.length := by
  induction ready generalizing heap with
  | nil => rfl
  | cons e ready ih => rw [List.foldl_cons, ih, length_setRevents]

theorem lt_length_of_reports {s : EventLoop} {c : Nat} {revents : Events}
    (h : s.reports (.conn c, revents) = true) : c < s.heap.length := by
  rw [reports, Bool.and_eq_true] at h
  by_contra hge
  rw [List.getElem?_eq_none (Nat.le_of_not_lt hge)] at h
  simp at h

/-! ### While no connection is closed -/

/-- Every object ever allocated has its entry in `connections_`. -/
structure AllListed (s : EventLoop) : Prop where
  entry : ∀ c < s.heap.length, ∃ name : Int, s.server.connections[name]? = some c
  active : ∀ c, Target.conn c ∈ s.active → c < s.heap.length
  stack : ∀ call ∈ s.stack, call.object < s.heap.length

theorem owners_pos_of_entry {s : EventLoop} {c : Nat} {name : Int}
    (h : s.server.connections[name]? = some c) : 0 < s.owners c := by
  have hmem : (name, c) ∈ s.server.connections.toList :=
    Std.ExtTreeMap.mem_toList_iff_getElem?_eq_some.mpr h
  have hcount : 0 < s.server.connections.toList.countP (fun entry => entry.2 = c) :=
    List.countP_pos_iff.mpr ⟨_, hmem, by simp⟩
  rw [owners]
  omega

theorem AllListed.owned {s : EventLoop} (h : AllListed s) : Owned s := by
  intro c test below hstack
  have hc : c < s.heap.length := h.stack (.handleEvent c test) (by rw [hstack]; simp)
  obtain ⟨name, hentry⟩ := h.entry c hc
  exact owners_pos_of_entry hentry

/-- A function of an object on the heap has run. -/
theorem AllListed.after {s : EventLoop} (h : AllListed s) {c : Nat} (hc : c < s.heap.length)
    (out : TcpConnection × Option Frame) : AllListed (s.after c out) where
  entry := by simpa using h.entry
  active := by simpa using h.active
  stack := by
    intro call hmem
    rw [length_heap_after]
    rcases mem_stack_after s c out hmem with ⟨frame, -, rfl⟩ | hmem
    · exact hc
    · exact h.stack call hmem

/-- The stack grows by functions on objects of the heap, or shrinks. -/
theorem AllListed.withStack {s : EventLoop} (h : AllListed s) {stack : List Call}
    (hstack : ∀ call ∈ stack, call.object < s.heap.length) :
    AllListed { s with stack := stack } where
  entry := h.entry
  active := h.active
  stack := hstack

theorem AllListed.newConnection {s : EventLoop} (h : AllListed s)
    (hname : s.server.connections[toInt (s.server.nextId + 1)]? = none) :
    AllListed s.newConnection := by
  have hlen : s.newConnection.heap.length = s.heap.length + 1 := by
    simp [EventLoop.newConnection]
  refine ⟨fun c hc => ?_, fun c hc => ?_, fun call hmem => ?_⟩
  · by_cases hnew : c = s.heap.length
    · refine ⟨toInt (s.server.nextId + 1), ?_⟩
      rw [hnew]
      exact Std.ExtTreeMap.getElem?_insert_self
    · obtain ⟨name, hentry⟩ := h.entry c (by omega)
      refine ⟨name, ?_⟩
      have hne : toInt (s.server.nextId + 1) ≠ name := by
        intro heq
        obtain rfl := heq
        rw [hname] at hentry
        cases hentry
      show (s.server.connections.insert (toInt (s.server.nextId + 1)) s.heap.length)[name]? = _
      rw [Std.ExtTreeMap.getElem?_insert, if_neg (by simpa using hne)]
      exact hentry
  · have := h.active c hc
    omega
  · rw [hlen]
    change call ∈ [.conn s.heap.length .connectEstablished] ++ s.stack at hmem
    rcases List.mem_append.mp hmem with hmem | hmem
    · rw [List.mem_singleton.mp hmem, Call.object]
      omega
    · have := h.stack call hmem
      omega

theorem AllListed.call {s t : EventLoop} (h : AllListed s) {c : Nat}
    {f : TcpConnection → TcpConnection.Outcome} (hcall : s.call c f = some t) : AllListed t := by
  obtain ⟨-, obj, out, hobj, -, rfl⟩ := call_eq_some hcall
  exact h.after (List.getElem?_eq_some_iff.mp hobj).1 out

theorem AllListed.handleEvent {s t : EventLoop} (h : AllListed s) {c : Nat}
    (hc : c < s.heap.length) {conn : TcpConnection} {readv : Buffer.Readv} {nwrote : Int}
    {test : Test} (hevent : s.handleEvent c conn readv nwrote test = some t) : AllListed t := by
  have hpush : ∀ test', AllListed { s with stack := .handleEvent c test' :: s.stack } :=
    fun test' => h.withStack (List.forall_mem_cons.mpr ⟨hc, h.stack⟩)
  obtain ⟨test', rfl⟩ | ⟨out, -, rfl⟩ | rfl | ⟨out, -, rfl⟩ := handleEvent_eq_some hevent
  · exact hpush test'
  · exact (hpush .write).after hc out
  · exact h
  · exact h.after hc out

theorem allListed_step {s t : EventLoop} {i : Input} (h : AllListed s) (hi : NotClosed s i)
    (hstep : step s i = some t) : AllListed t := by
  cases i with
  | wait ready =>
      obtain ⟨⟨-, -, -, -, hreports⟩, rfl⟩ := step_wait hstep
      refine ⟨?_, fun c hc => ?_, ?_⟩
      · rw [length_foldl_setRevents]
        exact h.entry
      · rw [length_foldl_setRevents]
        obtain ⟨⟨target, revents⟩, hmem, rfl⟩ := List.mem_map.mp hc
        exact lt_length_of_reports (hreports _ hmem)
      · rw [length_foldl_setRevents]
        exact h.stack
  | accept ok =>
      obtain ⟨-, active, hactive, rfl⟩ := step_accept hstep
      have hs : AllListed { s with active := active } :=
        ⟨h.entry, fun c hc => h.active c (by rw [hactive]; exact List.mem_cons_of_mem _ hc),
          h.stack⟩
      cases ok with
      | false => exact hs
      | true => exact hs.newConnection (hi rfl)
  | dispatch =>
      obtain ⟨-, c, active, hactive, rfl⟩ := step_dispatch hstep
      have hc : c < s.heap.length := h.active c (by rw [hactive]; exact List.mem_cons_self)
      refine ⟨h.entry, fun c' hc' => h.active c' ?_, ?_⟩
      · rw [hactive]
        exact List.mem_cons_of_mem _ hc'
      · simpa [Call.object] using hc
  | test readv nwrote =>
      obtain ⟨c, test, below, obj, hstack, -, hobj, hevent⟩ := step_test hstep
      have hbelow : ∀ call ∈ below, call.object < s.heap.length := fun call hmem =>
        h.stack call (by rw [hstack]; exact List.mem_cons_of_mem _ hmem)
      exact (h.withStack hbelow).handleEvent (List.getElem?_eq_some_iff.mp hobj).1 hevent
  | send c message nwrote =>
      rw [step] at hstep
      exact h.call hstep
  | shutdown c =>
      rw [step] at hstep
      exact h.call hstep
  | retrieve c len =>
      rw [step] at hstep
      exact h.call hstep
  | ret =>
      obtain ⟨c, frame, below, obj, conn, hstack, hobj, -, ⟨rfl, -⟩ | ⟨-, rfl⟩⟩ := step_ret hstep
      · -- this closes a connection
        have hclosing : s.closing = true := by rw [closing, hstack]
        exact absurd (hclosing.symm.trans hi) (by decide)
      · have hbelow : ∀ call ∈ below, call.object < s.heap.length := fun call hmem =>
          h.stack call (by rw [hstack]; exact List.mem_cons_of_mem _ hmem)
        exact (h.withStack hbelow).after (List.getElem?_eq_some_iff.mp hobj).1 (conn, none)

theorem allListed_start (writeComplete : Bool) : AllListed (start writeComplete) where
  entry := by simp [start]
  active := by simp [start]
  stack := by simp [start]

/-- **Object lifetime in event dispatch.** In every run that closes no connection,
in every state it reaches, a connection whose channel is about to be tested by
`handleEvent` has an owner. -/
theorem owned_of_notClosed (writeComplete : Bool) (is : List Input) (s : EventLoop)
    (hopen : Meets step NotClosed (start writeComplete) is)
    (hrun : run step (start writeComplete) is = some s) : Owned s :=
  (Lib.Machine.invariant_of_meets (fun _ _ _ h hi hstep => allListed_step h hi hstep)
    (allListed_start writeComplete) hopen hrun).owned

/-- A connection comes up and sends back what it reads. -/
def echoRun : List Input :=
  [.wait [(.acceptor, {.EPOLLIN})], .accept true, .ret,
    .wait [(.conn 0, {.EPOLLIN, .EPOLLHUP})], .dispatch, .test (.bytes []) 0,
    .test (.bytes (ascii "hi")) 0, .send 0 (ascii "hi") 2, .ret, .ret]

theorem owned_echoRun : ∃ s, run step (start true) echoRun = some s ∧ Owned s := by
  have hrun : (run step (start true) echoRun).isSome = true := by decide +kernel
  obtain ⟨s, hs⟩ := Option.isSome_iff_exists.mp hrun
  exact ⟨s, hs, owned_of_notClosed true echoRun s (by decide +kernel) hs⟩

/-! ### When a connection is closed -/

/-- Below `handleEvent` there is nothing, and below `handleClose` only the
`handleEvent` that has the write test still to make. -/
def WellNested : List Call → Prop
  | [] => True
  | .handleEvent _ _ :: below => below = []
  | .conn c .handleClose :: below => below = [.handleEvent c .write]
  | .conn _ _ :: below => WellNested below

theorem wellNested_nil : WellNested [] := trivial

theorem wellNested_of_cons {c : Nat} {frame : Frame} {below : List Call}
    (h : WellNested (.conn c frame :: below)) : WellNested below := by
  cases frame with
  | handleClose =>
      obtain rfl : below = [.handleEvent c .write] := h
      exact rfl
  | connectEstablished => exact h
  | handleRead => exact h
  | handleWrite => exact h
  | send data len nwrote => exact h

/-- The stack is nested as the calls are, and entries are under their own name. -/
structure WellFormed (s : EventLoop) : Prop where
  nested : WellNested s.stack
  named : ∀ (name : Int) (c : Nat), s.server.connections[name]? = some c →
    s.heap[c]?.map ConnObject.name = some name

/-- A function that is not `handleClose` runs into a callback, or returns. -/
theorem wellNested_cons {c : Nat} {frame : Option Frame} {below : List Call}
    (hframe : frame ≠ some .handleClose) (h : WellNested below) :
    WellNested ((frame.map (Call.conn c)).toList ++ below) := by
  cases frame with
  | none => exact h
  | some frame =>
      cases frame with
      | handleClose => exact absurd rfl hframe
      | connectEstablished => exact h
      | handleRead => exact h
      | handleWrite => exact h
      | send data len nwrote => exact h

theorem send_ne_handleClose {conn conn' : TcpConnection} {message : Bytes} {result : Int}
    {frame : Option Frame} (h : conn.send message result = some (conn', frame)) :
    frame ≠ some .handleClose := by
  cases TcpConnection.send_cases h with
  | complete _ _ _ => simp
  | direct _ _ _ => simp
  | queued _ _ => simp

theorem handleWrite_ne_handleClose {conn conn' : TcpConnection} {result : Int}
    {frame : Option Frame} (h : conn.handleWrite result = some (conn', frame)) :
    frame ≠ some .handleClose := by
  cases TcpConnection.handleWrite_cases h with
  | idle _ => simp
  | refused _ => simp
  | part _ _ => simp
  | complete _ _ => simp
  | drained _ _ => simp

/-- Objects keep their names. -/
theorem name_modify {f : ConnObject → ConnObject} (hf : ∀ obj, (f obj).name = obj.name)
    (heap : List ConnObject) (c c' : Nat) :
    (heap.modify c f)[c']?.map ConnObject.name = heap[c']?.map ConnObject.name := by
  rw [List.getElem?_modify]
  cases heap[c']? with
  | none => rfl
  | some obj =>
      by_cases hc : c = c'
      · simp [hc, hf]
      · simp [hc]

theorem name_setRevents (heap : List ConnObject) (e : Target × Events) (c : Nat) :
    (setRevents heap e)[c]?.map ConnObject.name = heap[c]?.map ConnObject.name := by
  obtain ⟨target, revents⟩ := e
  cases target with
  | acceptor => rfl
  | conn c' => exact name_modify (by intro obj; rfl) heap c' c

theorem name_foldl_setRevents (heap : List ConnObject) (ready : List (Target × Events)) (c : Nat) :
    (ready.foldl setRevents heap)[c]?.map ConnObject.name = heap[c]?.map ConnObject.name := by
  induction ready generalizing heap with
  | nil => rfl
  | cons e ready ih => rw [List.foldl_cons, ih, name_setRevents]

theorem name_after (s : EventLoop) (c : Nat) (out : TcpConnection × Option Frame) (c' : Nat) :
    (s.after c out).heap[c']?.map ConnObject.name = s.heap[c']?.map ConnObject.name :=
  name_modify (by intro obj; rfl) s.heap c c'

theorem WellFormed.withStack {s : EventLoop} (h : WellFormed s) {stack : List Call}
    (hstack : WellNested stack) : WellFormed { s with stack := stack } :=
  ⟨hstack, h.named⟩

theorem WellFormed.after {s : EventLoop} (h : WellFormed s) {c : Nat}
    {out : TcpConnection × Option Frame}
    (hout : WellNested ((out.2.map (Call.conn c)).toList ++ s.stack)) :
    WellFormed (s.after c out) where
  nested := hout
  named name c' hentry := by
    rw [name_after]
    exact h.named name c' hentry

theorem WellFormed.newConnection {s : EventLoop} (h : WellFormed s) :
    WellFormed s.newConnection where
  nested := h.nested
  named name c hentry := by
    change (s.server.connections.insert (toInt (s.server.nextId + 1)) s.heap.length)[name]? = _
      at hentry
    show (s.heap ++ [_])[c]?.map ConnObject.name = some name
    rw [Std.ExtTreeMap.getElem?_insert] at hentry
    split at hentry
    · rename_i hname
      obtain rfl := Option.some.inj hentry
      rw [List.getElem?_concat_length, Option.map_some]
      exact congrArg some (by simpa using hname)
    · have hold := h.named name c hentry
      obtain ⟨obj, hobj, -⟩ := Option.map_eq_some_iff.mp hold
      rw [List.getElem?_append_left (List.getElem?_eq_some_iff.mp hobj).1]
      exact hold

theorem WellFormed.removeConnection {s : EventLoop} (h : WellFormed s) (name : Int) :
    WellFormed (s.removeConnection name) where
  nested := h.nested
  named name' c hentry := by
    change (s.server.connections.erase name)[name']? = some c at hentry
    rw [Std.ExtTreeMap.getElem?_erase] at hentry
    split at hentry
    · cases hentry
    · exact h.named name' c hentry

theorem WellFormed.call {s t : EventLoop} (h : WellFormed s) {c : Nat}
    {f : TcpConnection → TcpConnection.Outcome}
    (hf : ∀ conn conn' frame, f conn = some (conn', frame) → frame ≠ some .handleClose)
    (hcall : s.call c f = some t) : WellFormed t := by
  obtain ⟨-, obj, out, -, hout, rfl⟩ := call_eq_some hcall
  exact h.after (wellNested_cons (hf _ _ _ hout) h.nested)

/-- `handleEvent`, called by the loop with nothing below it. -/
theorem WellFormed.handleEvent {s t : EventLoop} (h : WellFormed s) (hstack : s.stack = [])
    {c : Nat} {conn : TcpConnection} {readv : Buffer.Readv} {nwrote : Int} {test : Test}
    (hevent : s.handleEvent c conn readv nwrote test = some t) : WellFormed t := by
  have hpush : ∀ test', WellFormed { s with stack := .handleEvent c test' :: s.stack } :=
    fun test' => h.withStack hstack
  obtain ⟨test', rfl⟩ | ⟨⟨conn', frame⟩, -, rfl⟩ | rfl | ⟨⟨conn', frame⟩, hwrite, rfl⟩ :=
    handleEvent_eq_some hevent
  · exact hpush test'
  · refine (hpush .write).after ?_
    by_cases hclose : frame = some .handleClose
    · -- the peer has closed: the write test is still to come
      rw [hclose, hstack]
      exact rfl
    · exact wellNested_cons hclose hstack
  · exact h
  · exact h.after (wellNested_cons (handleWrite_ne_handleClose hwrite) h.nested)

theorem wellFormed_step {s t : EventLoop} {i : Input} (h : WellFormed s)
    (hstep : step s i = some t) : WellFormed t := by
  cases i with
  | wait ready =>
      obtain ⟨-, rfl⟩ := step_wait hstep
      exact ⟨h.nested, fun name c hentry =>
        (name_foldl_setRevents _ _ _).trans (h.named name c hentry)⟩
  | accept ok =>
      obtain ⟨-, active, -, rfl⟩ := step_accept hstep
      cases ok with
      | false => exact ⟨h.nested, h.named⟩
      | true => exact WellFormed.newConnection ⟨h.nested, h.named⟩
  | dispatch =>
      obtain ⟨-, c, active, -, rfl⟩ := step_dispatch hstep
      exact ⟨rfl, h.named⟩
  | test readv nwrote =>
      obtain ⟨c, test, below, obj, hstack, -, -, hevent⟩ := step_test hstep
      have hnested := h.nested
      rw [hstack] at hnested
      obtain rfl : below = [] := hnested
      exact (h.withStack wellNested_nil).handleEvent rfl hevent
  | send c message nwrote =>
      rw [step] at hstep
      exact h.call (fun _ _ _ hf => send_ne_handleClose hf) hstep
  | shutdown c =>
      rw [step] at hstep
      refine h.call (fun conn conn' frame hf => ?_) hstep
      obtain ⟨-, rfl⟩ := Prod.mk.inj (Option.some.inj hf)
      simp
  | retrieve c len =>
      rw [step] at hstep
      refine h.call (fun conn conn' frame hf => ?_) hstep
      obtain ⟨buf, -, hf⟩ := Option.map_eq_some_iff.mp hf
      obtain ⟨-, rfl⟩ := Prod.mk.inj hf
      simp
  | ret =>
      obtain ⟨c, frame, below, obj, conn, hstack, -, -, hcase⟩ := step_ret hstep
      have hnested := h.nested
      rw [hstack] at hnested
      have hbelow := wellNested_of_cons hnested
      have hafter : WellFormed ({ s with stack := below }.after c (conn, none)) :=
        (h.withStack hbelow).after hbelow
      obtain ⟨-, rfl⟩ | ⟨-, rfl⟩ := hcase
      · exact hafter.removeConnection obj.name
      · exact hafter

theorem wellFormed_run {writeComplete : Bool} {is : List Input} {s : EventLoop}
    (hrun : run step (start writeComplete) is = some s) : WellFormed s :=
  Lib.Machine.invariant (fun _ _ _ h hstep => wellFormed_step h hstep)
    ⟨wellNested_nil, by simp [start]⟩ hrun

/-- Without the entry under its name, an object has none. -/
theorem WellFormed.countP_erase {s : EventLoop} (h : WellFormed s) {c : Nat} {obj : ConnObject}
    (hobj : s.heap[c]? = some obj) :
    (s.server.connections.erase obj.name).toList.countP (fun entry => entry.2 = c) = 0 := by
  rw [List.countP_eq_zero]
  intro entry hmem
  obtain ⟨name, c'⟩ := entry
  have hentry := Std.ExtTreeMap.mem_toList_iff_getElem?_eq_some.mp hmem
  rw [Std.ExtTreeMap.getElem?_erase] at hentry
  split at hentry
  · cases hentry
  · rename_i hname
    simp only [decide_eq_true_eq]
    intro heq
    obtain rfl := heq
    have hold := h.named name c' hentry
    rw [hobj, Option.map_some] at hold
    exact hname (by simpa using Option.some.inj hold)

/-- **A closed connection is always tested once more.** When `handleClose` gets
past its `connectionCallback_`, in any run, the connection has no owner left and
`handleEvent` is about to make its write test. -/
theorem not_owned_of_closed {writeComplete : Bool} {is : List Input} {s t : EventLoop}
    {c : Nat} {below : List Call} (hrun : run step (start writeComplete) is = some s)
    (hstack : s.stack = .conn c .handleClose :: below) (hstep : step s .ret = some t) :
    ¬ Owned t := by
  have h := wellFormed_run hrun
  have hnested := h.nested
  rw [hstack] at hnested
  obtain rfl : below = [.handleEvent c .write] := hnested
  obtain ⟨c', frame, below', obj, conn, hstack', hobj, -, hcase⟩ := step_ret hstep
  rw [hstack] at hstack'
  obtain ⟨hcall, rfl⟩ := List.cons.inj hstack'
  obtain ⟨rfl, rfl⟩ := Call.conn.inj hcall
  obtain ⟨-, rfl⟩ := hcase.resolve_right fun hother => hother.1 rfl
  intro howned
  have hpos := howned c .write [] rfl
  have hzero : owners (removeConnection
      ({ s with stack := [.handleEvent c .write] }.after c (conn, none)) obj.name) c = 0 := by
    rw [owners]
    show List.countP _ (s.server.connections.erase obj.name).toList + 0 = 0
    rw [h.countP_erase hobj]
  omega

/-- A connection whose peer closes it. -/
def closedRun : List Input :=
  [.wait [(.acceptor, {.EPOLLIN})], .accept true, .ret,
    .wait [(.conn 0, {.EPOLLIN})], .dispatch, .test (.bytes []) 0, .test (.bytes []) 0, .ret]

/-- The write test of `closedRun` is made on a connection without an owner. -/
theorem not_always_owned :
    ¬ ∀ (writeComplete : Bool) (is : List Input) (s : EventLoop),
      run step (start writeComplete) is = some s → Owned s := by
  intro h
  have hrun : (run step (start false) closedRun).map (fun s => (s.stack, s.owners 0)) =
      some ([.handleEvent 0 .write], 0) := by decide +kernel
  obtain ⟨s, hs, heq⟩ := Option.map_eq_some_iff.mp hrun
  obtain ⟨hstack, howners⟩ := Prod.mk.inj heq
  have hpos := h false closedRun s hs 0 .write [] hstack
  rw [howners] at hpos
  exact Nat.lt_irrefl 0 hpos

end EventLoop

end Dummyload
