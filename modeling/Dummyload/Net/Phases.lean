import Dummyload.Net.Application

/-!
# Dummyload.Net.Phases

The life of a connection: its `state_` only moves forward, its callbacks come in the
order up, messages, down, close, and its entry in `connections_` is there from its
first callback to its last.

While a connection is open its channel reads. `handleClose` makes an end of that, and a
`send` afterwards can only ask for EPOLLOUT, so that `handleEvent` comes no more to
`handleRead`, even where the application keeps the connection alive. That argument is
carried by `Phase`, one for each part of the life, and `Lifecycle` is the invariant of
the loop that holds them.
-/

namespace Dummyload

/-- `std::to_string(nextId_)`, the name of a connection. -/
def connName (n : Int) : Bytes :=
  if n < 0 then chr '-' :: toDecimal n.natAbs else toDecimal n.natAbs

theorem connName_injective : Function.Injective connName := by
  have hdigits : ∀ m n : Nat, toDecimal m = toDecimal n → m = n := fun m n h => by
    rw [← decimal_toDecimal m, h, decimal_toDecimal]
  have hminus : ∀ m n : Nat, chr '-' :: toDecimal m ≠ toDecimal n := fun m n h =>
    absurd (isdigit_of_mem_toDecimal (h ▸ List.mem_cons_self)) (by decide)
  intro m n h
  rw [connName, connName] at h
  split_ifs at h with hm hn hn
  · have := hdigits _ _ (List.cons.inj h).2
    omega
  · exact absurd h (hminus _ _)
  · exact absurd h.symm (hminus _ _)
  · have := hdigits _ _ h
    omega

/-- The order of the states. -/
def StateE.rank : StateE → Nat
  | .kConnecting => 0
  | .kConnected => 1
  | .kDisconnecting => 2
  | .kDisconnected => 3

/-- A callback that belongs to the life of the connection. -/
def Effect.isLifecycle : Effect → Bool
  | .connectionCallback | .messageCallback | .closeCallback => true
  | .write _ _ | .shutdownWrite | .writeCompleteCallback => false

/-- The bits on which `handleEvent` calls `handleRead`. -/
def readBits : Events := {.EPOLLIN, .EPOLLPRI, .EPOLLRDHUP}

namespace TcpConnection

/-- The callbacks so far, but for `writeCompleteCallback_`. -/
def callbacks (conn : TcpConnection) : List Effect := conn.effects.filter Effect.isLifecycle

@[simp] theorem callbacks_emit (conn : TcpConnection) (e : Effect) :
    (conn.emit e).callbacks = conn.callbacks ++ [e].filter Effect.isLifecycle := by
  rw [callbacks, callbacks, emit, List.filter_append]

/-! ### Functions that the life of a connection goes on through -/

/-- `conn'` is `conn` at a later time of the same phase, unless it has begun to close. -/
structure Continues (conn conn' : TcpConnection) : Prop where
  state : conn'.state = conn.state ∨ (conn.state = .kConnected ∧ conn'.state = .kDisconnecting)
  revents : conn'.channel.revents = conn.channel.revents
  reads : conn.channel.Reads → conn'.channel.Reads
  writes : conn.channel.WritesOnly → conn'.channel.WritesOnly
  callbacks : conn'.callbacks = conn.callbacks
  effects : conn.effects <+: conn'.effects

section Continues

variable {conn conn' conn'' : TcpConnection}

/-- Nothing that matters here has changed. -/
theorem Continues.of_same (hstate : conn'.state = conn.state)
    (hchannel : conn'.channel = conn.channel)
    (heffects : conn'.effects = conn.effects) :
    Continues conn conn' where
  state := Or.inl hstate
  revents := by rw [hchannel]
  reads h := by rwa [hchannel]
  writes h := by rwa [hchannel]
  callbacks := by rw [TcpConnection.callbacks, TcpConnection.callbacks, heffects]
  effects := by rw [heffects]

theorem Continues.refl (conn : TcpConnection) : Continues conn conn := .of_same rfl rfl rfl

theorem Continues.trans (h : Continues conn conn') (h' : Continues conn' conn'') :
    Continues conn conn'' where
  state := by
    rcases h.state with hstate | ⟨hstate, hstate'⟩
    · rw [← hstate]
      exact h'.state
    · rcases h'.state with hstate'' | ⟨hother, -⟩
      · exact Or.inr ⟨hstate, hstate''.trans hstate'⟩
      · rw [hstate'] at hother
        cases hother
  revents := h'.revents.trans h.revents
  reads hreads := h'.reads (h.reads hreads)
  writes hwrites := h'.writes (h.writes hwrites)
  callbacks := h'.callbacks.trans h.callbacks
  effects := h.effects.trans h'.effects

theorem Continues.rank_le (h : Continues conn conn') : conn.state.rank ≤ conn'.state.rank := by
  rcases h.state with hstate | ⟨hstate, hstate'⟩
  · rw [hstate]
  · rw [hstate, hstate']
    decide

theorem continues_emit (conn : TcpConnection) {e : Effect} (he : e.isLifecycle = false) :
    Continues conn (conn.emit e) where
  state := Or.inl rfl
  revents := rfl
  reads h := h
  writes h := h
  callbacks := by rw [callbacks_emit, List.filter_cons_of_neg (by simp [he])]; simp
  effects := List.prefix_append _ _

theorem continues_wrote (conn : TcpConnection) (data : Bytes) (count : Nat) (result : Int) :
    Continues conn (conn.wrote data count result) :=
  (continues_emit conn rfl).trans (.of_same rfl rfl rfl)

theorem continues_keep (conn : TcpConnection) (buf : Buffer) : Continues conn (conn.keep buf) where
  state := Or.inl rfl
  revents := by
    rw [keep]
    dsimp only
    split
    · rfl
    · exact Channel.revents_update _
  reads h := by
    rw [keep]
    dsimp only
    split
    · exact h
    · exact h.enableWriting
  writes h := by
    rw [keep]
    dsimp only
    split
    · exact h
    · exact h.enableWriting
  callbacks := rfl
  effects := List.prefix_refl _

theorem continues_drain (conn : TcpConnection) (buf : Buffer) :
    Continues conn (conn.drain buf) where
  state := Or.inl rfl
  revents := Channel.revents_update _
  reads h := h.disableWriting
  writes h := h.disableWriting
  callbacks := rfl
  effects := List.prefix_refl _

theorem continues_handleWriteRest (conn : TcpConnection) : Continues conn conn.handleWriteRest := by
  rw [handleWriteRest]
  split
  · exact continues_emit conn rfl
  · exact .refl conn

theorem SendEnds.continues {len nwrote : Int} (h : SendEnds conn len nwrote conn') :
    Continues conn conn' := by
  cases h with
  | done _ => exact .refl conn
  | kept _ _ _ => exact continues_keep conn _

theorem continues_send {message : Bytes} {result : Int} {frame : Option Frame}
    (h : conn.send message result = some (conn', frame)) : Continues conn conn' := by
  cases send_cases h with
  | complete _ _ _ => exact (continues_wrote conn _ _ _).trans (continues_emit _ rfl)
  | direct _ _ hend => exact (continues_wrote conn _ _ _).trans hend.continues
  | queued _ hend => exact hend.continues

theorem continues_handleWrite {result : Int} {frame : Option Frame}
    (h : conn.handleWrite result = some (conn', frame)) : Continues conn conn' := by
  have hwrote := continues_wrote conn conn.outputBuffer.readable conn.outputBuffer.readableBytes
    result
  cases handleWrite_cases h with
  | idle _ => exact .refl conn
  | refused _ => exact hwrote
  | part _ _ => exact hwrote.trans (.of_same rfl rfl rfl)
  | complete _ _ => exact (hwrote.trans (continues_drain _ _)).trans (continues_emit _ rfl)
  | drained _ _ => exact (hwrote.trans (continues_drain _ _)).trans (continues_handleWriteRest _)

theorem continues_shutdown (conn : TcpConnection) : Continues conn conn.shutdown := by
  rw [shutdown]
  split
  · rename_i hstate
    have hclosing : Continues conn { conn with state := .kDisconnecting } :=
      ⟨Or.inr ⟨hstate, rfl⟩, rfl, fun h => h, fun h => h, rfl, List.prefix_refl _⟩
    dsimp only
    split
    · exact hclosing.trans (continues_emit _ rfl)
    · exact hclosing
  · exact .refl conn

theorem continues_resume {frame : Frame} (hframe : frame ≠ .handleClose)
    (h : conn.resume frame = some conn') : Continues conn conn' := by
  cases frame with
  | connectEstablished =>
      obtain rfl := Option.some.inj h
      exact .refl conn
  | handleRead =>
      obtain rfl := Option.some.inj h
      exact .refl conn
  | handleWrite =>
      obtain rfl := Option.some.inj h
      exact continues_handleWriteRest conn
  | handleClose => exact absurd rfl hframe
  | send data len nwrote => exact (sendRest_cases h).continues

end Continues

end TcpConnection

/-! ### The phases of a connection -/

/-- The callbacks of a connection that has come up and got `n` messages. -/
def upCalls (n : Nat) : List Effect := .connectionCallback :: List.replicate n .messageCallback

/-- The callbacks in the order in which they may come, up to this state. -/
inductive Ordered : StateE → List Effect → Prop
  | up {state : StateE} (n : Nat) (hstate : state = .kConnected ∨ state = .kDisconnecting) :
      Ordered state (upCalls n)
  | down (n : Nat) : Ordered .kDisconnected (upCalls n ++ [.connectionCallback])
  | closed (n : Nat) : Ordered .kDisconnected (upCalls n ++ [.connectionCallback, .closeCallback])

namespace EventLoop

/-- `handleEvent` has the read test of this connection's channel still to make. -/
def Pending (s : EventLoop) (c : Nat) : Prop :=
  .conn c ∈ s.active ∨ .handleEvent c .error ∈ s.stack ∨ .handleEvent c .read ∈ s.stack

/-- After `handleClose`: whatever `handleEvent` has still to test, it finds nothing to read. -/
structure Deaf (s : EventLoop) (c : Nat) (conn : TcpConnection) : Prop where
  state : conn.state = .kDisconnected
  writes : conn.channel.WritesOnly
  revents : s.Pending c → conn.channel.revents ∩ readBits = ∅

/-- Where object `c` is in its life. -/
inductive Phase (s : EventLoop) (c : Nat) (obj : ConnObject) : Prop
  | up (n : Nat) (hstate : obj.conn.state = .kConnected ∨ obj.conn.state = .kDisconnecting)
      (hcalls : obj.conn.callbacks = upCalls n) (hreads : obj.conn.channel.Reads)
      (hentry : s.server.connections[obj.name]? = some c)
      (hstack : .conn c .handleClose ∉ s.stack)
  /-- In the `connectionCallback_` of `handleClose`. -/
  | down (n : Nat) (hdeaf : s.Deaf c obj.conn)
      (hcalls : obj.conn.callbacks = upCalls n ++ [.connectionCallback])
      (hentry : s.server.connections[obj.name]? = some c)
      (hstack : .conn c .handleClose ∈ s.stack)
  | closed (n : Nat) (hdeaf : s.Deaf c obj.conn)
      (hcalls : obj.conn.callbacks = upCalls n ++ [.connectionCallback, .closeCallback])
      (hentry : s.server.connections[obj.name]? = none)
      (hstack : .conn c .handleClose ∉ s.stack)

section Phase

variable {s t : EventLoop} {c : Nat} {obj : ConnObject}

theorem Phase.ordered (h : Phase s c obj) : Ordered obj.conn.state obj.conn.callbacks := by
  cases h with
  | up n hstate hcalls _ _ _ =>
      rw [hcalls]
      exact .up n hstate
  | down n hdeaf hcalls _ _ =>
      rw [hcalls, hdeaf.state]
      exact .down n
  | closed n hdeaf hcalls _ _ =>
      rw [hcalls, hdeaf.state]
      exact .closed n

theorem Deaf.of_pending {conn : TcpConnection} (h : s.Deaf c conn)
    (hpending : t.Pending c → s.Pending c) : t.Deaf c conn :=
  ⟨h.state, h.writes, fun ht => h.revents (hpending ht)⟩

/-- What the phase of an object depends on besides the object. -/
theorem Phase.of_same (h : Phase s c obj)
    (hentry : t.server.connections[obj.name]? = s.server.connections[obj.name]?)
    (hclose : .conn c .handleClose ∈ t.stack ↔ .conn c .handleClose ∈ s.stack)
    (hpending : t.Pending c → s.Pending c) : Phase t c obj := by
  cases h with
  | up n hstate hcalls hreads hold hstack =>
      exact .up n hstate hcalls hreads (hentry.trans hold) (fun ht => hstack (hclose.mp ht))
  | down n hdeaf hcalls hold hstack =>
      exact .down n (hdeaf.of_pending hpending) hcalls (hentry.trans hold) (hclose.mpr hstack)
  | closed n hdeaf hcalls hold hstack =>
      exact .closed n (hdeaf.of_pending hpending) hcalls (hentry.trans hold)
        (fun ht => hstack (hclose.mp ht))

theorem Deaf.continues {conn conn' : TcpConnection} (h : s.Deaf c conn)
    (hc : conn.Continues conn') : s.Deaf c conn' where
  state := by
    rcases hc.state with hstate | ⟨hstate, -⟩
    · exact hstate.trans h.state
    · rw [h.state] at hstate
      cases hstate
  writes := hc.writes h.writes
  revents hpending := by
    rw [hc.revents]
    exact h.revents hpending

theorem Phase.continues (h : Phase s c obj) {conn : TcpConnection}
    (hc : obj.conn.Continues conn) : Phase s c { obj with conn := conn } := by
  cases h with
  | up n hstate hcalls hreads hentry hstack =>
      refine .up n ?_ (hc.callbacks.trans hcalls) (hc.reads hreads) hentry hstack
      rcases hc.state with hsame | ⟨-, hclosing⟩
      · exact hstate.imp hsame.trans hsame.trans
      · exact Or.inr hclosing
  | down n hdeaf hcalls hentry hstack =>
      exact .down n (hdeaf.continues hc) (hc.callbacks.trans hcalls) hentry hstack
  | closed n hdeaf hcalls hentry hstack =>
      exact .closed n (hdeaf.continues hc) (hc.callbacks.trans hcalls) hentry hstack

/-- `epoll` reports nothing to read on a channel that only writes. -/
theorem Phase.polled (h : Phase s c obj) {revents : Events}
    (hserver : t.server = s.server) (hstack : t.stack = s.stack)
    (hrevents : obj.conn.channel.WritesOnly → t.Pending c → revents ∩ readBits = ∅) :
    Phase t c { obj with
      conn := { obj.conn with channel := { obj.conn.channel with revents := revents } } } := by
  have hdeaf : s.Deaf c obj.conn → t.Deaf c
      { obj.conn with channel := { obj.conn.channel with revents := revents } } := fun h =>
    ⟨h.state, ⟨h.writes.events, h.writes.registered⟩, fun ht => hrevents h.writes ht⟩
  cases h with
  | up n hstate hcalls hreads hentry hclose =>
      exact .up n hstate hcalls ⟨hreads.state, hreads.reading⟩ (by rwa [hserver]) (by rwa [hstack])
  | down n hold hcalls hentry hclose =>
      exact .down n (hdeaf hold) hcalls (by rwa [hserver]) (by rwa [hstack])
  | closed n hold hcalls hentry hclose =>
      exact .closed n (hdeaf hold) hcalls (by rwa [hserver]) (by rwa [hstack])

/-- `handleRead` is called on open connections only. -/
theorem Phase.open_of_reads (h : Phase s c obj) (hpending : s.Pending c)
    (hreads : (obj.conn.channel.revents ∩ readBits).Nonempty) :
    ∃ n, (obj.conn.state = .kConnected ∨ obj.conn.state = .kDisconnecting) ∧
      obj.conn.callbacks = upCalls n ∧ obj.conn.channel.Reads ∧
      s.server.connections[obj.name]? = some c ∧ .conn c .handleClose ∉ s.stack := by
  have hnot : ¬ s.Deaf c obj.conn := fun hdeaf => by
    rw [hdeaf.revents hpending] at hreads
    exact Finset.not_nonempty_empty hreads
  cases h with
  | up n hstate hcalls hreading hentry hstack => exact ⟨n, hstate, hcalls, hreading, hentry, hstack⟩
  | down n hdeaf _ _ _ => exact absurd hdeaf hnot
  | closed n hdeaf _ _ _ => exact absurd hdeaf hnot

end Phase

/-! ### The invariant of the loop -/

/-- Objects are named in the order of their allocation, and each is in one of the phases. -/
structure Lifecycle (s : EventLoop) : Prop where
  nextId : s.server.nextId = s.heap.length
  name : ∀ (c : Nat) obj, s.heap[c]? = some obj → obj.name = c + 1
  entry : ∀ (name : Int) (c : Nat), s.server.connections[name]? = some c →
    c < s.heap.length ∧ name = c + 1
  nested : WellNested s.stack
  active : s.active.Nodup
  dispatched : ∀ c test, .handleEvent c test ∈ s.stack → .conn c ∉ s.active
  phase : ∀ c obj, s.heap[c]? = some obj → Phase s c obj

theorem lifecycle_start (writeComplete : Bool) : Lifecycle (start writeComplete) where
  nextId := rfl
  name := by simp [start]
  entry := by simp [start]
  nested := wellNested_nil
  active := List.nodup_nil
  dispatched := by simp [start]
  phase := by simp [start]

/-- The stack and the active channels have changed, and no object has. -/
theorem Lifecycle.withControl {s : EventLoop} (h : Lifecycle s) {active : List Target}
    {stack : List Call} (hnested : WellNested stack) (hactive : active.Nodup)
    (hdispatched : ∀ c test, .handleEvent c test ∈ stack → .conn c ∉ active)
    (hclose : ∀ c, .conn c .handleClose ∈ stack ↔ .conn c .handleClose ∈ s.stack)
    (hpending : ∀ c, Pending { s with active := active, stack := stack } c → s.Pending c) :
    Lifecycle { s with active := active, stack := stack } where
  nextId := h.nextId
  name := h.name
  entry := h.entry
  nested := hnested
  active := hactive
  dispatched := hdispatched
  phase c obj hobj := (h.phase c obj hobj).of_same rfl (hclose c) (hpending c)

/-- From `s` to `t` the connection of object `c` became `conn`, and its entry was possibly
erased. -/
structure ChangesObject (s t : EventLoop) (c : Nat) (obj : ConnObject) (conn : TcpConnection) :
    Prop where
  found : s.heap[c]? = some obj
  heap : t.heap = s.heap.modify c fun obj => { obj with conn := conn }
  nextId : t.server.nextId = s.server.nextId
  entries : ∀ name : Int, name ≠ obj.name →
    t.server.connections[name]? = s.server.connections[name]?
  entry : ∀ c' : Nat, t.server.connections[obj.name]? = some c' →
    s.server.connections[obj.name]? = some c'
  active : t.active = s.active
  nested : WellNested t.stack
  stack : ∀ call : Call, call.object ≠ c → (call ∈ t.stack ↔ call ∈ s.stack)
  dispatched : ∀ test, .handleEvent c test ∈ t.stack → ∃ test', .handleEvent c test' ∈ s.stack

/-- An object of `t` is the one that has changed, or was there before. -/
theorem ChangesObject.getElem? {s t : EventLoop} {c c' : Nat} {obj obj' : ConnObject}
    {conn : TcpConnection} (hc : ChangesObject s t c obj conn) (h : t.heap[c']? = some obj') :
    (c' = c ∧ obj' = { obj with conn := conn }) ∨ (c' ≠ c ∧ s.heap[c']? = some obj') := by
  rw [hc.heap, List.getElem?_modify] at h
  by_cases hcc : c = c'
  · obtain rfl := hcc
    rw [hc.found] at h
    simp only [if_true, Option.map_eq_map, Option.map_some, Option.some.injEq] at h
    exact Or.inl ⟨rfl, h.symm⟩
  · simp only [if_neg hcc, Option.map_eq_map, Option.map_id'] at h
    exact Or.inr ⟨fun heq => hcc heq.symm, h⟩

/-- The phases of the other objects are what they were. -/
theorem Lifecycle.changesObject {s t : EventLoop} (h : Lifecycle s) {c : Nat} {obj : ConnObject}
    {conn : TcpConnection} (hc : ChangesObject s t c obj conn)
    (hphase : Phase t c { obj with conn := conn }) : Lifecycle t := by
  have hlen : t.heap.length = s.heap.length := by rw [hc.heap, List.length_modify]
  refine ⟨?_, fun c' obj' hobj' => ?_, fun name c' hentry => ?_, hc.nested, ?_,
    fun c' test hmem => ?_, fun c' obj' hobj' => ?_⟩
  · rw [hc.nextId, hlen, h.nextId]
  · rcases hc.getElem? hobj' with ⟨rfl, rfl⟩ | ⟨-, hold⟩
    · exact h.name c' obj hc.found
    · exact h.name c' obj' hold
  · rw [hlen]
    by_cases hname : name = obj.name
    · obtain rfl := hname
      exact h.entry _ c' (hc.entry c' hentry)
    · rw [hc.entries name hname] at hentry
      exact h.entry name c' hentry
  · rw [hc.active]
    exact h.active
  · rw [hc.active]
    by_cases hcc : c' = c
    · obtain rfl := hcc
      obtain ⟨test', hmem'⟩ := hc.dispatched test hmem
      exact h.dispatched c' test' hmem'
    · exact h.dispatched c' test ((hc.stack (.handleEvent c' test) hcc).mp hmem)
  · rcases hc.getElem? hobj' with ⟨rfl, rfl⟩ | ⟨hne, hold⟩
    · exact hphase
    · refine (h.phase c' obj' hold).of_same (hc.entries _ ?_) (hc.stack _ hne) ?_
      · rw [h.name c' obj' hold, h.name c obj hc.found]
        omega
      · intro hpending
        rw [Pending, hc.active] at hpending
        exact hpending.imp_right (Or.imp (hc.stack (.handleEvent c' .error) hne).mp
          (hc.stack (.handleEvent c' .read) hne).mp)

/-- Names are distinct, as the texts that the source makes of them. -/
theorem Lifecycle.nodup_names {s : EventLoop} (h : Lifecycle s) :
    (s.heap.map fun obj => connName obj.name).Nodup := by
  have hnames : s.heap.map ConnObject.name =
      (List.range s.heap.length).map fun c : Nat => (c : Int) + 1 := by
    refine List.ext_getElem (by simp) fun c hc hc' => ?_
    rw [List.length_map] at hc
    rw [List.getElem_map, List.getElem_map, List.getElem_range]
    exact h.name c _ (List.getElem?_eq_getElem hc)
  have hnodup : (s.heap.map ConnObject.name).Nodup := by
    rw [hnames]
    exact List.nodup_range.map fun m n hmn => by simpa using hmn
  have := hnodup.map connName_injective
  rwa [List.map_map] at this

/-- The callbacks of the three phases: only the last one has `closeCallback_`. -/
theorem closeCallback_notMem_upCalls (n : Nat) : Effect.closeCallback ∉ upCalls n := by
  rw [upCalls, List.mem_cons, not_or]
  refine ⟨by decide, fun hmem => ?_⟩
  cases List.eq_of_mem_replicate hmem

theorem mem_callbacks_iff {conn : TcpConnection} {e : Effect} (he : e.isLifecycle = true) :
    e ∈ conn.callbacks ↔ e ∈ conn.effects := by
  rw [TcpConnection.callbacks, List.mem_filter, and_iff_left he]

/-- Between events, the entries are those of the connections that have not been closed. -/
theorem Lifecycle.entry_iff {s : EventLoop} (h : Lifecycle s) (hstack : s.stack = []) (name : Int)
    (c : Nat) : s.server.connections[name]? = some c ↔
      ∃ obj, s.heap[c]? = some obj ∧ obj.name = name ∧ .closeCallback ∉ obj.conn.effects := by
  have hphase : ∀ obj, s.heap[c]? = some obj →
      (s.server.connections[obj.name]? = some c ∧ .closeCallback ∉ obj.conn.effects) ∨
      (s.server.connections[obj.name]? = none ∧ .closeCallback ∈ obj.conn.effects) := by
    intro obj hobj
    rw [← mem_callbacks_iff rfl]
    cases h.phase c obj hobj with
    | up n _ hcalls _ hentry _ =>
        rw [hcalls]
        exact Or.inl ⟨hentry, closeCallback_notMem_upCalls n⟩
    | down n _ _ _ hclose =>
        rw [hstack] at hclose
        cases hclose
    | closed n _ hcalls hentry _ =>
        rw [hcalls]
        exact Or.inr ⟨hentry, List.mem_append_right _ (by simp)⟩
  constructor
  · intro hentry
    obtain ⟨hlt, rfl⟩ := h.entry name c hentry
    have hobj := List.getElem?_eq_getElem hlt
    have hname := h.name c _ hobj
    refine ⟨_, hobj, hname, ?_⟩
    rcases hphase _ hobj with ⟨-, hopen⟩ | ⟨hnone, -⟩
    · exact hopen
    · rw [hname, hentry] at hnone
      cases hnone
  · intro hopen
    obtain ⟨obj, hobj, rfl, hopen⟩ := hopen
    exact ((hphase obj hobj).resolve_right fun hclosed => hopen hclosed.2).1

/-! ### What a step preserves -/

section Step

variable {s : EventLoop} {c : Nat} {obj : ConnObject} {conn : TcpConnection}

/-- A function of object `c` has run, with `below` on the stack instead of `s.stack`. -/
theorem changesObject_after {below : List Call} {frame : Option Frame}
    (hobj : s.heap[c]? = some obj)
    (hnested : WellNested ((frame.map (Call.conn c)).toList ++ below))
    (hbelow : ∀ call : Call, call.object ≠ c → (call ∈ below ↔ call ∈ s.stack))
    (hdispatched : ∀ test, .handleEvent c test ∈ below → ∃ test', .handleEvent c test' ∈ s.stack) :
    ChangesObject s ({ s with stack := below }.after c (conn, frame)) c obj conn where
  found := hobj
  heap := rfl
  nextId := rfl
  entries _ _ := rfl
  entry _ h := h
  active := rfl
  nested := hnested
  stack call hcall := by
    rw [← hbelow call hcall]
    constructor
    · intro hmem
      rcases mem_stack_after _ _ _ hmem with ⟨frame', -, rfl⟩ | hmem
      · exact absurd rfl hcall
      · exact hmem
    · exact fun hmem => List.mem_append_right _ hmem
  dispatched test hmem := by
    rcases mem_stack_after _ _ _ hmem with ⟨frame', -, heq⟩ | hmem
    · cases heq
    · exact hdispatched test hmem

/-- What `handleClose` is on the stack, after a function other than `handleClose` has run. -/
theorem mem_handleClose_after {below : List Call} {frame : Option Frame}
    (hframe : frame ≠ some .handleClose) (c' : Nat) :
    .conn c' .handleClose ∈ ({ s with stack := below }.after c (conn, frame)).stack ↔
      .conn c' .handleClose ∈ below := by
  constructor
  · intro hmem
    rcases mem_stack_after _ _ _ hmem with ⟨frame', hframe', heq⟩ | hmem
    · obtain ⟨-, rfl⟩ := Call.conn.inj heq
      exact absurd hframe' hframe
    · exact hmem
  · exact fun hmem => List.mem_append_right _ hmem

theorem pending_after {below : List Call} {frame : Option Frame} {c' : Nat}
    (h : ({ s with stack := below }.after c (conn, frame)).Pending c') :
    { s with stack := below }.Pending c' := by
  have hmem : ∀ test, .handleEvent c' test ∈
      ({ s with stack := below }.after c (conn, frame)).stack → .handleEvent c' test ∈ below := by
    intro test hmem
    rcases mem_stack_after _ _ _ hmem with ⟨frame', -, heq⟩ | hmem
    · cases heq
    · exact hmem
  exact h.imp_right (Or.imp (hmem _) (hmem _))

/-- A function of object `c` that its phase goes on through. -/
theorem Lifecycle.after (h : Lifecycle s) {frame : Option Frame} (hobj : s.heap[c]? = some obj)
    (hc : obj.conn.Continues conn) (hframe : frame ≠ some .handleClose) :
    Lifecycle (s.after c (conn, frame)) := by
  refine h.changesObject (changesObject_after hobj (wellNested_cons hframe h.nested)
    (fun _ _ => Iff.rfl) fun test hmem => ⟨test, hmem⟩) ?_
  exact ((h.phase c obj hobj).continues hc).of_same rfl (mem_handleClose_after hframe c)
    pending_after

/-- An object after `newConnection` is the new one, or was there before. -/
theorem getElem?_newConnection (h : s.newConnection.heap[c]? = some obj) :
    (c = s.heap.length ∧ obj = ⟨toInt (s.server.nextId + 1),
      (TcpConnection.connectEstablished { writeComplete := s.writeComplete }).1⟩) ∨
    s.heap[c]? = some obj := by
  change (s.heap ++ [_])[c]? = some obj at h
  by_cases hlt : c < s.heap.length
  · rw [List.getElem?_append_left hlt] at h
    exact Or.inr h
  · rw [List.getElem?_append_right (Nat.le_of_not_lt hlt), List.getElem?_singleton] at h
    split at h
    · exact Or.inl ⟨by omega, (Option.some.inj h).symm⟩
    · cases h

theorem Lifecycle.newConnection (h : Lifecycle s) (hstack : s.stack = [])
    (hcount : s.heap.length + 1 < 2 ^ 31) : Lifecycle s.newConnection := by
  have hname : toInt (s.server.nextId + 1) = s.heap.length + 1 := by
    rw [h.nextId]
    exact toInt_of_range (by omega) (by omega)
  have hlen : s.newConnection.heap.length = s.heap.length + 1 := by simp [EventLoop.newConnection]
  have hcalls : s.newConnection.stack = [.conn s.heap.length .connectEstablished] :=
    congrArg (_ :: ·) hstack
  have hserver : s.newConnection.server =
      ⟨s.heap.length + 1, s.server.connections.insert (s.heap.length + 1 : Int) s.heap.length⟩ := by
    rw [← hname]
    rfl
  refine ⟨?_, fun c obj hobj => ?_, fun name c hentry => ?_, ?_, h.active, ?_,
    fun c obj hobj => ?_⟩
  · rw [hserver, hlen]
    push_cast
    rfl
  · rcases getElem?_newConnection hobj with ⟨rfl, rfl⟩ | hold
    · exact hname
    · exact h.name c obj hold
  · rw [hserver, Std.ExtTreeMap.getElem?_insert] at hentry
    rw [hlen]
    split at hentry
    · rename_i heq
      obtain rfl := Option.some.inj hentry
      exact ⟨Nat.lt_succ_self _, (Std.compare_eq_iff_eq.mp heq).symm⟩
    · obtain ⟨hlt, hname⟩ := h.entry name c hentry
      exact ⟨by omega, hname⟩
  · rw [hcalls]
    exact trivial
  · rw [hcalls]
    simp
  · rcases getElem?_newConnection hobj with ⟨rfl, rfl⟩ | hold
    · refine .up 0 (Or.inl rfl) rfl ?_ ?_ (by simp [hcalls])
      · exact ⟨rfl, Finset.subset_union_right⟩
      · rw [hserver, hname]
        exact Std.ExtTreeMap.getElem?_insert_self
    · refine (h.phase c obj hold).of_same ?_ (by simp [hcalls, hstack]) fun hpending => ?_
      · have hlt := (List.getElem?_eq_some_iff.mp hold).1
        rw [hserver, Std.ExtTreeMap.getElem?_insert, if_neg]
        rw [h.name c obj hold, Std.compare_eq_iff_eq]
        omega
      · rw [Pending, hcalls] at hpending
        exact hpending.imp_right fun hmem => by simp at hmem

/-- What `epoll_wait` reports goes to `revents_` of each channel that it reports. -/
theorem getElem?_foldl_setRevents {ready : List (Target × Events)}
    (hnodup : (ready.map Prod.fst).Nodup) {heap : List ConnObject} {obj' : ConnObject}
    (h : (ready.foldl setRevents heap)[c]? = some obj') :
    ∃ obj revents, heap[c]? = some obj ∧
      obj' = { obj with
        conn := { obj.conn with channel := { obj.conn.channel with revents := revents } } } ∧
      ((.conn c, revents) ∈ ready ∨
        (.conn c ∉ ready.map Prod.fst ∧ revents = obj.conn.channel.revents)) := by
  induction ready generalizing heap with
  | nil => exact ⟨obj', obj'.conn.channel.revents, h, rfl, Or.inr ⟨List.not_mem_nil, rfl⟩⟩
  | cons e ready ih =>
      rw [List.map_cons, List.nodup_cons] at hnodup
      obtain ⟨obj, revents, hobj, rfl, hmem⟩ := ih hnodup.2 h
      obtain ⟨target, mask⟩ := e
      by_cases htarget : target = .conn c
      · obtain rfl := htarget
        rw [setRevents, List.getElem?_modify_eq] at hobj
        obtain ⟨old, hold, rfl⟩ := Option.map_eq_some_iff.mp hobj
        rcases hmem with hmem | ⟨-, rfl⟩
        · exact absurd (List.mem_map_of_mem hmem) hnodup.1
        · exact ⟨old, _, hold, rfl, Or.inl List.mem_cons_self⟩
      · have hsame : (setRevents heap (target, mask))[c]? = heap[c]? := by
          cases target with
          | acceptor => rfl
          | conn c' =>
              rw [setRevents, List.getElem?_modify_ne]
              exact fun heq => htarget (heq ▸ rfl)
        rw [hsame] at hobj
        refine ⟨obj, revents, hobj, rfl, hmem.imp (List.mem_cons_of_mem _) fun hnot => ?_⟩
        rw [List.map_cons, List.mem_cons, not_or]
        exact ⟨⟨fun heq => htarget heq.symm, hnot.1⟩, hnot.2⟩

/-- `epoll_wait` has returned. -/
theorem Lifecycle.polled (h : Lifecycle s) (hstack : s.stack = []) {ready : List (Target × Events)}
    (hnodup : (ready.map Prod.fst).Nodup)
    (hready : ∀ (c : Nat) (obj : ConnObject) (revents : Events), (.conn c, revents) ∈ ready →
      s.heap[c]? = some obj → obj.conn.channel.WritesOnly → revents ∩ readBits = ∅) :
    Lifecycle { s with heap := ready.foldl setRevents s.heap, active := ready.map Prod.fst } where
  nextId := by rw [length_foldl_setRevents, h.nextId]
  name c obj' hobj' := by
    obtain ⟨obj, revents, hobj, rfl, -⟩ := getElem?_foldl_setRevents hnodup hobj'
    exact h.name c obj hobj
  entry name c hentry := by
    rw [length_foldl_setRevents]
    exact h.entry name c hentry
  nested := h.nested
  active := hnodup
  dispatched c test hmem := by
    change .handleEvent c test ∈ s.stack at hmem
    rw [hstack] at hmem
    cases hmem
  phase c obj' hobj' := by
    obtain ⟨obj, revents, hobj, rfl, hmem⟩ := getElem?_foldl_setRevents hnodup hobj'
    refine (h.phase c obj hobj).polled rfl rfl fun hwrites hpending => ?_
    rcases hmem with hmem | ⟨hnot, -⟩
    · exact hready c obj revents hmem hobj hwrites
    · rw [Pending] at hpending
      simp only [hstack, List.not_mem_nil, or_self, or_false] at hpending
      exact absurd hpending hnot

/-- With its read test made, a channel in `handleEvent` has nothing pending. -/
theorem Lifecycle.not_pending (h : Lifecycle s) {test : Test}
    (hstack : s.stack = [.handleEvent c test]) (calls : List Call)
    (hcalls : ∀ test', .handleEvent c test' ∈ calls → test' = .write) :
    ¬ { s with stack := calls }.Pending c := by
  have hactive := h.dispatched c test (by rw [hstack]; exact List.mem_singleton_self _)
  intro hpending
  rcases hpending with hmem | hmem | hmem
  · exact hactive hmem
  · exact absurd (hcalls _ hmem) (by decide)
  · exact absurd (hcalls _ hmem) (by decide)

/-- `handleEvent` goes on to its next test, or returns. -/
theorem Lifecycle.nextTest (h : Lifecycle s) {test : Test}
    (hstack : s.stack = [.handleEvent c test]) {next : List Call}
    (hnext : next = [] ∨ next = [.handleEvent c .write] ∨
      (next = [.handleEvent c .read] ∧ test = .error)) :
    Lifecycle { s with stack := next } := by
  have hactive := h.dispatched c test (by rw [hstack]; exact List.mem_singleton_self _)
  rcases hnext with rfl | rfl | ⟨rfl, rfl⟩
  · exact h.withControl trivial h.active (by simp) (by simp [hstack])
      fun c' hpending => hpending.imp_right (by simp)
  · refine h.withControl rfl h.active (fun c' test' hmem => ?_) (by simp [hstack])
      fun c' hpending => hpending.imp_right (by simp)
    obtain ⟨rfl, rfl⟩ := Call.handleEvent.inj (List.mem_singleton.mp hmem)
    exact hactive
  · refine h.withControl rfl h.active (fun c' test' hmem => ?_) (by simp [hstack])
      fun c' hpending => ?_
    · obtain ⟨rfl, rfl⟩ := Call.handleEvent.inj (List.mem_singleton.mp hmem)
      exact hactive
    · rcases hpending with hmem | hmem | hmem
      · exact Or.inl hmem
      · simp at hmem
      · obtain ⟨rfl, -⟩ := Call.handleEvent.inj (List.mem_singleton.mp hmem)
        exact Or.inr (Or.inl (by rw [hstack]; exact List.mem_singleton_self _))

/-- `handleRead`, called by `handleEvent`. -/
theorem Lifecycle.handleRead (h : Lifecycle s) (hstack : s.stack = [.handleEvent c .read])
    (hobj : s.heap[c]? = some obj) (hbits : (obj.conn.channel.revents ∩ readBits).Nonempty)
    {readv : Buffer.Readv} {frame : Option Frame}
    (hread : obj.conn.handleRead readv = some (conn, frame)) :
    Lifecycle ({ s with stack := [.handleEvent c .write] }.after c (conn, frame)) := by
  have hpending : s.Pending c := Or.inr (Or.inr (by rw [hstack]; exact List.mem_singleton_self _))
  obtain ⟨n, hstate, hcalls, hreads, hentry, hclose⟩ :=
    (h.phase c obj hobj).open_of_reads hpending hbits
  have hbelow : ∀ call : Call, call.object ≠ c →
      (call ∈ [.handleEvent c .write] ↔ call ∈ s.stack) := by
    intro call hcall
    rw [hstack, List.mem_singleton, List.mem_singleton]
    constructor <;> (intro heq; exact absurd (by rw [heq]; rfl) hcall)
  have hdispatched : ∀ test, .handleEvent c test ∈ [Call.handleEvent c .write] →
      ∃ test', .handleEvent c test' ∈ s.stack :=
    fun _ _ => ⟨.read, by rw [hstack]; exact List.mem_singleton_self _⟩
  obtain ⟨buf, hcase⟩ := TcpConnection.handleRead_cases hread
  rcases hcase with ⟨rfl, rfl⟩ | hcase | ⟨rfl, rfl⟩
  · refine h.changesObject (changesObject_after hobj rfl hbelow hdispatched) ?_
    refine .up (n + 1) hstate ?_ hreads hentry (by simp [EventLoop.after])
    rw [TcpConnection.callbacks_emit, upCalls, List.replicate_succ']
    exact congrArg (· ++ _) hcalls
  · obtain ⟨rfl, rfl⟩ := Prod.mk.inj hcase
    refine h.changesObject (changesObject_after hobj rfl hbelow hdispatched) ?_
    refine .down n ⟨rfl, hreads.writesOnly_disableAll, fun hafter => ?_⟩ ?_ hentry
      (by simp [EventLoop.after])
    · exact absurd (pending_after hafter) (h.not_pending hstack _ (by simp))
    · rw [TcpConnection.callbacks_emit]
      exact congrArg (· ++ _) hcalls
  · have hnext := h.nextTest hstack (Or.inr (Or.inl rfl))
    exact hnext.after hobj (.of_same rfl rfl rfl) (by simp)

/-- `handleEvent` has made a test. -/
theorem Lifecycle.handleEvent {t : EventLoop} (h : Lifecycle s) {test : Test}
    (hstack : s.stack = [.handleEvent c test]) (hobj : s.heap[c]? = some obj)
    {readv : Buffer.Readv} {nwrote : Int}
    (hevent : { s with stack := [] }.handleEvent c obj.conn readv nwrote test = some t) :
    Lifecycle t := by
  cases test with
  | error =>
      obtain rfl := Option.some.inj hevent
      exact h.nextTest hstack (Or.inr (Or.inr ⟨rfl, rfl⟩))
  | read =>
      rw [EventLoop.handleEvent] at hevent
      dsimp only at hevent
      split at hevent
      · rename_i hbits
        obtain ⟨⟨conn, frame⟩, hread, rfl⟩ := Option.map_eq_some_iff.mp hevent
        exact h.handleRead hstack hobj hbits hread
      · obtain rfl := Option.some.inj hevent
        exact h.nextTest hstack (Or.inr (Or.inl rfl))
  | write =>
      have hnext := h.nextTest hstack (Or.inl rfl)
      rw [EventLoop.handleEvent] at hevent
      split at hevent
      · obtain ⟨⟨conn, frame⟩, hwrite, rfl⟩ := Option.map_eq_some_iff.mp hevent
        exact hnext.after hobj (TcpConnection.continues_handleWrite hwrite)
          (handleWrite_ne_handleClose hwrite)
      · obtain rfl := Option.some.inj hevent
        exact hnext

/-- A callback other than that of `handleClose` has returned. -/
theorem Lifecycle.returned (h : Lifecycle s) {frame : Frame} {below : List Call}
    (hstack : s.stack = .conn c frame :: below) (hframe : frame ≠ .handleClose)
    (hobj : s.heap[c]? = some obj) (hresume : obj.conn.resume frame = some conn) :
    Lifecycle ({ s with stack := below }.after c (conn, none)) := by
  have hnested := h.nested
  rw [hstack] at hnested
  have hmem : ∀ call, call ∈ below → call ∈ s.stack := fun call hcall => by
    rw [hstack]
    exact List.mem_cons_of_mem _ hcall
  have hbelow : Lifecycle { s with stack := below } := by
    refine h.withControl (wellNested_of_cons hnested) h.active
      (fun c' test hcall => h.dispatched c' test (hmem _ hcall))
      (fun c' => ⟨hmem _, fun hcall => ?_⟩)
      fun c' hpending => hpending.imp_right (Or.imp (hmem _) (hmem _))
    rw [hstack] at hcall
    rcases List.mem_cons.mp hcall with heq | hcall
    · obtain ⟨-, rfl⟩ := Call.conn.inj heq
      exact absurd rfl hframe
    · exact hcall
  exact hbelow.after hobj (TcpConnection.continues_resume hframe hresume) (by simp)

/-- The `connectionCallback_` of `handleClose` has returned, and then its `closeCallback_`. -/
theorem Lifecycle.closed (h : Lifecycle s) {below : List Call}
    (hstack : s.stack = .conn c .handleClose :: below) (hobj : s.heap[c]? = some obj) :
    Lifecycle (({ s with stack := below }.after c
      (obj.conn.emit .closeCallback, none)).removeConnection obj.name) := by
  have hnested := h.nested
  rw [hstack] at hnested
  obtain rfl : below = [.handleEvent c .write] := hnested
  have hclose : .conn c .handleClose ∈ s.stack := by
    rw [hstack]
    exact List.mem_cons_self
  have hactive : .conn c ∉ s.active := h.dispatched c .write (by rw [hstack]; simp)
  refine h.changesObject (show ChangesObject s _ c obj (obj.conn.emit .closeCallback) from
    ⟨hobj, rfl, rfl, fun name hname => ?_, fun c' hentry => ?_, rfl, rfl, fun call hcall => ?_,
      fun test _ => ⟨.write, by rw [hstack]; simp⟩⟩) ?_
  · show (s.server.connections.erase obj.name)[name]? = _
    rw [Std.ExtTreeMap.getElem?_erase, if_neg (by simpa using Ne.symm hname)]
  · change (s.server.connections.erase obj.name)[obj.name]? = some c' at hentry
    rw [Std.ExtTreeMap.getElem?_erase_self] at hentry
    cases hentry
  · rw [hstack]
    show call ∈ [Call.handleEvent c .write] ↔ _
    have hne : call ≠ .conn c .handleClose := fun heq => hcall (by rw [heq]; rfl)
    exact (List.mem_cons.trans (or_iff_right hne)).symm
  · cases h.phase c obj hobj with
    | up n _ _ _ _ hstack' => exact absurd hclose hstack'
    | closed n _ _ _ hstack' => exact absurd hclose hstack'
    | down n hdeaf hcalls _ _ =>
        refine .closed n ⟨hdeaf.state, hdeaf.writes, fun hpending => ?_⟩ ?_
          Std.ExtTreeMap.getElem?_erase_self (by simp [EventLoop.after, removeConnection])
        · rcases hpending with hmem | hmem | hmem
          · exact absurd hmem hactive
          · simp [EventLoop.after, removeConnection] at hmem
          · simp [EventLoop.after, removeConnection] at hmem
        · rw [TcpConnection.callbacks_emit, hcalls, List.append_assoc]
          rfl

end Step

end EventLoop

end Dummyload
