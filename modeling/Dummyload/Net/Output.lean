import Dummyload.Lib.Machine
import Dummyload.Net.TcpConnection

/-!
# Dummyload.Net.Output

What `send` is given comes out in order, once: the bytes that the kernel has
accepted and the readable bytes of `outputBuffer_` make up the messages sent so
far. No function of the connection changes this sum except `send`, which adds its
message, so it holds in the middle of callbacks as well (`output_eq_messages`).

The exception is the comparison in `send` of `nwrote` with `len`, in which -1 is
the largest `size_t`: a message that finds the output idle and that `::write`
refuses is neither written nor buffered.
-/

namespace Dummyload

/-- A frame whose function has nothing left to send. -/
def Frame.Settled : Frame → Prop
  | .send _ len nwrote => ¬ toSize nwrote < toSize len
  | _ => True

namespace TcpConnection

variable {conn conn' : TcpConnection} {data message : Bytes} {result : Int}

/-- The bytes accepted by the kernel, then those that wait in the output buffer. -/
def output (conn : TcpConnection) : Bytes := conn.written ++ conn.outputBuffer.readable

/-- `send` goes to `::write` directly. -/
def Idle (conn : TcpConnection) : Prop :=
  conn.channel.isWriting = false ∧ conn.outputBuffer.readable = []

theorem write_eq_some {count : Nat} (h : conn.write data count result = some conn') :
    conn'.written = conn.written ++ data.take result.toNat ∧
      conn'.outputBuffer = conn.outputBuffer ∧ conn'.channel = conn.channel ∧
      conn'.writeComplete = conn.writeComplete ∧
      -1 ≤ result ∧ result ≤ count ∧ result ≤ data.length := by
  obtain ⟨hresult, rfl⟩ := write_cases h
  exact ⟨rfl, rfl, rfl, rfl, hresult⟩

/-- The end of `send`, when part of the message was written or nothing was tried. -/
theorem sendRest_eq_some {nwrote : Int} (hlen : data.length < 2 ^ 31) (hn : 0 ≤ nwrote)
    (hle : nwrote ≤ data.length) (h : conn.sendRest data data.length nwrote = some conn') :
    conn'.output = conn.output ++ data.drop nwrote.toNat := by
  have hsize : ∀ x : Int, 0 ≤ x → x ≤ data.length → toSize x = x.toNat := fun x h₀ h₁ => by
    have := toSize_of_nonneg h₀ (by omega)
    omega
  rw [sendRest, hsize nwrote hn hle, hsize data.length (by omega) le_rfl,
    hsize (data.length - nwrote) (by omega) (by omega)] at h
  have hrest : (data.length - nwrote).toNat = (data.drop nwrote.toNat).length := by
    rw [List.length_drop]
    omega
  by_cases hlt : nwrote.toNat < (data.length : Int).toNat
  · rw [if_pos hlt, hrest] at h
    dsimp only at h
    rw [if_pos le_rfl, List.take_length] at h
    obtain ⟨buf, hbuf, hread⟩ := conn.outputBuffer.append_eq_some (data.drop nwrote.toNat)
    rw [hbuf, Option.map_some] at h
    obtain rfl := Option.some.inj h
    split <;> simp only [output, hread, List.append_assoc]
  · rw [if_neg hlt] at h
    obtain rfl := Option.some.inj h
    rw [List.drop_eq_nil_of_le (by omega), List.append_nil]

/-- `send` adds its message, unless it is refused or longer than an `int`. -/
theorem send_eq_some {frame : Option Frame} (hlen : message.length < 2 ^ 31)
    (hkept : conn.Idle → message ≠ [] → result ≠ -1)
    (h : conn.send message result = some (conn', frame)) :
    conn'.output = conn.output ++ message ∧ ∀ f ∈ frame, f.Settled := by
  have htoInt : toInt message.length = message.length := toInt_of_range (by omega) (by omega)
  rw [send, htoInt] at h
  dsimp only at h
  split at h
  · -- idle: straight to the kernel
    rename_i hidle
    obtain ⟨conn₁, hwrite, h⟩ := Option.bind_eq_some_iff.mp h
    obtain ⟨hwritten, hbuf, -, -, hge, -, hle⟩ := write_eq_some hwrite
    have hempty : conn.outputBuffer.readable = [] := Buffer.readableBytes_eq_zero.mp hidle.2
    have houtput₁ : conn₁.output = conn.output ++ message.take result.toNat := by
      rw [output, output, hwritten, hbuf, hempty, List.append_nil, List.append_nil]
    by_cases hn : 0 ≤ result
    · by_cases hdone : result = message.length
      · -- all of it was accepted, and `writeCompleteCallback_` runs if it is set
        have hsettled : ¬ toSize result < toSize message.length := by rw [hdone]; exact lt_irrefl _
        have htake : message.take result.toNat = message :=
          List.take_of_length_le (by omega)
        rw [htake] at houtput₁
        split at h
        · obtain ⟨rfl, rfl⟩ := Prod.mk.inj (Option.some.inj h)
          exact ⟨houtput₁, by simpa [Frame.Settled] using hsettled⟩
        · rw [sendRest, if_neg hsettled] at h
          obtain ⟨rfl, rfl⟩ := Prod.mk.inj (Option.some.inj h)
          exact ⟨houtput₁, by simp⟩
      · have hsize := toSize_of_nonneg (x := message.length - result) (by omega) (by omega)
        rw [if_neg (by omega)] at h
        obtain ⟨conn₂, hrest, h⟩ := Option.map_eq_some_iff.mp h
        obtain ⟨rfl, rfl⟩ := Prod.mk.inj h
        have houtput₂ := sendRest_eq_some hlen hn hle hrest
        rw [houtput₁, List.append_assoc, List.take_append_drop] at houtput₂
        exact ⟨houtput₂, by simp⟩
    · -- refused: only the empty message may be
      have hresult : result = -1 := by omega
      have hm : message = [] := by
        by_contra hm
        exact hkept ⟨by simpa using hidle.1, hempty⟩ hm hresult
      subst hresult hm
      rw [if_neg (by omega), sendRest, if_neg (by decide)] at h
      obtain ⟨rfl, rfl⟩ := Prod.mk.inj (Option.some.inj h)
      exact ⟨houtput₁, by simp⟩
  · obtain ⟨conn₁, hrest, h⟩ := Option.map_eq_some_iff.mp h
    obtain ⟨rfl, rfl⟩ := Prod.mk.inj h
    have houtput := sendRest_eq_some hlen le_rfl (by omega) hrest
    exact ⟨by simpa using houtput, by simp⟩

/-- `handleWrite` moves bytes from the output buffer to the kernel. -/
theorem handleWrite_eq_some {frame : Option Frame}
    (h : conn.handleWrite result = some (conn', frame)) :
    conn'.output = conn.output ∧ ∀ f ∈ frame, f.Settled := by
  rw [handleWrite] at h
  split at h
  · obtain ⟨conn₁, hwrite, h⟩ := Option.bind_eq_some_iff.mp h
    obtain ⟨hwritten, hbuf, -, -, hge, -, hle⟩ := write_eq_some hwrite
    split at h
    · rename_i hpos
      rw [Buffer.length_readable] at hle
      have hle' : result.toNat ≤ conn₁.outputBuffer.readableBytes := by
        rw [hbuf]
        omega
      obtain ⟨buf, hretrieve, hread⟩ := Buffer.retrieve_eq_some hle'
      have houtput : conn₁.written ++ buf.readable = conn.output := by
        rw [hread, hwritten, hbuf, List.append_assoc, List.take_append_drop]
        rfl
      rw [hretrieve, Option.map_some] at h
      dsimp only at h
      split at h
      · split at h
        · obtain ⟨rfl, rfl⟩ := Prod.mk.inj (Option.some.inj h)
          exact ⟨houtput, by simp [Frame.Settled]⟩
        · obtain ⟨rfl, rfl⟩ := Prod.mk.inj (Option.some.inj h)
          refine ⟨?_, by simp⟩
          rw [← houtput, handleWriteRest]
          split <;> rfl
      · obtain ⟨rfl, rfl⟩ := Prod.mk.inj (Option.some.inj h)
        exact ⟨houtput, by simp⟩
    · rename_i hnpos
      obtain ⟨rfl, rfl⟩ := Prod.mk.inj (Option.some.inj h)
      refine ⟨?_, by simp⟩
      have hzero : result.toNat = 0 := by omega
      rw [output, output, hwritten, hbuf, hzero, List.take_zero, List.append_nil]
  · obtain ⟨rfl, rfl⟩ := Prod.mk.inj (Option.some.inj h)
    exact ⟨rfl, by simp⟩

theorem handleRead_eq_some {frame : Option Frame} {r : Buffer.Readv}
    (h : conn.handleRead r = some (conn', frame)) :
    conn'.output = conn.output ∧ ∀ f ∈ frame, f.Settled := by
  obtain ⟨buf, ⟨rfl, rfl⟩ | hclose | ⟨rfl, rfl⟩⟩ := handleRead_cases h
  · exact ⟨rfl, by simp [Frame.Settled]⟩
  · obtain ⟨rfl, rfl⟩ := Prod.mk.inj hclose
    exact ⟨rfl, by simp [Frame.Settled]⟩
  · exact ⟨rfl, by simp⟩

theorem output_shutdown (conn : TcpConnection) : conn.shutdown.output = conn.output := by
  rw [shutdown]
  split
  · dsimp only
    split <;> rfl
  · rfl

/-- Returning to a settled frame sends nothing. -/
theorem resume_eq_some {frame : Frame} (hf : frame.Settled)
    (h : conn.resume frame = some conn') : conn'.output = conn.output := by
  cases frame with
  | connectEstablished => obtain rfl := Option.some.inj h; rfl
  | handleRead => obtain rfl := Option.some.inj h; rfl
  | handleWrite =>
      obtain rfl := Option.some.inj h
      rw [handleWriteRest]
      split <;> rfl
  | handleClose => obtain rfl := Option.some.inj h; rfl
  | send data len nwrote =>
      rw [resume, sendRest, if_neg hf] at h
      obtain rfl := Option.some.inj h
      rfl

end TcpConnection

/-! ### Runs -/

namespace Session

open Lib.Machine (run Meets)

/-- What is sent is kept by this step: a message has a length that is an `int`,
and one that is not empty and goes to `::write` directly is not refused. -/
def Kept (s : Session) : Input → Prop
  | .send message result =>
    message.length < 2 ^ 31 ∧ (s.conn.Idle → message ≠ [] → result ≠ -1)
  | _ => True

/-- The output is the messages, and no function on the stack has any to send. -/
structure OutputKept (s : Session) : Prop where
  output : s.conn.output = s.messages.flatten
  settled : ∀ f ∈ s.stack, f.Settled

theorem outputKept_start (writeComplete : Bool) : OutputKept (start writeComplete) where
  output := by
    show [] ++ (Buffer.new kInitialSize).readable = []
    rw [Buffer.readable_new, List.append_nil]
  settled := by simp [start, TcpConnection.connectEstablished, Frame.Settled]

/-- A function of the connection that leaves the output alone. -/
theorem OutputKept.after {s : Session} (h : OutputKept s) {out : TcpConnection × Option Frame}
    (ho : out.1.output = s.conn.output) (hf : ∀ f ∈ out.2, f.Settled) :
    OutputKept (s.after out) where
  output := ho.trans h.output
  settled := by
    intro f hmem
    rw [Session.after, List.mem_append, Option.mem_toList] at hmem
    exact hmem.elim (hf f) (h.settled f)

theorem outputKept_step {s t : Session} {i : Input} (h : OutputKept s) (hi : Kept s i)
    (hstep : step s i = some t) : OutputKept t := by
  cases i with
  | send message result =>
      obtain ⟨⟨conn, frame⟩, hsend, rfl⟩ := step_send hstep
      obtain ⟨houtput, hf⟩ := TcpConnection.send_eq_some hi.1 hi.2 hsend
      constructor
      · show conn.output = (s.messages ++ [message]).flatten
        rw [houtput, h.output, List.flatten_concat]
      · intro f hmem
        rw [Session.after, List.mem_append, Option.mem_toList] at hmem
        exact hmem.elim (hf f) (h.settled f)
  | shutdown =>
      obtain rfl := Option.some.inj hstep
      exact ⟨(TcpConnection.output_shutdown s.conn).trans h.output, h.settled⟩
  | handleRead r =>
      obtain ⟨-, ⟨conn, frame⟩, hread, rfl⟩ := step_handleRead hstep
      obtain ⟨ho, hf⟩ := TcpConnection.handleRead_eq_some hread
      exact h.after ho hf
  | handleWrite result =>
      obtain ⟨-, ⟨conn, frame⟩, hwrite, rfl⟩ := step_handleWrite hstep
      obtain ⟨ho, hf⟩ := TcpConnection.handleWrite_eq_some hwrite
      exact h.after ho hf
  | retrieve len =>
      obtain ⟨buf, -, rfl⟩ := step_retrieve hstep
      exact ⟨h.output, h.settled⟩
  | ret =>
      obtain ⟨frame, stack, conn, hstack, hresume, rfl⟩ := step_ret hstep
      have hsettled := h.settled
      rw [hstack] at hsettled
      obtain ⟨hf, hstack'⟩ := List.forall_mem_cons.mp hsettled
      exact ⟨(TcpConnection.resume_eq_some hf hresume).trans h.output, hstack'⟩

/-- **No output is lost, duplicated or reordered.** In every run whose sends are
kept, in every state it reaches, the bytes accepted by the kernel followed by the
readable bytes of `outputBuffer_` are the messages in the order of the calls. -/
theorem output_eq_messages (writeComplete : Bool) (is : List Input) (s : Session)
    (hkept : Meets step Kept (start writeComplete) is)
    (hrun : run step (start writeComplete) is = some s) :
    s.conn.written ++ s.conn.outputBuffer.readable = s.messages.flatten :=
  (Lib.Machine.invariant_of_meets (fun _ _ _ h hi hstep => outputKept_step h hi hstep)
    (outputKept_start writeComplete) hkept hrun).output

instance (s : Session) (i : Input) : Decidable (Kept s i) := by
  cases i <;> unfold Kept <;> (try unfold TcpConnection.Idle) <;> infer_instance

/-- Sends from within callbacks, a partial write, and the write event for the rest. -/
def reentrantRun : List Input :=
  [.send (ascii "ab") 1, .ret, .handleWrite 1, .send (ascii "c") 1, .ret, .ret]

theorem output_eq_messages_reentrantRun :
    ∃ s, run step (start true) reentrantRun = some s ∧
      s.conn.written ++ s.conn.outputBuffer.readable = s.messages.flatten := by
  have hrun : (run step (start true) reentrantRun).isSome = true := by decide +kernel
  obtain ⟨s, hs⟩ := Option.isSome_iff_exists.mp hrun
  exact ⟨s, hs, output_eq_messages true reentrantRun s (by decide +kernel) hs⟩

/-- A message that finds the output idle and that `::write` refuses. -/
def refusedRun : List Input := [.ret, .send (ascii "a") (-1)]

/-- The refused message is lost. -/
theorem output_not_always_messages :
    ¬ ∀ (writeComplete : Bool) (is : List Input) (s : Session),
      run step (start writeComplete) is = some s → s.stack = [] →
        s.conn.written ++ s.conn.outputBuffer.readable = s.messages.flatten := by
  intro h
  have hrun : (run step (start true) refusedRun).map (fun s =>
      (s.stack, s.conn.written ++ s.conn.outputBuffer.readable, s.messages.flatten)) =
        some ([], [], ascii "a") := by decide +kernel
  obtain ⟨s, hs, heq⟩ := Option.map_eq_some_iff.mp hrun
  obtain ⟨hstack, heq⟩ := Prod.mk.inj heq
  obtain ⟨houtput, hmessages⟩ := Prod.mk.inj heq
  have hkept := h true refusedRun s hs hstack
  rw [houtput, hmessages] at hkept
  exact absurd hkept (by decide)

end Session

end Dummyload
