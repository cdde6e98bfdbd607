import Dummyload.Buffer
import Dummyload.Lib.Simulation

/-!
# Dummyload.BufferQueue

What a `Buffer` is for: a queue of bytes, of which the user appends at the end, takes
from the front, and now and then puts something in front or takes back from the end.
`Buffer.Op.next` is that queue, on lists; `Buffer.Op.call` is the code.

Each function asserts what it needs at its beginning (`Buffer.Op.Pre`). Then no other
assertion fails, wherever the two indices are: `call_refines` for one call, and
`buffers_refine_queues` for any sequence of calls on any number of buffers.
-/

namespace Dummyload

namespace Buffer

/-- The functions that change a buffer. -/
inductive Op
  | append (data : Bytes)
  | retrieve (len : Nat)
  | retrieveUntil (endp : Nat)
  | retrieveAll
  | retrieveAsString (len : Nat)
  | retrieveAllAsString
  | prepend (data : Bytes)
  | unwrite (len : Nat)
  | ensureWritableBytes (len : Nat)
  /-- Copy to `beginWrite()`, then `hasWritten`. -/
  | write (data : Bytes)

namespace Op

/-- The call: the buffer after it and what it returns. `none` is a failed assertion. -/
def call : Op → Buffer → Option (Buffer × Option Bytes)
  | .append data, b => (b.append data).map (·, none)
  | .retrieve len, b => (b.retrieve len).map (·, none)
  | .retrieveUntil endp, b => (b.retrieveUntil endp).map (·, none)
  | .retrieveAll, b => some (b.retrieveAll, none)
  | .retrieveAsString len, b => (b.retrieveAsString len).map fun (str, b) => (b, some str)
  | .retrieveAllAsString, b => b.retrieveAllAsString.map fun (str, b) => (b, some str)
  | .prepend data, b => (b.prepend data).map (·, none)
  | .unwrite len, b => (b.unwrite len).map (·, none)
  | .ensureWritableBytes len, b => (b.ensureWritableBytes len).map (·, none)
  | .write data, b => ((b.store data).hasWritten data.length).map (·, none)

/-- What the function asserts at its beginning. -/
def Pre (b : Buffer) : Op → Prop
  | .append _ | .retrieveAll | .retrieveAllAsString | .ensureWritableBytes _ => True
  | .retrieve len | .retrieveUntil len | .retrieveAsString len | .unwrite len =>
    len ≤ b.readableBytes
  | .prepend data => data.length ≤ b.prependableBytes
  | .write data => data.length ≤ b.writableBytes

instance (b : Buffer) : DecidablePred (Pre b)
  | .append _ | .retrieveAll | .retrieveAllAsString | .ensureWritableBytes _ => .isTrue trivial
  | .retrieve _ | .retrieveUntil _ | .retrieveAsString _ | .unwrite _ =>
    inferInstanceAs (Decidable (_ ≤ _))
  | .prepend _ => inferInstanceAs (Decidable (_ ≤ _))
  | .write _ => inferInstanceAs (Decidable (_ ≤ _))

/-! ### The queue -/

/-- The queue after the operation. -/
def next : Op → Bytes → Bytes
  | .append data, queue | .write data, queue => queue ++ data
  | .retrieve len, queue | .retrieveUntil len, queue | .retrieveAsString len, queue =>
    queue.drop len
  | .retrieveAll, _ | .retrieveAllAsString, _ => []
  | .prepend data, queue => data ++ queue
  | .unwrite len, queue => queue.take (queue.length - len)
  | .ensureWritableBytes _, queue => queue

/-- The bytes that the operation takes out and returns. -/
def dropped : Op → Bytes → Option Bytes
  | .retrieveAsString len, queue => some (queue.take len)
  | .retrieveAllAsString, queue => some queue
  | _, _ => none

/-- Within its precondition a call does to the readable bytes what it does to the queue. -/
theorem call_refines {b : Buffer} {op : Op} (h : Pre b op) :
    ∃ b', op.call b = some (b', op.dropped b.readable) ∧ b'.readable = op.next b.readable := by
  have hmap : ∀ {f : Option Buffer} {w : Bytes}, (∃ b', f = some b' ∧ b'.readable = w) →
      ∃ b', f.map (fun b' => (b', (none : Option Bytes))) = some (b', none) ∧ b'.readable = w :=
    fun hf => by
      obtain ⟨b', rfl, hread⟩ := hf
      exact ⟨b', rfl, hread⟩
  cases op with
  | append data => exact hmap (b.append_eq_some data)
  | retrieve len => exact hmap (retrieve_eq_some h)
  | retrieveUntil endp => exact hmap (retrieveUntil_eq_some h)
  | retrieveAll => exact ⟨b.retrieveAll, rfl, b.readable_retrieveAll⟩
  | retrieveAsString len =>
      obtain ⟨b', hb', hread⟩ := retrieveAsString_eq_some h
      exact ⟨b', by rw [call, hb']; rfl, hread⟩
  | retrieveAllAsString =>
      obtain ⟨b', hb', hread⟩ := b.retrieveAllAsString_eq_some
      exact ⟨b', by rw [call, hb']; rfl, hread⟩
  | prepend data => exact hmap (prepend_eq_some h)
  | unwrite len => exact hmap (unwrite_eq_some h)
  | ensureWritableBytes len =>
      obtain ⟨b', hb', hread, -⟩ := b.ensureWritableBytes_eq_some len
      exact hmap ⟨b', hb', hread⟩
  | write data =>
      obtain ⟨b', hb', hread, -⟩ := store_hasWritten h
      exact hmap ⟨b', hb', hread⟩

end Op

end Buffer

/-! ### Several buffers -/

/-- Buffers by name, and the strings that their functions returned so far. -/
structure Buffers (ι : Type*) where
  buffers : ι → Buffer
  strings : List Bytes := []

/-- Queues by name, and the bytes that were taken out of them and returned. -/
@[ext]
structure Queues (ι : Type*) where
  queues : ι → Bytes
  strings : List Bytes := []

/-- A call on one buffer, or on two. -/
inductive BufferCall (ι : Type*)
  | op (i : ι) (op : Buffer.Op)
  /-- `buffers[i].swap(buffers[j])`. -/
  | swap (i j : ι)

section Several

open Lib.Machine (run Meets)

variable {ι : Type*} [DecidableEq ι]

/-- The contents of `i` and `j` exchanged. -/
def exchange {β : Type*} (f : ι → β) (i j : ι) : ι → β :=
  Function.update (Function.update f i (f j)) j (f i)

namespace Buffers

def step (s : Buffers ι) : BufferCall ι → Option (Buffers ι)
  | .op i op =>
    (op.call (s.buffers i)).map fun (b, str) =>
      ⟨Function.update s.buffers i b, s.strings ++ str.toList⟩
  | .swap i j => some { s with buffers := exchange s.buffers i j }

/-- The precondition of a call. -/
def Pre (s : Buffers ι) : BufferCall ι → Prop
  | .op i op => op.Pre (s.buffers i)
  | .swap _ _ => True

instance (s : Buffers ι) : DecidablePred (Pre s)
  | .op i op => inferInstanceAs (Decidable (op.Pre (s.buffers i)))
  | .swap _ _ => .isTrue trivial

/-- Freshly constructed buffers. -/
def fresh (initialSize : ι → Nat) : Buffers ι := ⟨fun i => Buffer.new (initialSize i), []⟩

/-- The queues that the buffers hold. -/
def abs (s : Buffers ι) : Queues ι := ⟨fun i => (s.buffers i).readable, s.strings⟩

end Buffers

def Queues.next (q : Queues ι) : BufferCall ι → Queues ι
  | .op i op =>
    ⟨Function.update q.queues i (op.next (q.queues i)),
      q.strings ++ (op.dropped (q.queues i)).toList⟩
  | .swap i j => { q with queues := exchange q.queues i j }

theorem map_update {β γ : Type*} (g : β → γ) (f : ι → β) (i : ι) (b : β) :
    (fun j => g (Function.update f i b j)) = Function.update (fun j => g (f j)) i (g b) :=
  funext fun j => Function.apply_update (fun _ => g) f i b j

namespace Buffers

theorem step_refines {s : Buffers ι} {call : BufferCall ι} (h : Pre s call) :
    ∃ t, step s call = some t ∧ t.abs = s.abs.next call := by
  cases call with
  | op i op =>
      obtain ⟨b, hcall, hread⟩ := Buffer.Op.call_refines h
      refine ⟨_, by rw [step, hcall, Option.map_some], ?_⟩
      rw [abs, Queues.next, map_update Buffer.readable, hread]
      rfl
  | swap i j =>
      refine ⟨_, rfl, ?_⟩
      rw [abs, Queues.next]
      dsimp only [exchange]
      rw [map_update Buffer.readable, map_update Buffer.readable]
      rfl

/-- What the constructor asserts. -/
theorem constructed (initialSize : Nat) : (Buffer.new initialSize).readableBytes = 0 ∧
    (Buffer.new initialSize).writableBytes = initialSize ∧
    (Buffer.new initialSize).prependableBytes = kCheapPrepend := by
  refine ⟨Nat.sub_self _, ?_, rfl⟩
  simp [Buffer.new, Buffer.writableBytes]

/-- Any calls within their preconditions, on freshly constructed buffers, fail no assertion,
keep the indices in order, and leave in the buffers, and return, what the queues do. -/
theorem buffers_refine_queues (initialSize : ι → Nat) (calls : List (BufferCall ι))
    (hpre : Meets step Pre (fresh initialSize) calls) :
    ∃ s, run step (fresh initialSize) calls = some s ∧
      s.abs = calls.foldl Queues.next ⟨fun _ => [], []⟩ ∧
      ∀ i, (s.buffers i).readerIndex ≤ (s.buffers i).writerIndex ∧
        (s.buffers i).writerIndex ≤ (s.buffers i).storage.length ∧
        kCheapPrepend ≤ (s.buffers i).storage.length := by
  obtain ⟨s, hs, habs⟩ := Lib.Simulation.run_refines (fun _ _ h => step_refines h) hpre
  have hfresh : (fresh initialSize).abs = ⟨fun _ => [], []⟩ := by
    simp [fresh, abs]
  refine ⟨s, hs, by rw [habs, hfresh], fun i => ?_⟩
  exact ⟨(s.buffers i).reader_le, (s.buffers i).writer_le, (s.buffers i).cheap_le⟩

/-- Two buffers without room; the first makes some by moving what it holds to the front. -/
def exampleBufferCalls : List (BufferCall Bool) :=
  [.op true (.append (ascii "hello world")), .op true (.retrieve 6),
    .op true (.append (ascii "!")), .op true (.prepend (ascii "big ")),
    .op false (.ensureWritableBytes 3), .op false (.write (ascii "abc")), .op false (.unwrite 1),
    .swap true false, .op true (.retrieveAsString 1), .op false .retrieveAllAsString]

theorem buffers_refine_queues_exampleBufferCalls :
    ∃ s, run step (fresh fun _ => 0) exampleBufferCalls = some s ∧
      s.abs = exampleBufferCalls.foldl Queues.next ⟨fun _ => [], []⟩ ∧
      ∀ i, (s.buffers i).readerIndex ≤ (s.buffers i).writerIndex ∧
        (s.buffers i).writerIndex ≤ (s.buffers i).storage.length ∧
        kCheapPrepend ≤ (s.buffers i).storage.length :=
  buffers_refine_queues (fun _ => 0) exampleBufferCalls (by decide +kernel)

end Buffers

end Several

end Dummyload
