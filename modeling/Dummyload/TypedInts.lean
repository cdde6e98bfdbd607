import Dummyload.Buffer
import Dummyload.Lib.ByteOrder

/-!
# Dummyload.TypedInts

The functions of `Buffer` (`src/Buffer.h`) that append, prepend, peek and read integers
of 8, 16, 32 and 64 bits, and the conversions they use (`sockets`, `src/Buffer.cpp`).
The byte order of the host is a parameter.

`Datum.encode` says what is on the wire: big-endian two's complement. What is written
in any mix of types is read back by the same types (`typed_data_survive`).
-/

namespace Dummyload

open Lib.ByteOrder (Order htobe betoh bigEndian)

namespace sockets

def hostToNetwork64 (host : Order) (host64 : BitVec 64) : BitVec 64 := htobe host 8 host64
def hostToNetwork32 (host : Order) (host32 : BitVec 32) : BitVec 32 := htobe host 4 host32
def hostToNetwork16 (host : Order) (host16 : BitVec 16) : BitVec 16 := htobe host 2 host16
def networkToHost64 (host : Order) (net64 : BitVec 64) : BitVec 64 := betoh host 8 net64
def networkToHost32 (host : Order) (net32 : BitVec 32) : BitVec 32 := betoh host 4 net32
def networkToHost16 (host : Order) (net16 : BitVec 16) : BitVec 16 := betoh host 2 net16

end sockets

namespace Buffer

open sockets

/-! ### Words -/

/-- `append(&x, sizeof x)`. -/
def appendWord (host : Order) (w : Nat) (b : Buffer) (x : BitVec (8 * w)) : Option Buffer :=
  b.append (host.bytes w x)

/-- `prepend(&x, sizeof x)`. -/
def prependWord (host : Order) (w : Nat) (b : Buffer) (x : BitVec (8 * w)) : Option Buffer :=
  b.prepend (host.bytes w x)

/-- `memcpy(&x, peek(), sizeof x)`, after the assertion that the bytes are there. -/
def peekWord (host : Order) (w : Nat) (b : Buffer) : Option (BitVec (8 * w)) :=
  if b.readableBytes ≥ w then some (host.word w (b.readable.take w)) else none

/-! ### Integers -/

variable (host : Order) (b : Buffer)

def appendInt64 (x : Int64) : Option Buffer :=
  let be64 := hostToNetwork64 host x.toBitVec
  b.appendWord host 8 be64

def appendInt32 (x : Int32) : Option Buffer :=
  let be32 := hostToNetwork32 host x.toBitVec
  b.appendWord host 4 be32

def appendInt16 (x : Int16) : Option Buffer :=
  let be16 := hostToNetwork16 host x.toBitVec
  b.appendWord host 2 be16

def appendInt8 (x : Int8) : Option Buffer := b.append [x.toUInt8]

def peekInt64 : Option Int64 := do
  let be64 ← b.peekWord host 8
  some (Int64.ofBitVec (networkToHost64 host be64))

def peekInt32 : Option Int32 := do
  let be32 ← b.peekWord host 4
  some (Int32.ofBitVec (networkToHost32 host be32))

def peekInt16 : Option Int16 := do
  let be16 ← b.peekWord host 2
  some (Int16.ofBitVec (networkToHost16 host be16))

/-- `int8_t x = *peek()`. -/
def peekInt8 : Option Int8 :=
  if b.readableBytes ≥ 1 then b.readable.head?.map UInt8.toInt8 else none

def retrieveInt64 : Option Buffer := b.retrieve 8
def retrieveInt32 : Option Buffer := b.retrieve 4
def retrieveInt16 : Option Buffer := b.retrieve 2
def retrieveInt8 : Option Buffer := b.retrieve 1

def readInt64 : Option (Int64 × Buffer) := do
  let result ← b.peekInt64 host
  let b ← b.retrieveInt64
  some (result, b)

def readInt32 : Option (Int32 × Buffer) := do
  let result ← b.peekInt32 host
  let b ← b.retrieveInt32
  some (result, b)

def readInt16 : Option (Int16 × Buffer) := do
  let result ← b.peekInt16 host
  let b ← b.retrieveInt16
  some (result, b)

def readInt8 : Option (Int8 × Buffer) := do
  let result ← b.peekInt8
  let b ← b.retrieveInt8
  some (result, b)

def prependInt64 (x : Int64) : Option Buffer :=
  let be64 := hostToNetwork64 host x.toBitVec
  b.prependWord host 8 be64

def prependInt32 (x : Int32) : Option Buffer :=
  let be32 := hostToNetwork32 host x.toBitVec
  b.prependWord host 4 be32

def prependInt16 (x : Int16) : Option Buffer :=
  let be16 := hostToNetwork16 host x.toBitVec
  b.prependWord host 2 be16

def prependInt8 (x : Int8) : Option Buffer := b.prepend [x.toUInt8]

end Buffer

/-! ### Typed data -/

/-- What a user writes. -/
inductive Datum
  | int8 (x : Int8)
  | int16 (x : Int16)
  | int32 (x : Int32)
  | int64 (x : Int64)
  | bytes (data : Bytes)
  deriving DecidableEq

/-- What a user reads: integers of a type, or so many bytes. -/
inductive Shape
  | int8
  | int16
  | int32
  | int64
  | bytes (len : Nat)

namespace Datum

def shape : Datum → Shape
  | .int8 _ => .int8
  | .int16 _ => .int16
  | .int32 _ => .int32
  | .int64 _ => .int64
  | .bytes data => .bytes data.length

/-- The bytes on the wire. -/
def encode : Datum → Bytes
  | .int8 x => bigEndian 1 x.toInt
  | .int16 x => bigEndian 2 x.toInt
  | .int32 x => bigEndian 4 x.toInt
  | .int64 x => bigEndian 8 x.toInt
  | .bytes data => data

/-- The call that appends it. -/
def append (host : Order) (b : Buffer) : Datum → Option Buffer
  | .int8 x => b.appendInt8 x
  | .int16 x => b.appendInt16 host x
  | .int32 x => b.appendInt32 host x
  | .int64 x => b.appendInt64 host x
  | .bytes data => b.append data

/-- The call that prepends it. -/
def prepend (host : Order) (b : Buffer) : Datum → Option Buffer
  | .int8 x => b.prependInt8 x
  | .int16 x => b.prependInt16 host x
  | .int32 x => b.prependInt32 host x
  | .int64 x => b.prependInt64 host x
  | .bytes data => b.prepend data

def appendAll (host : Order) : Buffer → List Datum → Option Buffer :=
  fun b data => data.foldlM (append host) b

end Datum

namespace Shape

/-- The call that reads it. -/
def read (host : Order) (b : Buffer) : Shape → Option (Datum × Buffer)
  | .int8 => b.readInt8.map fun (x, b) => (.int8 x, b)
  | .int16 => (b.readInt16 host).map fun (x, b) => (.int16 x, b)
  | .int32 => (b.readInt32 host).map fun (x, b) => (.int32 x, b)
  | .int64 => (b.readInt64 host).map fun (x, b) => (.int64 x, b)
  | .bytes len => (b.retrieveAsString len).map fun (str, b) => (.bytes str, b)

def readAll (host : Order) : Buffer → List Shape → Option (List Datum × Buffer)
  | b, [] => some ([], b)
  | b, shape :: shapes => do
    let (x, b) ← shape.read host b
    let (xs, b) ← readAll host b shapes
    some (x :: xs, b)

end Shape

/-! ### The bytes of an integer -/

/-- A byte is its own big-endian form. -/
theorem bigEndian_int8 (x : Int8) : bigEndian 1 x.toInt = [x.toUInt8] := by
  have hdigit : (x.toInt / 256 ^ 0 % 256).toNat = x.toUInt8.toNat / 256 ^ 0 % 256 :=
    Lib.ByteOrder.digit_toInt (w := 1) x.toBitVec Nat.zero_lt_one
  have hlt := x.toUInt8.toNat_lt
  rw [pow_zero, pow_zero, Nat.div_one, Nat.mod_eq_of_lt hlt] at hdigit
  show [UInt8.ofNat (x.toInt / 256 ^ 0 % 256).toNat] = [x.toUInt8]
  rw [pow_zero, hdigit, UInt8.ofNat_toNat]

namespace Buffer

variable {host : Order} {b : Buffer} {w : Nat}

/-- A converted word is stored as the big-endian number it stands for. -/
theorem bytes_htobe (x : BitVec (8 * w)) :
    host.bytes w (htobe host w x) = bigEndian w x.toInt :=
  (Lib.ByteOrder.bytes_htobe host x).trans (Order.bytes_big x)

/-- The assertion of `prepend` is its only failure. -/
theorem prepend_iff {data : Bytes} :
    (∃ b', b.prepend data = some b') ↔ data.length ≤ b.prependableBytes := by
  constructor
  · rintro ⟨b', hb'⟩
    by_contra hlen
    rw [prepend, if_neg hlen] at hb'
    exact absurd hb' (by simp)
  · intro hlen
    obtain ⟨b', hb', -⟩ := prepend_eq_some hlen
    exact ⟨b', hb'⟩

/-- The front of the readable bytes can be retrieved. -/
theorem retrieve_front {front rest : Bytes} (h : b.readable = front ++ rest) :
    ∃ b', b.retrieve front.length = some b' ∧ b'.readable = rest := by
  have hlen : front.length ≤ b.readableBytes := by
    rw [← length_readable, h, List.length_append]
    exact Nat.le_add_right _ _
  obtain ⟨b', hb', hread⟩ := retrieve_eq_some hlen
  exact ⟨b', hb', by rw [hread, h, List.drop_left]⟩

/-- What is peeked and converted back is the word that the front stands for. -/
theorem peekWord_eq_some (host : Order) {x : BitVec (8 * w)} {rest : Bytes}
    (h : b.readable = bigEndian w x.toInt ++ rest) :
    ∃ be, b.peekWord host w = some be ∧ betoh host w be = x := by
  rw [← Order.bytes_big] at h
  have hlen : w ≤ b.readableBytes := by
    rw [← length_readable, h, List.length_append, Order.length_bytes]
    exact Nat.le_add_right _ _
  have htake : b.readable.take w = Order.big.bytes w x := by
    rw [h]
    exact List.take_left' (Order.length_bytes x)
  refine ⟨_, if_pos hlen, ?_⟩
  rw [htake, Lib.ByteOrder.betoh_word host (Order.length_bytes x), Order.word_bytes]

/-- So a word is read back, and what stands behind it is left. -/
theorem peekWord_retrieve (host : Order) {x : BitVec (8 * w)} {rest : Bytes}
    (h : b.readable = bigEndian w x.toInt ++ rest) :
    ∃ be b', b.peekWord host w = some be ∧ betoh host w be = x ∧
      b.retrieve w = some b' ∧ b'.readable = rest := by
  obtain ⟨be, hbe, hx⟩ := peekWord_eq_some host h
  obtain ⟨b', hb', hread⟩ := retrieve_front h
  rw [Lib.ByteOrder.length_bigEndian] at hb'
  exact ⟨be, b', hbe, hx, hb', hread⟩

end Buffer

/-! ### One datum -/

namespace Datum

variable {host : Order} {b : Buffer}

/-- Every call appends the encoding. -/
theorem append_eq (x : Datum) : x.append host b = b.append x.encode := by
  cases x with
  | int8 x => rw [encode, bigEndian_int8]; rfl
  | int16 x => exact congrArg b.append (Buffer.bytes_htobe (w := 2) x.toBitVec)
  | int32 x => exact congrArg b.append (Buffer.bytes_htobe (w := 4) x.toBitVec)
  | int64 x => exact congrArg b.append (Buffer.bytes_htobe (w := 8) x.toBitVec)
  | bytes data => rfl

/-- Every call prepends the encoding. -/
theorem prepend_eq (x : Datum) : x.prepend host b = b.prepend x.encode := by
  cases x with
  | int8 x => rw [encode, bigEndian_int8]; rfl
  | int16 x => exact congrArg b.prepend (Buffer.bytes_htobe (w := 2) x.toBitVec)
  | int32 x => exact congrArg b.prepend (Buffer.bytes_htobe (w := 4) x.toBitVec)
  | int64 x => exact congrArg b.prepend (Buffer.bytes_htobe (w := 8) x.toBitVec)
  | bytes data => rfl

/-- Where the encoding is in front, the call of the same type reads the datum and leaves
what is behind. -/
theorem read_eq_some (host : Order) {x : Datum} {rest : Bytes}
    (h : b.readable = x.encode ++ rest) :
    ∃ b', x.shape.read host b = some (x, b') ∧ b'.readable = rest := by
  cases x with
  | int8 x =>
      rw [encode, bigEndian_int8] at h
      obtain ⟨b', hb', hread⟩ := Buffer.retrieve_front h
      have hlen : 1 ≤ b.readableBytes := by
        rw [← Buffer.length_readable, h, List.length_append]
        exact Nat.le_add_right _ _
      have hpeek : b.peekInt8 = some x := by
        rw [Buffer.peekInt8, if_pos hlen, h]
        rfl
      refine ⟨b', ?_, hread⟩
      rw [List.length_singleton] at hb'
      simp [shape, Shape.read, Buffer.readInt8, Buffer.retrieveInt8, hpeek, hb']
  | int16 x =>
      obtain ⟨be, b', hbe, hx, hb', hread⟩ :=
        Buffer.peekWord_retrieve host (w := 2) (x := x.toBitVec) h
      refine ⟨b', ?_, hread⟩
      simp [shape, Shape.read, Buffer.readInt16, Buffer.peekInt16, Buffer.retrieveInt16, hbe, hb',
        sockets.networkToHost16, hx]
  | int32 x =>
      obtain ⟨be, b', hbe, hx, hb', hread⟩ :=
        Buffer.peekWord_retrieve host (w := 4) (x := x.toBitVec) h
      refine ⟨b', ?_, hread⟩
      simp [shape, Shape.read, Buffer.readInt32, Buffer.peekInt32, Buffer.retrieveInt32, hbe, hb',
        sockets.networkToHost32, hx]
  | int64 x =>
      obtain ⟨be, b', hbe, hx, hb', hread⟩ :=
        Buffer.peekWord_retrieve host (w := 8) (x := x.toBitVec) h
      refine ⟨b', ?_, hread⟩
      simp [shape, Shape.read, Buffer.readInt64, Buffer.peekInt64, Buffer.retrieveInt64, hbe, hb',
        sockets.networkToHost64, hx]
  | bytes data =>
      have hlen : data.length ≤ b.readableBytes := by
        rw [← Buffer.length_readable, h, List.length_append]
        exact Nat.le_add_right _ _
      obtain ⟨b', hb', hread⟩ := Buffer.retrieveAsString_eq_some hlen
      have htake : b.readable.take data.length = data := by
        rw [h]
        exact List.take_left
      have hdrop : b.readable.drop data.length = rest := by
        rw [h]
        exact List.drop_left
      refine ⟨b', ?_, hread.trans hdrop⟩
      rw [shape, Shape.read, hb', htake]
      rfl

end Datum

/-! ### Any mix of types -/

/-- The typed functions lose nothing on the way through `b`. -/
structure Survives (host : Order) (b : Buffer) : Prop where
  appended : ∀ data : List Datum, ∃ b₁ b₂ b₃,
    Datum.appendAll host b data = some b₁ ∧
    b₁.readable = b.readable ++ data.flatMap Datum.encode ∧
    b₁.retrieve b.readableBytes = some b₂ ∧
    Shape.readAll host b₂ (data.map Datum.shape) = some (data, b₃) ∧
    b₃.readable = []
  prependable : ∀ x : Datum,
    (∃ b₁, x.prepend host b = some b₁) ↔ x.encode.length ≤ b.prependableBytes
  prepended : ∀ (x : Datum) (b₁ : Buffer), x.prepend host b = some b₁ →
    b₁.readable = x.encode ++ b.readable ∧
    ∃ b₂, x.shape.read host b₁ = some (x, b₂) ∧ b₂.readable = b.readable

theorem appendAll_eq_some (host : Order) (b : Buffer) (data : List Datum) :
    ∃ b', Datum.appendAll host b data = some b' ∧
      b'.readable = b.readable ++ data.flatMap Datum.encode := by
  induction data generalizing b with
  | nil => exact ⟨b, rfl, by simp⟩
  | cons x data ih =>
      obtain ⟨b₁, hb₁, hread₁⟩ := b.append_eq_some x.encode
      obtain ⟨b₂, hb₂, hread₂⟩ := ih b₁
      refine ⟨b₂, ?_, ?_⟩
      · rw [Datum.appendAll, List.foldlM_cons, Datum.append_eq, hb₁]
        exact hb₂
      · rw [hread₂, hread₁, List.flatMap_cons, List.append_assoc]

theorem readAll_eq_some (host : Order) {b : Buffer} {data : List Datum}
    (h : b.readable = data.flatMap Datum.encode) :
    ∃ b', Shape.readAll host b (data.map Datum.shape) = some (data, b') ∧ b'.readable = [] := by
  induction data generalizing b with
  | nil => exact ⟨b, rfl, h⟩
  | cons x data ih =>
      obtain ⟨b₁, hb₁, hread₁⟩ := Datum.read_eq_some host h
      obtain ⟨b₂, hb₂, hread₂⟩ := ih hread₁
      refine ⟨b₂, ?_, hread₂⟩
      rw [List.map_cons, Shape.readAll, hb₁]
      simp [hb₂]

/-- Typed data survive every buffer, on hosts of either byte order. -/
theorem typed_data_survive (host : Order) (b : Buffer) : Survives host b where
  appended := by
    intro data
    obtain ⟨b₁, hb₁, hread₁⟩ := appendAll_eq_some host b data
    obtain ⟨b₂, hb₂, hread₂⟩ := Buffer.retrieve_front hread₁
    obtain ⟨b₃, hb₃, hread₃⟩ := readAll_eq_some host hread₂
    rw [Buffer.length_readable] at hb₂
    exact ⟨b₁, b₂, b₃, hb₁, hread₁, hb₂, hb₃, hread₃⟩
  prependable := by
    intro x
    rw [Datum.prepend_eq]
    exact Buffer.prepend_iff
  prepended := by
    intro x b₁ hb₁
    rw [Datum.prepend_eq] at hb₁
    obtain ⟨b₁', hb₁', hread₁⟩ := Buffer.prepend_eq_some (Buffer.prepend_iff.mp ⟨b₁, hb₁⟩)
    obtain rfl := Option.some.inj (hb₁'.symm.trans hb₁)
    exact ⟨hread₁, Datum.read_eq_some host hread₁⟩

/-- A negative `int32_t` on the wire. -/
example : (Datum.int32 (-2)).encode = [255, 255, 255, 254] := by decide +kernel

end Dummyload
