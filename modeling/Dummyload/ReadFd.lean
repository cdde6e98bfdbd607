import Dummyload.Buffer

/-!
# Dummyload.ReadFd

`Buffer::readFd` with its scatter read: `::readv` fills the writable bytes of the
buffer and, where these are fewer than 65536, an array on the stack behind them.
Whatever part of the stream it delivers, `readFd` appends that (`readFd_appends`); so
`Buffer.readFd`, which is given the bytes that were read, is what the code does
(`readFdAt_eq`).
-/

namespace Dummyload

/-- `sizeof extrabuf`. -/
def kExtrabuf : Nat := 65536

/-- `char extrabuf[65536]`. -/
structure Extrabuf where
  bytes : Bytes
  length_eq : bytes.length = kExtrabuf

namespace Buffer

def iovcnt (b : Buffer) : Nat := if b.writableBytes < kExtrabuf then 2 else 1

/-- The lengths of the `iovcnt` vectors together. -/
def iovLength (b : Buffer) : Nat :=
  if b.iovcnt = 2 then b.writableBytes + kExtrabuf else b.writableBytes

/-- What does not fit into the buffer fits into `extrabuf`. -/
theorem sub_le_kExtrabuf {b : Buffer} {n : Nat} (h : n ≤ b.iovLength) :
    n - b.writableBytes ≤ kExtrabuf := by
  unfold iovLength at h
  split at h <;> omega

/-- The memory after `::readv(fd, vec, iovcnt)` has returned `n`: the first bytes of the
stream fill the first vector, those after it land in the second. There is no more to read
than the stream, and no more than the vectors hold. -/
def readv (b : Buffer) (extrabuf : Extrabuf) (stream : Bytes) (n : Nat) :
    Option (Buffer × Extrabuf) :=
  if h : n ≤ stream.length ∧ n ≤ b.iovLength then
    some
      (b.store (stream.take (min n b.writableBytes)),
        { bytes := overwrite extrabuf.bytes 0 ((stream.take n).drop b.writableBytes)
          length_eq := by
            have hfits := sub_le_kExtrabuf h.2
            rw [length_overwrite, extrabuf.length_eq]
            rw [List.length_drop, List.length_take, min_eq_left h.1, extrabuf.length_eq]
            omega })
  else none

/-- `readFd(fd, savedErrno)` when `::readv` returns `n`, with `errno` set if that is negative:
the result, `*savedErrno` and the buffer. -/
def readFdAt (b : Buffer) (savedErrno errno : Int) (extrabuf : Extrabuf) (stream : Bytes)
    (n : Int) : Option (Int × Int × Buffer) :=
  let writable := b.writableBytes
  if n < 0 then some (n, errno, b)
  else
    (b.readv extrabuf stream n.toNat).bind fun (b, extrabuf) =>
      if n.toNat ≤ writable then
        -- `writerIndex_ += n`
        (b.hasWritten n.toNat).map fun b => (n, savedErrno, b)
      else if n.toNat - writable ≤ kExtrabuf then
        -- `writerIndex_ = buffer_.size(); append(extrabuf, n - writable)`
        ((b.hasWritten b.writableBytes).bind
          (·.append (extrabuf.bytes.take (n.toNat - writable)))).map fun b => (n, savedErrno, b)
      else none

/-- What lands in `extrabuf`, read back. -/
theorem take_overwrite_zero (l data : Bytes) : (overwrite l 0 data).take data.length = data := by
  rw [overwrite, List.take_zero, List.nil_append, List.take_left]

/-- Reading part of a stream is reading the bytes that the part is made of. -/
theorem readFdAt_eq (b : Buffer) (savedErrno errno : Int) (extrabuf : Extrabuf) {stream : Bytes}
    {n : Nat} (hstream : n ≤ stream.length) (hn : n ≤ b.iovLength) :
    b.readFdAt savedErrno errno extrabuf stream n =
      b.readFd savedErrno (.bytes (stream.take n)) := by
  have hlen : (stream.take n).length = n := by rw [List.length_take, min_eq_left hstream]
  have hstored : stream.take (min n b.writableBytes) = (stream.take n).take b.writableBytes := by
    rw [List.take_take, min_comm]
  unfold readFdAt readFd
  dsimp only
  rw [if_neg (Int.not_lt.mpr (Int.natCast_nonneg n)), Int.toNat_natCast, readv,
    dif_pos ⟨hstream, hn⟩, Option.bind_some, hlen, hstored]
  by_cases hle : n ≤ b.writableBytes
  · rw [if_pos hle, if_pos hle]
  · have hextra : ((stream.take n).drop b.writableBytes).length = n - b.writableBytes := by
      rw [List.length_drop, hlen]
    have hread : (overwrite extrabuf.bytes 0 ((stream.take n).drop b.writableBytes)).take
        (n - b.writableBytes) = (stream.take n).drop b.writableBytes := by
      rw [← hextra]
      exact take_overwrite_zero _ _
    rw [if_neg hle, if_neg hle, if_pos (sub_le_kExtrabuf hn), hread]

/-- **`readFd` appends.** For every count that `::readv` can return, the readable bytes are
followed by exactly that many bytes of the stream; on an error nothing changes and `errno`
is saved. -/
theorem readFd_appends (b : Buffer) (savedErrno errno : Int) (extrabuf : Extrabuf)
    (stream : Bytes) (n : Int) :
    (0 ≤ n → n ≤ stream.length → n ≤ b.iovLength →
      ∃ b', b.readFdAt savedErrno errno extrabuf stream n = some (n, savedErrno, b') ∧
        b'.readable = b.readable ++ stream.take n.toNat) ∧
    (n < 0 → b.readFdAt savedErrno errno extrabuf stream n = some (n, errno, b)) := by
  constructor
  · intro hn hstream hlength
    obtain ⟨k, rfl⟩ := Int.eq_ofNat_of_zero_le hn
    have hk : k ≤ stream.length := by omega
    obtain ⟨b', hb', hread⟩ := b.readFd_bytes savedErrno (stream.take k)
    rw [List.length_take, min_eq_left hk] at hb'
    refine ⟨b', ?_, hread⟩
    rw [readFdAt_eq b savedErrno errno extrabuf hk (by omega)]
    exact hb'
  · intro hneg
    unfold readFdAt
    dsimp only
    rw [if_pos hneg]

/-- The array before anything is read into it. -/
def zeroed : Extrabuf := ⟨List.replicate kExtrabuf 0, List.length_replicate⟩

/-- A full buffer of two bytes, to which three more come: all of them by way of `extrabuf`. -/
theorem readFd_appends_full :
    ∃ b', (holding (ascii "ab")).readFdAt 0 0 zeroed (ascii "cdef") 3 = some (3, 0, b') ∧
      b'.readable = ascii "abcde" := by
  have hlength : (holding (ascii "ab")).iovLength = kExtrabuf := rfl
  obtain ⟨b', hb', hread⟩ := (readFd_appends (holding (ascii "ab")) 0 0 zeroed (ascii "cdef") 3).1
    (by decide) (by decide) (by rw [hlength]; decide)
  refine ⟨b', hb', ?_⟩
  rw [hread, readable_holding]
  decide

end Buffer

end Dummyload
