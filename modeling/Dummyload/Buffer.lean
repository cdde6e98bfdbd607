import Dummyload.CString
import Dummyload.Lib.Lines

/-!
# Dummyload.Buffer

`Buffer` (`src/Buffer.h`, `src/Buffer.cpp`): a byte vector with two indices,

```
| prependable bytes |  readable bytes  |  writable bytes  |
0      <=      readerIndex   <=   writerIndex    <=     size
```

The index invariant is part of the type. A function whose `assert` can fail
answers `none` there; pointers into the readable region are offsets from
`peek()`. Sizes do not overflow `size_t`.

Users of a buffer only need what its operations do to the readable bytes: those
are the `_readable` lemmas. `append` and `readFd` are shown never to fail, so
the assertion of `makeSpace` holds wherever the code reaches it.
-/

namespace Dummyload

open Lib.Lines (search Clear)

/-! ### Lines without a CRLF -/

theorem clear_kCRLF_iff {l : Bytes} : Clear kCRLF l ↔ ¬ kCRLF <:+: l :=
  Lib.Lines.clear_pair_iff (by decide)

theorem noCRLF_append {l m : Bytes} (hl : ¬ kCRLF <:+: l) (hm : ¬ kCRLF <:+: m)
    (h : l.getLast? ≠ some 13 ∨ m.head? ≠ some 10) : ¬ kCRLF <:+: l ++ m := by
  rw [kCRLF, Lib.Lines.pair_infix_append]
  intro hor
  rcases hor with h' | h' | ⟨h₁, h₂⟩
  · exact hl h'
  · exact hm h'
  · exact h.elim (fun h => h h₁) (fun h => h h₂)

theorem noCRLF_of_notMem {l : Bytes} (h : (13 : Byte) ∉ l) : ¬ kCRLF <:+: l := fun hin =>
  h (hin.subset (by simp [kCRLF]))

/-! ### The buffer -/

def kCheapPrepend : Nat := 8
def kInitialSize : Nat := 1024

structure Buffer where
  /-- `buffer_`, the storage. -/
  storage : Bytes
  readerIndex : Nat
  writerIndex : Nat
  reader_le : readerIndex ≤ writerIndex
  writer_le : writerIndex ≤ storage.length
  cheap_le : kCheapPrepend ≤ storage.length
  deriving DecidableEq, Repr

/-- `std::vector::resize`. -/
def resize (l : Bytes) (n : Nat) : Bytes := l.take n ++ List.replicate (n - l.length) 0

/-- `std::copy` of `data` to `pos`. -/
def overwrite (l : Bytes) (pos : Nat) (data : Bytes) : Bytes :=
  l.take pos ++ data ++ l.drop (pos + data.length)

@[simp] theorem length_resize (l : Bytes) (n : Nat) : (resize l n).length = n := by
  simp only [resize, List.length_append, List.length_take, List.length_replicate]
  omega

theorem length_overwrite {l data : Bytes} {pos : Nat} (h : pos + data.length ≤ l.length) :
    (overwrite l pos data).length = l.length := by
  simp only [overwrite, List.length_append, List.length_take, List.length_drop]
  omega

theorem le_length_overwrite (l data : Bytes) {pos : Nat} (h : pos ≤ l.length) :
    l.length ≤ (overwrite l pos data).length := by
  simp only [overwrite, List.length_append, List.length_take, List.length_drop]
  omega

theorem add_length_le_overwrite (l data : Bytes) {pos : Nat} (h : pos ≤ l.length) :
    pos + data.length ≤ (overwrite l pos data).length := by
  simp only [overwrite, List.length_append, List.length_take, List.length_drop]
  omega

theorem take_resize {l : Bytes} {k n : Nat} (hk : k ≤ n) (hn : k ≤ l.length) :
    (resize l n).take k = l.take k := by
  rw [resize, List.take_append_of_le_length (by rw [List.length_take]; omega), List.take_take,
    min_eq_left hk]

namespace Buffer

/-- `Buffer(initialSize)`. -/
def new (initialSize : Nat) : Buffer where
  storage := List.replicate (kCheapPrepend + initialSize) 0
  readerIndex := kCheapPrepend
  writerIndex := kCheapPrepend
  reader_le := le_refl _
  writer_le := by simp
  cheap_le := by simp

/-- A buffer that holds `w`: what `append(w)` makes of a `Buffer(0)`. -/
def holding (w : Bytes) : Buffer where
  storage := List.replicate kCheapPrepend 0 ++ w
  readerIndex := kCheapPrepend
  writerIndex := kCheapPrepend + w.length
  reader_le := Nat.le_add_right _ _
  writer_le := by simp
  cheap_le := by simp

def readableBytes (b : Buffer) : Nat := b.writerIndex - b.readerIndex
def writableBytes (b : Buffer) : Nat := b.storage.length - b.writerIndex
def prependableBytes (b : Buffer) : Nat := b.readerIndex

theorem prepend_le (b : Buffer) {len : Nat} : b.readerIndex - len ≤ b.storage.length :=
  (Nat.sub_le _ _).trans (b.reader_le.trans b.writer_le)

/-- The bytes of `[peek(), beginWrite())`. -/
def readable (b : Buffer) : Bytes := (b.storage.take b.writerIndex).drop b.readerIndex

@[simp] theorem length_readable (b : Buffer) : b.readable.length = b.readableBytes := by
  have := b.writer_le
  simp only [readable, readableBytes, List.length_drop, List.length_take]
  omega

/-- The offset of the first CRLF from `peek()`, or `NULL`. -/
def findCRLF (b : Buffer) : Option Nat :=
  let crlf := search kCRLF b.readable
  if crlf = b.readableBytes then none else some crlf

def retrieveAll (b : Buffer) : Buffer where
  storage := b.storage
  readerIndex := kCheapPrepend
  writerIndex := kCheapPrepend
  reader_le := le_refl _
  writer_le := b.cheap_le
  cheap_le := b.cheap_le

def retrieve (b : Buffer) (len : Nat) : Option Buffer :=
  if len ≤ b.readableBytes then
    if h : len < b.readableBytes then
      some { b with
        readerIndex := b.readerIndex + len
        reader_le := by unfold readableBytes at h; omega }
    else some b.retrieveAll
  else none

/-- `retrieveUntil(peek() + end)`. -/
def retrieveUntil (b : Buffer) (endp : Nat) : Option Buffer :=
  if endp ≤ b.readableBytes then b.retrieve endp else none

def retrieveAsString (b : Buffer) (len : Nat) : Option (Bytes × Buffer) :=
  if len ≤ b.readableBytes then (b.retrieve len).map fun b' => (b.readable.take len, b')
  else none

def retrieveAllAsString (b : Buffer) : Option (Bytes × Buffer) :=
  b.retrieveAsString b.readableBytes

/-- `makeSpace`, which the code only calls when `writableBytes() < len`. -/
def makeSpace (b : Buffer) (len : Nat) (hlen : b.writableBytes < len) : Option Buffer :=
  if b.writableBytes + b.prependableBytes < len + kCheapPrepend then
    some { b with
      storage := resize b.storage (b.writerIndex + len)
      writer_le := by simp
      cheap_le := by
        have := b.cheap_le
        unfold writableBytes at hlen
        rw [length_resize]
        omega }
  else if kCheapPrepend < b.readerIndex then
    some {
      storage := overwrite b.storage kCheapPrepend b.readable
      readerIndex := kCheapPrepend
      writerIndex := kCheapPrepend + b.readableBytes
      reader_le := by omega
      writer_le := by
        rw [← length_readable]
        exact add_length_le_overwrite _ _ b.cheap_le
      cheap_le := b.cheap_le.trans (le_length_overwrite _ _ b.cheap_le) }
  else none

def ensureWritableBytes (b : Buffer) (len : Nat) : Option Buffer :=
  let b' := if h : b.writableBytes < len then b.makeSpace len h else some b
  b'.bind fun b' => if len ≤ b'.writableBytes then some b' else none

def hasWritten (b : Buffer) (len : Nat) : Option Buffer :=
  if h : len ≤ b.writableBytes then
    some { b with
      writerIndex := b.writerIndex + len
      reader_le := b.reader_le.trans (Nat.le_add_right _ _)
      writer_le := by have := b.writer_le; unfold writableBytes at h; omega }
  else none

/-- Copy `data` to `beginWrite()`. -/
def store (b : Buffer) (data : Bytes) : Buffer where
  storage := overwrite b.storage b.writerIndex data
  readerIndex := b.readerIndex
  writerIndex := b.writerIndex
  reader_le := b.reader_le
  writer_le := b.writer_le.trans (le_length_overwrite _ _ b.writer_le)
  cheap_le := b.cheap_le.trans (le_length_overwrite _ _ b.writer_le)

def unwrite (b : Buffer) (len : Nat) : Option Buffer :=
  if h : len ≤ b.readableBytes then
    some { b with
      writerIndex := b.writerIndex - len
      reader_le := by
        have := b.reader_le
        unfold readableBytes at h
        omega
      writer_le := (Nat.sub_le _ _).trans b.writer_le }
  else none

def prepend (b : Buffer) (data : Bytes) : Option Buffer :=
  if data.length ≤ b.prependableBytes then
    some {
      storage := overwrite b.storage (b.readerIndex - data.length) data
      readerIndex := b.readerIndex - data.length
      writerIndex := b.writerIndex
      reader_le := (Nat.sub_le _ _).trans b.reader_le
      writer_le := b.writer_le.trans (le_length_overwrite _ _ b.prepend_le)
      cheap_le := b.cheap_le.trans (le_length_overwrite _ _ b.prepend_le) }
  else none

def append (b : Buffer) (data : Bytes) : Option Buffer := do
  let b ← b.ensureWritableBytes data.length
  (b.store data).hasWritten data.length

/-- What `::readv` does: fails with an error number, or scatters the next
bytes of the stream over the vectors it was given. -/
inductive Readv
  | error (errno : Int)
  | bytes (data : Bytes)
  deriving DecidableEq, Repr

/-- `readFd(fd, savedErrno)`: the result, `*savedErrno` and the buffer. -/
def readFd (b : Buffer) (savedErrno : Int) : Readv → Option (Int × Int × Buffer)
  | .error errno => some (-1, errno, b)
  | .bytes data =>
    let b' := b.store (data.take b.writableBytes)
    if data.length ≤ b.writableBytes then
      (b'.hasWritten data.length).map fun b' => ((data.length : Int), savedErrno, b')
    else
      -- `writerIndex_ = buffer_.size()`, then the bytes that landed in `extrabuf`
      ((b'.hasWritten b'.writableBytes).bind (·.append (data.drop b.writableBytes))).map
        fun b' => ((data.length : Int), savedErrno, b')

/-! ### The readable bytes -/

theorem readableBytes_eq_zero {b : Buffer} : b.readableBytes = 0 ↔ b.readable = [] := by
  rw [← length_readable, List.length_eq_zero_iff]

@[simp] theorem readable_new (n : Nat) : (new n).readable = [] := by
  rw [← readableBytes_eq_zero]
  simp [readableBytes, new]

@[simp] theorem readable_holding (w : Bytes) : (holding w).readable = w := by
  simp only [readable, holding]
  rw [List.take_of_length_le (by simp)]
  exact List.drop_left' (by simp)

@[simp] theorem readable_retrieveAll (b : Buffer) : b.retrieveAll.readable = [] := by
  rw [← readableBytes_eq_zero]
  simp [readableBytes, retrieveAll]

theorem findCRLF_eq_none {b : Buffer} : b.findCRLF = none ↔ ¬ kCRLF <:+: b.readable := by
  rw [← Lib.Lines.search_eq_length_iff kCRLF_ne_nil, length_readable, findCRLF]
  simp

theorem findCRLF_line {b : Buffer} {line rest : Bytes} (h : Lib.Lines.Clear kCRLF line)
    (hb : b.readable = line ++ kCRLF ++ rest) : b.findCRLF = some line.length := by
  have hlen := congrArg List.length hb
  simp only [length_readable, List.length_append, kCRLF, List.length_cons] at hlen
  rw [findCRLF, hb, Lib.Lines.search_line h, if_neg]
  omega

/-- `retrieve` drops from the front; its assertion is its only failure. -/
theorem retrieve_eq_some {b : Buffer} {len : Nat} (h : len ≤ b.readableBytes) :
    ∃ b', b.retrieve len = some b' ∧ b'.readable = b.readable.drop len := by
  rw [retrieve, if_pos h]
  by_cases hlt : len < b.readableBytes
  · rw [dif_pos hlt]
    exact ⟨_, rfl, by simp [readable, List.drop_drop]⟩
  · rw [dif_neg hlt]
    refine ⟨_, rfl, ?_⟩
    rw [readable_retrieveAll, List.drop_eq_nil_of_le]
    rw [length_readable]
    omega

theorem retrieveUntil_eq_some {b : Buffer} {endp : Nat} (h : endp ≤ b.readableBytes) :
    ∃ b', b.retrieveUntil endp = some b' ∧ b'.readable = b.readable.drop endp := by
  rw [retrieveUntil, if_pos h]
  exact retrieve_eq_some h

theorem retrieveAsString_eq_some {b : Buffer} {len : Nat} (h : len ≤ b.readableBytes) :
    ∃ b', b.retrieveAsString len = some (b.readable.take len, b') ∧
      b'.readable = b.readable.drop len := by
  obtain ⟨b', hb', hr⟩ := retrieve_eq_some h
  exact ⟨b', by rw [retrieveAsString, if_pos h, hb']; rfl, hr⟩

theorem retrieveAllAsString_eq_some (b : Buffer) :
    ∃ b', b.retrieveAllAsString = some (b.readable, b') ∧ b'.readable = [] := by
  obtain ⟨b', hb', hread⟩ := retrieveAsString_eq_some (b := b) le_rfl
  rw [← length_readable, List.take_length] at hb'
  rw [← length_readable, List.drop_length] at hread
  exact ⟨b', by rw [retrieveAllAsString, ← length_readable, hb'], hread⟩

/-- `unwrite` drops from the end. -/
theorem unwrite_eq_some {b : Buffer} {len : Nat} (h : len ≤ b.readableBytes) :
    ∃ b', b.unwrite len = some b' ∧
      b'.readable = b.readable.take (b.readable.length - len) := by
  refine ⟨_, by rw [unwrite, dif_pos h], ?_⟩
  have hr := b.reader_le
  rw [length_readable]
  unfold readableBytes at h ⊢
  simp only [readable]
  rw [List.take_drop, List.take_take]
  congr 2
  omega

/-- `prepend` puts its bytes in front of the readable ones. -/
theorem prepend_eq_some {b : Buffer} {data : Bytes} (h : data.length ≤ b.prependableBytes) :
    ∃ b', b.prepend data = some b' ∧ b'.readable = data ++ b.readable := by
  refine ⟨_, by rw [prepend, if_pos h], ?_⟩
  have hr := b.reader_le
  have hw := b.writer_le
  unfold prependableBytes at h
  have hfront : (b.storage.take (b.readerIndex - data.length)).length =
      b.readerIndex - data.length := by
    rw [List.length_take]
    omega
  have hsum : b.readerIndex - data.length + data.length = b.readerIndex := by omega
  have hrest : b.writerIndex - (b.readerIndex - data.length) =
      data.length + (b.writerIndex - b.readerIndex) := by omega
  simp only [readable, overwrite]
  rw [hsum, List.append_assoc, List.drop_take, List.drop_left' hfront, hrest,
    List.take_length_add_append, List.drop_take]

/-! ### Making space and appending -/

/-- `makeSpace` makes the space, keeps the readable bytes, and its assertion
holds whenever the code calls it. -/
theorem makeSpace_eq_some {b : Buffer} {len : Nat} (hlen : b.writableBytes < len) :
    ∃ b', b.makeSpace len hlen = some b' ∧ b'.readable = b.readable ∧
      len ≤ b'.writableBytes := by
  have hr := b.reader_le
  have hw := b.writer_le
  unfold makeSpace
  split
  · refine ⟨_, rfl, ?_, ?_⟩
    · simp only [readable]
      rw [take_resize (Nat.le_add_right _ _) hw]
    · simp only [writableBytes, length_resize]
      omega
  · rename_i hfit
    have hreader : kCheapPrepend < b.readerIndex := by
      unfold writableBytes at hlen hfit
      unfold prependableBytes at hfit
      omega
    rw [if_pos hreader]
    have hlenr := b.length_readable
    refine ⟨_, rfl, ?_, ?_⟩
    · simp only [readable, overwrite]
      rw [List.take_append_of_le_length, List.take_of_length_le, List.drop_append_of_le_length,
        List.drop_of_length_le, List.nil_append]
      all_goals simp only [List.length_append, List.length_take, List.length_drop, readableBytes]
      all_goals omega
    · simp only [writableBytes]
      have := le_length_overwrite b.storage b.readable b.cheap_le
      unfold writableBytes prependableBytes at hfit
      unfold readableBytes
      omega

theorem ensureWritableBytes_eq_some (b : Buffer) (len : Nat) :
    ∃ b', b.ensureWritableBytes len = some b' ∧ b'.readable = b.readable ∧
      len ≤ b'.writableBytes := by
  unfold ensureWritableBytes
  by_cases h : b.writableBytes < len
  · obtain ⟨b', hb', hread, hspace⟩ := makeSpace_eq_some h
    exact ⟨b', by simp [h, hb', hspace], hread, hspace⟩
  · exact ⟨b, by simp [h, Nat.le_of_not_lt h], rfl, Nat.le_of_not_lt h⟩

/-- Copying to `beginWrite()` and moving `writerIndex_` past the copy. -/
theorem store_hasWritten {b : Buffer} {data : Bytes} (h : data.length ≤ b.writableBytes) :
    ∃ b', (b.store data).hasWritten data.length = some b' ∧
      b'.readable = b.readable ++ data ∧
      b'.writableBytes = b.writableBytes - data.length := by
  have hw := b.writer_le
  have hr := b.reader_le
  unfold writableBytes at h
  have hlen : (overwrite b.storage b.writerIndex data).length = b.storage.length :=
    length_overwrite (by omega)
  have hfit : data.length ≤ (b.store data).writableBytes := by
    simp only [writableBytes, store, hlen]
    omega
  refine ⟨_, by rw [hasWritten, dif_pos hfit], ?_, ?_⟩
  · have htake : (b.storage.take b.writerIndex).length = b.writerIndex := by
      rw [List.length_take]; omega
    simp only [readable, store, overwrite]
    rw [List.take_append_of_le_length (by simp; omega), List.take_of_length_le (by simp),
      List.drop_append_of_le_length (by omega)]
  · simp only [writableBytes, store, hlen]
    omega

/-- `append` puts its bytes behind the readable ones, and never fails. -/
theorem append_eq_some (b : Buffer) (data : Bytes) :
    ∃ b', b.append data = some b' ∧ b'.readable = b.readable ++ data := by
  obtain ⟨b₁, h₁, hread, hspace⟩ := b.ensureWritableBytes_eq_some data.length
  obtain ⟨b₂, h₂, hread₂, -⟩ := store_hasWritten hspace
  exact ⟨b₂, by simp [append, h₁, h₂], by rw [hread₂, hread]⟩

/-- `readFd` appends exactly the bytes that `::readv` delivered. -/
theorem readFd_bytes (b : Buffer) (savedErrno : Int) (data : Bytes) :
    ∃ b', b.readFd savedErrno (.bytes data) = some ((data.length : Int), savedErrno, b') ∧
      b'.readable = b.readable ++ data := by
  by_cases h : data.length ≤ b.writableBytes
  · obtain ⟨b', hb', hread, -⟩ := store_hasWritten h
    refine ⟨b', ?_, hread⟩
    rw [readFd, List.take_of_length_le h, if_pos h, hb']
    rfl
  · have hle : b.writableBytes ≤ data.length := by omega
    have htake : (data.take b.writableBytes).length = b.writableBytes := by
      rw [List.length_take, min_eq_left hle]
    obtain ⟨b₁, h₁, hread₁, -⟩ := store_hasWritten (b := b) htake.le
    obtain ⟨b₂, h₂, hread₂⟩ := b₁.append_eq_some (data.drop b.writableBytes)
    have hspace : (b.store (data.take b.writableBytes)).writableBytes = b.writableBytes := by
      have hw := b.writer_le
      show (overwrite _ _ _).length - b.writerIndex = _
      rw [length_overwrite (by rw [htake]; unfold writableBytes; omega)]
      rfl
    refine ⟨b₂, ?_, ?_⟩
    · rw [readFd, if_neg h, hspace]
      rw [htake] at h₁
      simp [h₁, h₂]
    · rw [hread₂, hread₁, List.append_assoc, List.take_append_drop]

end Buffer

end Dummyload
