import Dummyload.BufferQueue

/-!
# Dummyload.Backlog

How large the storage of a `Buffer` gets. A reservation of `len` bytes either moves the
readable bytes to the front or grows the vector, and then from `writerIndex_` on, so that
what was consumed before stays in it. It only grows where less than `len + kCheapPrepend`
bytes are free in all (`ensureWritableBytes_length`): that keeps the consumed part small,
and the size within twice the reservation and the bytes that wait to be read.
-/

namespace Dummyload

namespace Buffer

open Lib.Machine (run Meets)

/-! ### A buffer in use -/

/-- What is done to one buffer. -/
inductive Use
  | call (op : Op)
  | hasWritten (len : Nat)
  | readFd (savedErrno : Int) (result : Readv)

namespace Use

/-- A call outside its precondition fails. -/
def step (b : Buffer) : Use → Option Buffer
  | .call op => if op.Pre b then (op.call b).map Prod.fst else none
  | .hasWritten len => b.hasWritten len
  | .readFd savedErrno result => (b.readFd savedErrno result).map fun (_, _, b) => b

/-- The reservation that the call makes, if it makes one: the bytes that it asks for, and
those that it finds readable. `readFd` reserves what did not fit, behind a full vector. -/
def reservation (b : Buffer) : Use → Option (Nat × Nat)
  | .call (.append data) => some (data.length, b.readableBytes)
  | .call (.ensureWritableBytes len) => some (len, b.readableBytes)
  | .readFd _ (.bytes data) =>
    if data.length ≤ b.writableBytes then none
    else some (data.length - b.writableBytes, b.readableBytes + b.writableBytes)
  | _ => none

/-- No reservation asks for more than `L` bytes or finds more than `R` readable. -/
def Modest (L R : Nat) (b : Buffer) (use : Use) : Prop :=
  ∀ r ∈ use.reservation b, r.1 ≤ L ∧ r.2 ≤ R

instance (L R : Nat) (b : Buffer) : DecidablePred (Modest L R b) := fun use =>
  inferInstanceAs (Decidable (∀ r ∈ use.reservation b, r.1 ≤ L ∧ r.2 ≤ R))

end Use

/-- The size that a reservation can lead to. -/
def grown (len readable : Nat) : Nat := readable + 2 * len + kCheapPrepend - 1

/-! ### Sizes -/

variable {b b' : Buffer} {len : Nat} {data : Bytes}

theorem retrieve_storage (h : b.retrieve len = some b') : b'.storage = b.storage := by
  unfold retrieve at h
  split at h
  · split at h
    · obtain rfl := Option.some.inj h
      rfl
    · obtain rfl := Option.some.inj h
      rfl
  · cases h

theorem retrieveAsString_storage {str : Bytes} (h : b.retrieveAsString len = some (str, b')) :
    b'.storage = b.storage := by
  unfold retrieveAsString at h
  split at h
  · obtain ⟨b₁, hretrieve, heq⟩ := Option.map_eq_some_iff.mp h
    rw [← (Prod.mk.inj heq).2, retrieve_storage hretrieve]
  · cases h

theorem hasWritten_storage (h : b.hasWritten len = some b') : b'.storage = b.storage := by
  unfold hasWritten at h
  split at h
  · obtain rfl := Option.some.inj h
    rfl
  · cases h

theorem unwrite_storage (h : b.unwrite len = some b') : b'.storage = b.storage := by
  unfold unwrite at h
  split at h
  · obtain rfl := Option.some.inj h
    rfl
  · cases h

theorem prepend_length (h : b.prepend data = some b') :
    b'.storage.length = b.storage.length := by
  unfold prepend at h
  split at h
  · rename_i hlen
    obtain rfl := Option.some.inj h
    have hr := b.reader_le
    have hw := b.writer_le
    unfold prependableBytes at hlen
    exact length_overwrite (by omega)
  · cases h

theorem store_length (h : data.length ≤ b.writableBytes) :
    (b.store data).storage.length = b.storage.length := by
  have hw := b.writer_le
  unfold writableBytes at h
  exact length_overwrite (by omega)

/-- **A reservation grows the storage only where little of it is free.** -/
theorem ensureWritableBytes_length (h : b.ensureWritableBytes len = some b') :
    b'.storage.length ≤ max b.storage.length (grown len b.readableBytes) := by
  have hr := b.reader_le
  have hw := b.writer_le
  unfold ensureWritableBytes at h
  obtain ⟨b₁, hspace, hb₁⟩ := Option.bind_eq_some_iff.mp h
  split at hb₁
  · obtain rfl := Option.some.inj hb₁
    split at hspace
    · unfold makeSpace at hspace
      split at hspace
      · rename_i hlen hfull
        obtain rfl := Option.some.inj hspace
        -- The consumed bytes are fewer than `len + kCheapPrepend`.
        unfold writableBytes prependableBytes at hfull
        simp only [length_resize, grown, readableBytes]
        omega
      · split at hspace
        · obtain rfl := Option.some.inj hspace
          have hmoved : kCheapPrepend + b.readable.length ≤ b.storage.length := by
            rw [length_readable, readableBytes]
            omega
          exact (length_overwrite hmoved).le.trans (le_max_left _ _)
        · cases hspace
    · obtain rfl := Option.some.inj hspace
      exact le_max_left _ _
  · cases hb₁

theorem writableBytes_of_ensureWritableBytes (h : b.ensureWritableBytes len = some b') :
    len ≤ b'.writableBytes := by
  unfold ensureWritableBytes at h
  obtain ⟨b₁, -, hb₁⟩ := Option.bind_eq_some_iff.mp h
  split at hb₁
  · rename_i hlen
    obtain rfl := Option.some.inj hb₁
    exact hlen
  · cases hb₁

theorem append_length (h : b.append data = some b') :
    b'.storage.length ≤ max b.storage.length (grown data.length b.readableBytes) := by
  obtain ⟨b₁, hspace, hwritten⟩ := Option.bind_eq_some_iff.mp h
  rw [hasWritten_storage hwritten, store_length (writableBytes_of_ensureWritableBytes hspace)]
  exact ensureWritableBytes_length hspace

theorem hasWritten_readableBytes (h : b.hasWritten len = some b') :
    b'.readableBytes = b.readableBytes + len := by
  unfold hasWritten at h
  split at h
  · obtain rfl := Option.some.inj h
    have hr := b.reader_le
    simp only [readableBytes]
    omega
  · cases h

/-- What did not fit is appended behind a full vector. -/
theorem readFd_length {savedErrno n e : Int} {data : Bytes}
    (h : b.readFd savedErrno (.bytes data) = some (n, e, b')) :
    if data.length ≤ b.writableBytes then b'.storage.length = b.storage.length
    else b'.storage.length ≤ max b.storage.length
      (grown (data.length - b.writableBytes) (b.readableBytes + b.writableBytes)) := by
  have hstore : (b.store (data.take b.writableBytes)).storage.length = b.storage.length :=
    store_length (by rw [List.length_take]; exact min_le_left _ _)
  have hwritable : (b.store (data.take b.writableBytes)).writableBytes = b.writableBytes := by
    rw [writableBytes, hstore]
    rfl
  rw [readFd] at h
  split
  · rename_i hfits
    rw [if_pos hfits] at h
    obtain ⟨b₁, hwritten, heq⟩ := Option.map_eq_some_iff.mp h
    obtain rfl : b₁ = b' := by simpa using congrArg (·.2.2) heq
    rw [hasWritten_storage hwritten, hstore]
  · rename_i hfits
    rw [if_neg hfits, hwritable] at h
    obtain ⟨b₁, happend, heq⟩ := Option.map_eq_some_iff.mp h
    obtain rfl : b₁ = b' := by simpa using congrArg (·.2.2) heq
    obtain ⟨b₂, hwritten, happend⟩ := Option.bind_eq_some_iff.mp happend
    have hlen := append_length happend
    rwa [hasWritten_storage hwritten, hstore, hasWritten_readableBytes hwritten,
      List.length_drop] at hlen

/-! ### One call -/

namespace Op

/-- Only reservations change the size. -/
theorem call_length {op : Op} {str : Option Bytes} (hpre : op.Pre b)
    (h : op.call b = some (b', str)) :
    b'.storage.length = b.storage.length ∨
      ∃ r ∈ (Use.call op).reservation b,
        b'.storage.length ≤ max b.storage.length (grown r.1 r.2) := by
  have hmap : ∀ {f : Option Buffer}, f.map (·, (none : Option Bytes)) = some (b', str) →
      f = some b' := by
    intro f hf
    obtain ⟨b₁, hb₁, heq⟩ := Option.map_eq_some_iff.mp hf
    rw [hb₁, (Prod.mk.inj heq).1]
  cases op with
  | append data => exact .inr ⟨_, rfl, append_length (hmap h)⟩
  | ensureWritableBytes len => exact .inr ⟨_, rfl, ensureWritableBytes_length (hmap h)⟩
  | retrieve len => exact .inl (congrArg _ (retrieve_storage (hmap h)))
  | retrieveUntil endp =>
      have hretrieve := hmap h
      have hpre : endp ≤ b.readableBytes := hpre
      rw [Buffer.retrieveUntil, if_pos hpre] at hretrieve
      exact .inl (congrArg _ (retrieve_storage hretrieve))
  | retrieveAll =>
      obtain ⟨rfl, -⟩ := Prod.mk.inj (Option.some.inj h)
      exact .inl rfl
  | retrieveAsString len =>
      obtain ⟨⟨str, b₁⟩, hretrieve, heq⟩ := Option.map_eq_some_iff.mp h
      obtain rfl : b₁ = b' := (Prod.mk.inj heq).1
      exact .inl (congrArg _ (retrieveAsString_storage hretrieve))
  | retrieveAllAsString =>
      obtain ⟨⟨str, b₁⟩, hretrieve, heq⟩ := Option.map_eq_some_iff.mp h
      obtain rfl : b₁ = b' := (Prod.mk.inj heq).1
      exact .inl (congrArg _ (retrieveAsString_storage hretrieve))
  | prepend data => exact .inl (prepend_length (hmap h))
  | unwrite len => exact .inl (congrArg _ (unwrite_storage (hmap h)))
  | write data =>
      have hwritten := hmap h
      exact .inl (by rw [hasWritten_storage hwritten, store_length hpre])

end Op

namespace Use

theorem step_length {use : Use} (h : use.step b = some b') :
    b'.storage.length = b.storage.length ∨
      ∃ r ∈ use.reservation b, b'.storage.length ≤ max b.storage.length (grown r.1 r.2) := by
  cases use with
  | call op =>
      rw [step] at h
      split at h
      · rename_i hpre
        obtain ⟨⟨b₁, str⟩, hcall, rfl⟩ := Option.map_eq_some_iff.mp h
        exact Op.call_length hpre hcall
      · cases h
  | hasWritten len => exact .inl (congrArg _ (hasWritten_storage h))
  | readFd savedErrno result =>
      obtain ⟨⟨n, e, b₁⟩, hread, rfl⟩ := Option.map_eq_some_iff.mp h
      cases result with
      | error errno =>
          obtain rfl : b = b₁ := by simpa [Buffer.readFd] using congrArg (·.map (·.2.2)) hread
          exact .inl rfl
      | bytes data =>
          have hlen := readFd_length hread
          rw [reservation]
          split at hlen
          · exact .inl hlen
          · rename_i hfits
            rw [if_neg hfits]
            exact .inr ⟨_, rfl, hlen⟩

/-! ### Any number of calls -/

theorem grown_le {r : Nat × Nat} {L R : Nat} (hlen : r.1 ≤ L) (hreadable : r.2 ≤ R) :
    grown r.1 r.2 ≤ grown L R := by
  unfold grown
  omega

/-- **The storage is bounded by the backlog**: however much passes through a buffer, its size
depends on the largest reservation and the most bytes waiting at one. -/
theorem storage_le_backlog {initialSize L R : Nat} {uses : List Use} {b : Buffer}
    (hmodest : Meets step (Modest L R) (new initialSize) uses)
    (hrun : run step (new initialSize) uses = some b) :
    b.storage.length ≤
      max (kCheapPrepend + initialSize) (R + 2 * L + kCheapPrepend - 1) := by
  have hstep : ∀ (b : Buffer) (use : Use) (b' : Buffer),
      b.storage.length ≤ max (kCheapPrepend + initialSize) (grown L R) →
      Modest L R b use → step b use = some b' →
      b'.storage.length ≤ max (kCheapPrepend + initialSize) (grown L R) := by
    intro b use b' hb hmod h
    rcases step_length h with heq | ⟨r, hr, hle⟩
    · rwa [heq]
    · obtain ⟨hlen, hreadable⟩ := hmod r hr
      exact hle.trans (max_le hb ((grown_le hlen hreadable).trans (le_max_right _ _)))
  have hnew : (new initialSize).storage.length ≤
      max (kCheapPrepend + initialSize) (grown L R) := by
    rw [new, List.length_replicate]
    exact le_max_left _ _
  exact Lib.Machine.invariant_of_meets hstep hnew hmodest hrun

/-- A small buffer that is read from and written to by turns: it grows, moves what it
holds, and takes in a read that does not fit. -/
def exampleUses : List Use :=
  [.call (.append (ascii "abcd")), .call (.retrieve 2), .call (.append (ascii "efg")),
    .call (.retrieve 4), .call (.ensureWritableBytes 3), .call (.write (ascii "hij")),
    .readFd 0 (.bytes (ascii "klmno")), .call (.prepend (ascii "p")), .call (.unwrite 2),
    .call .retrieveAllAsString]

theorem storage_le_backlog_exampleUses :
    ∃ b, run step (new 4) exampleUses = some b ∧
      b.storage.length ≤ max (kCheapPrepend + 4) (7 + 2 * 4 + kCheapPrepend - 1) := by
  obtain ⟨b, hb⟩ := Option.isSome_iff_exists.mp
    (show (run step (new 4) exampleUses).isSome by decide +kernel)
  exact ⟨b, hb, storage_le_backlog (L := 4) (R := 7) (by decide +kernel) hb⟩

/-- One byte into a buffer without room: the bound is reached. -/
example : (run step (new 0) [.call (.append [1])]).map (·.storage.length) =
    some (0 + 2 * 1 + kCheapPrepend - 1) := by decide +kernel

end Use

end Buffer

end Dummyload
