import Mathlib.Data.List.Nodup
import Mathlib.Data.Set.Insert
import Mathlib.Logic.Function.Basic
import Mathlib.Order.Basic

/-!
# Dummyload.Timer.Table

What a timer queue is for: a **table of timers** in which each timer has a name of
its own, that is never used again. A timer is live from when it is added until it
is cancelled or, if it runs once, until it has run.

A batch runs the timers that are due at its start, in the order of their
expirations, each at most once; meanwhile timers may be added and cancelled. A due
timer that was not cancelled during the batch has to be run, and is scheduled
again at the end of the batch if it repeats.
-/

namespace Dummyload

/-- A timer's expiration, and its period if it repeats. -/
structure Table.Entry (τ : Type*) where
  expiration : τ
  period : Option τ

/-- A batch: the timers that were due at its start, those that it has run, and those
that were cancelled since. -/
structure Table.Batch (ι τ : Type*) where
  now : τ
  due : List ι
  ran : List ι
  cancelled : List ι

inductive Table.Label (ι τ : Type*)
  | add (id : ι) (e : Table.Entry τ)
  | cancel (id : ι)
  | start (now : τ)
  | run (id : ι)
  | finish

structure Table (ι τ : Type*) where
  /-- The live timers. -/
  entries : ι → Option (Table.Entry τ)
  /-- The names given so far. -/
  used : Set ι
  batch : Option (Table.Batch ι τ)

namespace Table

variable {ι τ : Type*}

/-- No timer was added yet. -/
def empty : Table ι τ := ⟨fun _ => none, ∅, none⟩

def Entry.repeats (e : Entry τ) : Bool := e.period.isSome

/-- A repeating timer, scheduled again by a batch that started at `now`. -/
def Entry.next [Add τ] (now : τ) (e : Entry τ) : Option (Entry τ) :=
  e.period.map fun period => ⟨now + period, some period⟩

/-- The timers are due at `now`, and no others; each is there once, and none before one
that expires earlier. -/
structure IsDue [LE τ] (t : Table ι τ) (now : τ) (due : List ι) : Prop where
  mem_iff : ∀ id, id ∈ due ↔ ∃ e, t.entries id = some e ∧ e.expiration ≤ now
  nodup : due.Nodup
  sorted : due.Pairwise fun id id' => ∀ e e', t.entries id = some e → t.entries id' = some e' →
    e.expiration ≤ e'.expiration

variable [DecidableEq ι] [LE τ] [Add τ]

inductive Step : Table ι τ → Label ι τ → Table ι τ → Prop
  | add {t : Table ι τ} {id : ι} (e : Entry τ) (hfresh : id ∉ t.used) :
      Step t (.add id e)
        { t with entries := Function.update t.entries id (some e), used := insert id t.used }
  | cancel (t : Table ι τ) (id : ι) :
      Step t (.cancel id)
        { t with
          entries := Function.update t.entries id none
          batch := t.batch.map fun b => { b with cancelled := id :: b.cancelled } }
  | start {t : Table ι τ} {now : τ} {due : List ι} (hidle : t.batch = none)
      (hdue : t.IsDue now due) :
      Step t (.start now) { t with batch := some ⟨now, due, [], []⟩ }
  /-- The next timer is one after those that were run. -/
  | run {t : Table ι τ} {b : Batch ι τ} {id : ι} (hbatch : t.batch = some b)
      (hnext : (b.ran ++ [id]).Sublist b.due) :
      Step t (.run id)
        { t with
          entries := Function.update t.entries id ((t.entries id).filter Entry.repeats)
          batch := some { b with ran := b.ran ++ [id] } }
  | finish {t : Table ι τ} {b : Batch ι τ} (hbatch : t.batch = some b)
      (hall : ∀ id ∈ b.due, id ∈ b.ran ∨ id ∈ b.cancelled) :
      Step t .finish
        { t with
          entries := fun id =>
            if id ∈ b.due then (t.entries id).bind (Entry.next b.now) else t.entries id
          batch := none }

end Table

end Dummyload
