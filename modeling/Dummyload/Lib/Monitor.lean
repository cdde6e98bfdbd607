import Mathlib.Data.List.Basic
import Mathlib.Data.List.Count
import Mathlib.Tactic.Common

/-!
# Dummyload.Lib.Monitor

**Condition variables** of a monitor whose threads are a list of local states.

`wait` blocks until another thread signals, or for no reason at all (a spurious
wake-up); either way the thread has to get the mutex back and test its condition
again, and others may come before it. `signal` wakes one of the blocked threads,
any of them, and is lost when there is none.

`Covered` is the counting invariant behind single signals: of `k` things to be had,
every one is matched by a signalled thread, unless nobody is blocked. It allows
newcomers to overtake a signalled thread, since they take one of the `k` as well.
-/

namespace Lib.Monitor

variable {α β : Type*}

/-! ### One thread moves -/

/-- The list around the thread `i`. -/
theorem exists_split {ts : List α} {i : Nat} {a : α} (h : ts[i]? = some a) :
    ∃ before after, ts = before ++ a :: after ∧ ∀ b, ts.set i b = before ++ b :: after := by
  induction ts generalizing i with
  | nil => simp at h
  | cons t ts ih =>
      cases i with
      | zero =>
          obtain rfl : t = a := by simpa using h
          exact ⟨[], ts, rfl, fun b => rfl⟩
      | succ i =>
          obtain ⟨before, after, rfl, hset⟩ := ih (by simpa using h)
          exact ⟨t :: before, after, rfl, fun b => by rw [List.set_cons_succ, hset]; rfl⟩

theorem countP_move {ts : List α} {i : Nat} {a : α} (h : ts[i]? = some a) (p : α → Bool)
    (b : α) :
    (ts.set i b).countP p + (if p a then 1 else 0) = ts.countP p + (if p b then 1 else 0) := by
  obtain ⟨before, after, rfl, hset⟩ := exists_split h
  rw [hset, List.countP_append, List.countP_append, List.countP_cons, List.countP_cons]
  omega

/-- What the threads hold, when one of them moves. -/
theorem flatMap_move {ts : List α} {i : Nat} {a : α} (h : ts[i]? = some a) (f : α → List β)
    (b : α) : (f a ++ (ts.set i b).flatMap f).Perm (f b ++ ts.flatMap f) := by
  obtain ⟨before, after, rfl, hset⟩ := exists_split h
  rw [hset, List.flatMap_append, List.flatMap_append, List.flatMap_cons, List.flatMap_cons]
  have hfront := List.perm_append_comm_assoc (f a) (before.flatMap f) (f b ++ after.flatMap f)
  have hswap := (List.perm_append_comm_assoc (f a) (f b) (after.flatMap f)).append_left
    (before.flatMap f)
  exact (hfront.trans hswap).trans (List.perm_append_comm_assoc _ _ _)

/-! ### Condition variables -/

/-- Where a thread in `wait` stands. -/
inductive Wait
  /-- Not woken yet. -/
  | blocked
  /-- Woken by a signal, without the mutex yet. -/
  | notified
  /-- Woken without a signal, and without the mutex yet. -/
  | awake
  deriving DecidableEq, Repr

/-- A condition variable: how a thread stands with it, and what a signal does to
a thread. -/
structure Condition (α : Type*) where
  status : α → Option Wait
  wake : α → α
  status_wake : ∀ t, status t = some .blocked → status (wake t) = some .notified

namespace Condition

variable (c : Condition α)

def count (w : Wait) (ts : List α) : Nat := ts.countP fun t => c.status t = some w

/-- `signal`, waking the thread chosen; a choice is only missing when none is blocked. -/
def signal (ts : List α) : Option Nat → Option (List α)
  | some i =>
    match ts[i]? with
    | some t => if c.status t = some .blocked then some (ts.set i (c.wake t)) else none
    | none => none
  | none => if c.count .blocked ts = 0 then some ts else none

/-- `broadcast`. -/
def broadcast (ts : List α) : List α :=
  ts.map fun t => if c.status t = some .blocked then c.wake t else t

/-- Each of `k` things is matched by a notified thread, or nobody is blocked. -/
def Covered (ts : List α) (k : Nat) : Prop :=
  c.count .blocked ts = 0 ∨ k ≤ c.count .notified ts

variable {c} {ts ts' : List α} {i k : Nat} {a b : α} {w : Wait}

theorem count_pos_iff : 0 < c.count w ts ↔ ∃ t ∈ ts, c.status t = some w := by
  simp [count, List.countP_pos_iff]

theorem count_move (h : ts[i]? = some a) (w : Wait) (b : α) :
    c.count w (ts.set i b) + (if c.status a = some w then 1 else 0) =
      c.count w ts + (if c.status b = some w then 1 else 0) := by
  simpa [count] using countP_move h (fun t => decide (c.status t = some w)) b

theorem count_concat (w : Wait) (ts : List α) (b : α) :
    c.count w (ts ++ [b]) = c.count w ts + (if c.status b = some w then 1 else 0) := by
  simp [count, List.countP_append, List.countP_singleton]

theorem signal_cases {choice : Option Nat} (h : c.signal ts choice = some ts') :
    (c.count .blocked ts = 0 ∧ ts' = ts) ∨
      ∃ i t, ts[i]? = some t ∧ c.status t = some .blocked ∧ ts' = ts.set i (c.wake t) := by
  cases choice with
  | none =>
      simp only [signal] at h
      split at h
      · rename_i hnone
        exact Or.inl ⟨hnone, (Option.some.inj h).symm⟩
      · cases h
  | some i =>
      simp only [signal] at h
      cases ht : ts[i]? with
      | none => rw [ht] at h; cases h
      | some t =>
          rw [ht] at h
          dsimp only at h
          split at h
          · rename_i hblocked
            exact Or.inr ⟨i, t, ht, hblocked, (Option.some.inj h).symm⟩
          · cases h

theorem length_signal {choice : Option Nat} (h : c.signal ts choice = some ts') :
    ts'.length = ts.length := by
  rcases signal_cases h with ⟨-, rfl⟩ | ⟨i, t, -, -, rfl⟩
  · rfl
  · exact List.length_set

/-- A signal turns one blocked thread into a notified one, if there is any. -/
theorem count_signal {choice : Option Nat} (h : c.signal ts choice = some ts') :
    (c.count .blocked ts = 0 ∧ ts' = ts) ∨
      (c.count .blocked ts' + 1 = c.count .blocked ts ∧
        c.count .notified ts' = c.count .notified ts + 1) := by
  rcases signal_cases h with hnone | ⟨i, t, ht, hblocked, rfl⟩
  · exact Or.inl hnone
  · have hb := count_move (c := c) ht .blocked (c.wake t)
    have hn := count_move (c := c) ht .notified (c.wake t)
    rw [c.status_wake t hblocked, hblocked] at hb hn
    simp only [↓reduceIte, Option.some.injEq, reduceCtorEq, Nat.add_zero] at hb hn
    exact Or.inr ⟨hb, hn⟩

theorem count_blocked_broadcast (ts : List α) : c.count .blocked (c.broadcast ts) = 0 := by
  rw [← Nat.le_zero, ← Nat.not_lt, count_pos_iff]
  intro hex
  obtain ⟨t, ht, hblocked⟩ := hex
  obtain ⟨u, -, rfl⟩ := List.mem_map.mp ht
  split at hblocked
  · rename_i hu
    rw [c.status_wake u hu] at hblocked
    cases hblocked
  · rename_i hu
    exact hu hblocked

theorem length_broadcast (ts : List α) : (c.broadcast ts).length = ts.length := List.length_map _

/-- Only the blocked threads notice a broadcast. -/
theorem getElem?_broadcast_iff {t : α} (h : c.status t = none) :
    (c.broadcast ts)[i]? = some t ↔ ts[i]? = some t := by
  rw [broadcast, List.getElem?_map, Option.map_eq_some_iff]
  constructor
  · intro hex
    obtain ⟨u, hu, hwoken⟩ := hex
    split at hwoken
    · rename_i hblocked
      have hstatus := c.status_wake u hblocked
      rw [hwoken, h] at hstatus
      cases hstatus
    · rwa [← hwoken]
  · exact fun ht => ⟨t, ht, if_neg (by rw [h]; exact nofun)⟩

/-! ### The counting invariant -/

namespace Covered

theorem zero : c.Covered ts 0 := Or.inr (Nat.zero_le _)

theorem anti {k' : Nat} (h : c.Covered ts k) (hle : k' ≤ k) : c.Covered ts k' :=
  h.imp_right fun h => Nat.le_trans hle h

/-- One thing more, and a signal. -/
theorem signal {choice : Option Nat} (h : c.Covered ts k) (hs : c.signal ts choice = some ts') :
    c.Covered ts' (k + 1) := by
  unfold Covered at h ⊢
  rcases count_signal hs with ⟨hnone, rfl⟩ | ⟨hblocked, hnotified⟩
  · exact Or.inl hnone
  · omega

/-- A thread that was not notified moves, and does not block. -/
theorem move (h : c.Covered ts k) (hi : ts[i]? = some a) (ha : c.status a ≠ some .notified)
    (hb : c.status b ≠ some .blocked) : c.Covered (ts.set i b) k := by
  have hblocked := count_move (c := c) hi .blocked b
  have hnotified := count_move (c := c) hi .notified b
  rw [if_neg hb] at hblocked
  rw [if_neg ha] at hnotified
  unfold Covered at h ⊢
  split at hblocked <;> split at hnotified <;> omega

/-- A thread takes one of the things. -/
theorem take (h : c.Covered ts (k + 1)) (hi : ts[i]? = some a)
    (hb : c.status b ≠ some .blocked) : c.Covered (ts.set i b) k := by
  have hblocked := count_move (c := c) hi .blocked b
  have hnotified := count_move (c := c) hi .notified b
  rw [if_neg hb] at hblocked
  unfold Covered at h ⊢
  split at hblocked <;> split at hnotified <;> split at hnotified <;> omega

theorem broadcast : c.Covered (c.broadcast ts) k := Or.inl (count_blocked_broadcast ts)

/-- While there is something to be had, a blocked thread is not the only one. -/
theorem exists_notified (h : c.Covered ts k) (hk : 0 < k)
    (hblocked : ∃ t ∈ ts, c.status t = some .blocked) :
    ∃ t ∈ ts, c.status t = some .notified := by
  rw [← count_pos_iff] at hblocked ⊢
  unfold Covered at h
  omega

end Covered

end Condition

end Lib.Monitor
