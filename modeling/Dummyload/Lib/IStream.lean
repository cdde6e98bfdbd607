import Mathlib.Data.List.TakeWhile
import Mathlib.Tactic.Common

/-!
# Dummyload.Lib.IStream

A C++ input stream over a string (`std::istringstream`): a position in a text and the
three state bits, with the unformatted input functions that parsers of one
character of lookahead use. Each of them first asks whether the stream is good and
sets `failbit` if it is not; a character variable that could not be read keeps its
value.

A parser that is run on good streams only sees `ready` ones, and there the
functions are what one expects. That a loop of such a parser ends is shown with `budget`, which
no function raises and reading a character lowers.
-/

namespace Lib

/-- A text, what was extracted of it (the last character first), and the state. -/
structure IStream (α : Type*) where
  before : List α
  rest : List α
  eofbit : Bool := false
  failbit : Bool := false
  badbit : Bool := false
  deriving DecidableEq

namespace IStream

variable {α : Type*} {s : IStream α} {c : α} {b r : List α}

/-- A stream in state `goodbit`. -/
def ready (before rest : List α) : IStream α := { before, rest }

/-- `std::istringstream is(text)`. -/
def ofText (text : List α) : IStream α := ready [] text

def good (s : IStream α) : Bool := !s.eofbit && !s.failbit && !s.badbit

/-- `s.fail()`. -/
def fail (s : IStream α) : Bool := s.failbit || s.badbit

/-! ### Unformatted input -/

/-- `s.get(ch)`, with the value of `ch` before and after. -/
def get (ch : α) (s : IStream α) : α × IStream α :=
  if s.good then
    match s.rest with
    | c :: r => (c, { s with before := c :: s.before, rest := r })
    | [] => (ch, { s with eofbit := true, failbit := true })
  else (ch, { s with failbit := true })

/-- `s.peek()`; `none` is `EOF`. -/
def peek (s : IStream α) : Option α × IStream α :=
  if s.good then
    match s.rest with
    | c :: _ => (some c, s)
    | [] => (none, { s with eofbit := true })
  else (none, { s with failbit := true })

/-- `s.putback(c)`. The string cannot be written to, so `c` must be what stands there. -/
def putback [DecidableEq α] (c : α) (s : IStream α) : IStream α :=
  let s := { s with eofbit := false }
  if s.good then
    match s.before with
    | b :: bs => if b = c then { s with before := bs, rest := c :: s.rest }
        else { s with badbit := true }
    | [] => { s with badbit := true }
  else { s with failbit := true }

/-- `s.unget()`. -/
def unget (s : IStream α) : IStream α :=
  let s := { s with eofbit := false }
  if s.good then
    match s.before with
    | b :: bs => { s with before := bs, rest := b :: s.rest }
    | [] => { s with badbit := true }
  else { s with failbit := true }

/-- `s.clear()`. -/
def clear (s : IStream α) : IStream α := ready s.before s.rest

/-- Over the next `n` characters. -/
def advance (n : Nat) (s : IStream α) : IStream α :=
  { s with before := (s.rest.take n).reverse ++ s.before, rest := s.rest.drop n }

/-- `s >> std::ws`. -/
def ws (space : α → Bool) (s : IStream α) : IStream α :=
  if s.good then
    let s := s.advance (s.rest.takeWhile space).length
    { s with eofbit := s.rest.isEmpty }
  else { s with failbit := true }

/-- `s.tellg()`; `none` is `-1`. -/
def tellg (s : IStream α) : Option Nat × IStream α :=
  if s.good then (some s.before.length, s) else (none, { s with failbit := true })

/-- `s.seekg(pos)`. -/
def seekg (pos : Option Nat) (s : IStream α) : IStream α :=
  let s := { s with eofbit := false }
  let text := s.before.reverse ++ s.rest
  if s.good then
    match pos with
    | some n =>
      if n ≤ text.length then { s with before := (text.take n).reverse, rest := text.drop n }
      else { s with failbit := true }
    | none => { s with failbit := true }
  else { s with failbit := true }

/-- `s >> value`, where `scan` says what a conversion makes of the characters ahead: how many
it takes, and the value if there is one. -/
def extract {β : Type*} (space : α → Bool) (scan : List α → Nat × Option β) (s : IStream α) :
    Option β × IStream α :=
  let s := s.ws space
  if s.good then
    let n := (scan s.rest).1
    let s' := { s.advance n with eofbit := decide (s.rest.length ≤ n) }
    match (scan s.rest).2 with
    | some v => (some v, s')
    | none => (none, { s' with failbit := true })
  else (none, { s with failbit := true })

/-! ### On a good stream -/

@[simp] theorem good_ready : (ready b r).good = true := rfl
@[simp] theorem eofbit_ready : (ready b r).eofbit = false := rfl
@[simp] theorem fail_ready : (ready b r).fail = false := rfl
@[simp] theorem rest_ready : (ready b r).rest = r := rfl

@[simp] theorem get_ready (ch : α) : (ready b (c :: r)).get ch = (c, ready (c :: b) r) := rfl

@[simp] theorem peek_ready : (ready b (c :: r)).peek = (some c, ready b (c :: r)) := rfl

@[simp] theorem putback_ready [DecidableEq α] :
    (ready (c :: b) r).putback c = ready b (c :: r) := by
  simp [putback, ready, good]

@[simp] theorem tellg_ready : (ready b r).tellg = (some b.length, ready b r) := rfl

theorem advance_ready (b x r : List α) :
    (ready b (x ++ r)).advance x.length = ready (x.reverse ++ b) r := by
  simp [advance, ready]

/-- White space is skipped up to the next other character. -/
theorem ws_ready {space : α → Bool} {w : List α} (hw : ∀ x ∈ w, space x = true)
    (hc : space c = false) :
    (ready b (w ++ c :: r)).ws space = ready (w.reverse ++ b) (c :: r) := by
  have htake : (w ++ c :: r).takeWhile space = w := by
    rw [List.takeWhile_append_of_pos hw, List.takeWhile_cons_of_neg (by simp [hc]), List.append_nil]
  simp only [ws, good_ready, if_true, rest_ready, htake, advance_ready]
  rfl

/-- Back to an earlier position. -/
theorem seekg_clear {x : List α} (hs : s.before.reverse ++ s.rest = b.reverse ++ x) :
    s.clear.seekg (some b.length) = ready b x := by
  have hle : b.length ≤ (s.before.reverse ++ s.rest).length := by
    rw [hs, List.length_append, List.length_reverse]
    omega
  have htake : (b.reverse ++ x).take b.length = b.reverse := by
    rw [← List.length_reverse, List.take_left]
  have hdrop : (b.reverse ++ x).drop b.length = x := by
    rw [← List.length_reverse, List.drop_left]
  calc s.clear.seekg (some b.length)
      = ready (((s.before.reverse ++ s.rest).take b.length).reverse)
          ((s.before.reverse ++ s.rest).drop b.length) := if_pos hle
    _ = ready b x := by rw [hs, htake, hdrop, List.reverse_reverse]

/-- A conversion that takes the characters `x`. If that is all there is, the end is seen. -/
theorem extract_ready {β : Type*} {space : α → Bool} {scan : List α → Nat × Option β} {x : List α}
    {v : β} (hc : ∀ c ∈ x.head?, space c = false) (hx : x ≠ [])
    (hscan : scan (x ++ r) = (x.length, some v)) :
    (ready b (x ++ r)).extract space scan =
      (some v, { ready (x.reverse ++ b) r with eofbit := r.isEmpty }) := by
  obtain ⟨c, x, rfl⟩ := List.exists_cons_of_ne_nil hx
  have hws : (ready b (c :: x ++ r)).ws space = ready b (c :: x ++ r) :=
    ws_ready (w := []) (fun _ h => nomatch h) (hc c rfl)
  have hend : decide ((c :: x ++ r).length ≤ (c :: x).length) = r.isEmpty := by
    cases r with
    | nil => simp
    | cons d r => simp
  simp only [extract, hws, good_ready, if_true, rest_ready, hscan, advance_ready, hend]

/-- One that fails. -/
theorem fail_extract_ready {β : Type*} {space : α → Bool} {scan : List α → Nat × Option β}
    (hc : space c = false) (hscan : (scan (c :: r)).2 = none) :
    ((ready b (c :: r)).extract space scan).2.fail = true := by
  have hws : (ready b (c :: r)).ws space = ready b (c :: r) :=
    ws_ready (w := []) (fun _ h => nomatch h) hc
  simp only [extract, hws, good_ready, if_true, rest_ready, hscan]
  rfl

/-! ### What is left to read -/

theorem eq_ready (h : s.good = true) : s = ready s.before s.rest := by
  obtain ⟨before, rest, eofbit, failbit, badbit⟩ := s
  simp only [good, Bool.and_eq_true, Bool.not_eq_true'] at h
  obtain ⟨⟨rfl, rfl⟩, rfl⟩ := h
  rfl

/-- The characters that are left, and one more for finding out that there is none. -/
def budget (s : IStream α) : Nat := s.rest.length + if s.fail then 0 else 1

@[simp] theorem budget_ready : (ready b r).budget = r.length + 1 := rfl

theorem budget_le_of {t : IStream α} {n : Nat} (hrest : t.rest.length ≤ s.rest.length + n)
    (hfail : s.fail = true → t.fail = true) : t.budget ≤ s.budget + n := by
  unfold budget
  by_cases h : s.fail = true
  · rw [if_pos h, if_pos (hfail h)]
    exact hrest
  · rw [if_neg h]
    split <;> omega

/-- No more is left to read than before, and what had failed still has. -/
structure After (t s : IStream α) : Prop where
  rest_le : t.rest.length ≤ s.rest.length
  fail_of : s.fail = true → t.fail = true

namespace After

variable {t u : IStream α}

theorem refl (s : IStream α) : s.After s := ⟨le_rfl, id⟩

theorem trans (h : u.After t) (h' : t.After s) : u.After s :=
  ⟨h.rest_le.trans h'.rest_le, h.fail_of ∘ h'.fail_of⟩

theorem budget_le (h : t.After s) : t.budget ≤ s.budget := budget_le_of (n := 0) h.rest_le h.fail_of

/-- From a stream in state `goodbit`. -/
theorem of_good (h : s.good = true) (hrest : t.rest.length ≤ s.rest.length) : t.After s := by
  refine ⟨hrest, fun hfail => ?_⟩
  rw [eq_ready h, fail_ready] at hfail
  exact absurd hfail Bool.false_ne_true

/-- With `failbit`. -/
theorem setFail (hrest : t.rest.length ≤ s.rest.length) : { t with failbit := true }.After s :=
  ⟨hrest, fun _ => Bool.true_or _⟩

end After

/-- Reading from a good stream lowers the budget, also at the end of the text. -/
theorem budget_get_lt (ch : α) (h : s.good = true) : (s.get ch).2.budget < s.budget := by
  rw [eq_ready h]
  cases s.rest with
  | nil => exact Nat.zero_lt_one
  | cons c r => simp

theorem after_get (ch : α) (s : IStream α) : (s.get ch).2.After s := by
  by_cases h : s.good = true
  · refine .of_good h ?_
    rw [eq_ready h]
    cases s.rest with
    | nil => exact le_rfl
    | cons c r => exact Nat.le_succ _
  · rw [get, if_neg h]
    exact .setFail le_rfl

/-- What was read was there, unless the stream is at its end now. -/
theorem rest_get_lt (ch : α) (h : s.good = true) (h' : (s.get ch).2.good = true) :
    (s.get ch).2.rest.length < s.rest.length := by
  rw [eq_ready h] at h' ⊢
  cases hrest : s.rest with
  | nil =>
      rw [hrest] at h'
      exact absurd h' Bool.false_ne_true
  | cons c r => exact Nat.lt_succ_self _

theorem after_peek (s : IStream α) : s.peek.2.After s := by
  by_cases h : s.good = true
  · refine .of_good h ?_
    rw [eq_ready h]
    cases s.rest <;> exact le_rfl
  · rw [peek, if_neg h]
    exact .setFail le_rfl

theorem after_ws (space : α → Bool) (s : IStream α) : (s.ws space).After s := by
  rw [ws]
  split
  · exact ⟨by simp [advance], id⟩
  · exact .setFail le_rfl

/-- Putting one character back. -/
theorem budget_putback_le [DecidableEq α] (c : α) (s : IStream α) :
    (s.putback c).budget ≤ s.budget + 1 := by
  have hfail {t : IStream α} (h : s.fail = true) (ht : t.failbit = s.failbit)
      (ht' : t.badbit = s.badbit) : t.fail = true := by
    rw [fail, ht, ht']
    exact h
  simp only [putback]
  split
  · split
    · split
      · exact budget_le_of (by simp) (fun h => hfail h rfl rfl)
      · exact budget_le_of (Nat.le_succ _) fun _ => by simp [fail]
    · exact budget_le_of (Nat.le_succ _) fun _ => by simp [fail]
  · exact budget_le_of (Nat.le_succ _) fun _ => Bool.true_or _

theorem rest_putback_le [DecidableEq α] (c : α) (s : IStream α) :
    (s.putback c).rest.length ≤ s.rest.length + 1 := by
  simp only [putback]
  split
  · split
    · split
      · exact le_rfl
      · exact Nat.le_succ _
    · exact Nat.le_succ _
  · exact Nat.le_succ _

/-- A character that was just read, put back. -/
theorem after_putback_get [DecidableEq α] (ch c : α) (h : s.good = true) :
    ((s.get ch).2.putback c).After s := by
  refine .of_good h ?_
  rw [eq_ready h]
  cases s.rest with
  | nil => exact Nat.le_refl 0
  | cons d r =>
      by_cases hd : d = c
      · subst hd
        rw [get_ready, putback_ready]
      · have hput : (ready (d :: s.before) r).putback c =
            { ready (d :: s.before) r with badbit := true } := if_neg hd
        rw [get_ready, hput]
        exact Nat.le_succ _

section Extract

variable {β : Type*} (space : α → Bool) (scan : List α → Nat × Option β)

theorem after_extract (s : IStream α) : (s.extract space scan).2.After s := by
  refine After.trans ?_ (after_ws space s)
  simp only [extract]
  split
  · split
    · exact ⟨by simp [advance], id⟩
    · exact ⟨by simp [advance], fun _ => Bool.true_or _⟩
  · exact .setFail le_rfl

/-- A conversion moves on in the text. -/
theorem text_extract (s : IStream α) :
    (s.extract space scan).2.before.reverse ++ (s.extract space scan).2.rest =
      s.before.reverse ++ s.rest := by
  have hadvance (n : Nat) (s : IStream α) :
      (s.advance n).before.reverse ++ (s.advance n).rest = s.before.reverse ++ s.rest := by
    simp [advance]
  have hws : (s.ws space).before.reverse ++ (s.ws space).rest = s.before.reverse ++ s.rest := by
    rw [ws]
    split
    · exact hadvance _ s
    · rfl
  rw [← hws]
  simp only [extract]
  split
  · split
    · exact hadvance _ (s.ws space)
    · exact hadvance _ (s.ws space)
  · rfl

/-- The position before a conversion is found again. -/
theorem seekg_extract (b r : List α) :
    ((ready b r).extract space scan).2.clear.seekg (some b.length) = ready b r :=
  seekg_clear (text_extract space scan (ready b r))

end Extract

/-- Without a position to go back to the stream fails. -/
theorem after_seekg_none (s : IStream α) : (s.clear.seekg none).After s := .setFail le_rfl

end IStream

end Lib
