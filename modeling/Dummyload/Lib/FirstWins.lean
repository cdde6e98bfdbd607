import Mathlib.Data.List.Nodup
import Mathlib.Data.List.Perm.Subperm
import Mathlib.Tactic.Common

/-!
# Dummyload.Lib.FirstWins

Tables in which the **first entry of a key stays**: an entry is made only where the key
has none, and nothing is removed. A table is a partial function.

The question answered here is when such a table, after more entries, shows exactly a
given list of rows with distinct keys (`isTable_enterAll_iff`): when it showed nothing
else before, and all rows that were not entered now.
-/

namespace Lib.FirstWins

variable {κ β : Type*}

/-- The table shows exactly these rows. -/
def IsTable (f : κ → Option β) (rows : List (κ × β)) : Prop := ∀ k b, f k = some b ↔ (k, b) ∈ rows

theorem isTable_empty : IsTable (fun _ => none) ([] : List (κ × β)) := by
  intro k b
  simp

/-- Rows determine the table. -/
theorem IsTable.unique {f g : κ → Option β} {rows : List (κ × β)} (hf : IsTable f rows)
    (hg : IsTable g rows) : f = g := by
  funext k
  exact Option.ext fun b => (hf k b).trans (hg k b).symm

/-- Up to their order the table determines the rows. -/
theorem IsTable.perm {f : κ → Option β} {rows rows' : List (κ × β)}
    (h : IsTable f rows) (h' : IsTable f rows') (hnodup : rows.Nodup) (hnodup' : rows'.Nodup) :
    rows.Perm rows' :=
  (List.perm_ext_iff_of_nodup hnodup hnodup').mpr fun r => (h r.1 r.2).symm.trans (h' r.1 r.2)

/-- No other table shows as many of the rows. -/
theorem IsTable.of_length_eq {f : κ → Option β} {rows rows' : List (κ × β)}
    (h : IsTable f rows) (hnodup : rows.Nodup) (hlength : rows.length = rows'.length)
    (hsub : ∀ k b, f k = some b → (k, b) ∈ rows') : IsTable f rows' := by
  have hsubset : rows ⊆ rows' := fun r hr => hsub r.1 r.2 ((h r.1 r.2).mpr hr)
  have hperm := (hnodup.subperm hsubset).perm_of_length_le (Nat.le_of_eq hlength.symm)
  exact fun k b => (h k b).trans hperm.mem_iff

/-- Rows with one key are one row. -/
theorem eq_of_mem_of_nodup {rows : List (κ × β)} (hnodup : (rows.map Prod.fst).Nodup) {k : κ}
    {b c : β} (hb : (k, b) ∈ rows) (hc : (k, c) ∈ rows) : b = c :=
  (Prod.mk.inj (List.inj_on_of_nodup_map hnodup hb hc rfl)).2

variable [DecidableEq κ]

/-- The entry is made if the key has none. -/
def enter (f : κ → Option β) (row : κ × β) : κ → Option β :=
  fun k => (f k).or (if k = row.1 then some row.2 else none)

def enterAll (f : κ → Option β) (rows : List (κ × β)) : κ → Option β := rows.foldl enter f

@[simp] theorem enterAll_cons (f : κ → Option β) (row : κ × β) (rows : List (κ × β)) :
    enterAll f (row :: rows) = enterAll (enter f row) rows := rfl

/-- Where the key has an entry nothing changes. -/
theorem enter_of_some {f : κ → Option β} {row : κ × β} {b : β} (h : f row.1 = some b) :
    enter f row = f := by
  funext k
  rw [enter]
  split
  · rename_i hk
    rw [hk, h, Option.some_or]
  · exact Option.or_none

theorem enter_of_none {f : κ → Option β} {row : κ × β} (h : f row.1 = none) :
    enter f row = Function.update f row.1 (some row.2) := by
  funext k
  rw [enter, Function.update_apply]
  split
  · rename_i hk
    rw [hk, h, Option.none_or]
  · exact Option.or_none

section Lookup

variable {f : κ → Option β} {rows : List (κ × β)} {k : κ} {b : β}

/-- Entries stay as they are. -/
theorem enterAll_of_some (h : f k = some b) : enterAll f rows k = some b := by
  induction rows generalizing f with
  | nil => exact h
  | cons row rows ih => exact ih (by rw [enter, h, Option.some_or])

/-- An entry is an old one or one of the rows. -/
theorem enterAll_eq_some (h : enterAll f rows k = some b) : f k = some b ∨ (k, b) ∈ rows := by
  induction rows generalizing f with
  | nil => exact .inl h
  | cons row rows ih =>
      rcases ih h with hentered | hmem
      · rw [enter, Option.or_eq_some_iff] at hentered
        rcases hentered with hold | ⟨-, hnew⟩
        · exact .inl hold
        · split at hnew
          · rename_i hk
            obtain rfl := Option.some.inj hnew
            exact .inr (by rw [hk]; exact List.mem_cons_self)
          · cases hnew
      · exact .inr (List.mem_cons_of_mem _ hmem)

/-- A row has an entry for its key. -/
theorem enterAll_isSome (h : (k, b) ∈ rows) : (enterAll f rows k).isSome := by
  induction rows generalizing f with
  | nil => exact absurd h List.not_mem_nil
  | cons row rows ih =>
      rcases List.mem_cons.mp h with rfl | hmem
      · have hentered : (enter f (k, b) k).isSome := by
          cases hk : f k with
          | none => simp [enter, hk]
          | some c => simp [enter, hk]
        obtain ⟨c, hc⟩ := Option.isSome_iff_exists.mp hentered
        rw [enterAll_cons, enterAll_of_some hc, Option.isSome_some]
      · exact ih hmem

end Lookup

/-- **When the table shows the rows.** Only `part` of them is entered: the table then shows
`rows` iff it had nothing but rows before, and had an entry for each row that is not in
the part. -/
theorem isTable_enterAll_iff {f : κ → Option β} {rows part : List (κ × β)}
    (hnodup : (rows.map Prod.fst).Nodup) (hpart : part ⊆ rows) :
    IsTable (enterAll f part) rows ↔
      (∀ k b, f k = some b → (k, b) ∈ rows) ∧ ∀ r ∈ rows, r ∉ part → (f r.1).isSome := by
  constructor
  · intro h
    refine ⟨fun k b hk => (h k b).mp (enterAll_of_some hk), ?_⟩
    rintro ⟨k, b⟩ hr hout
    rcases enterAll_eq_some ((h k b).mpr hr) with hold | hin
    · exact Option.isSome_iff_exists.mpr ⟨b, hold⟩
    · exact absurd hin hout
  · rintro ⟨hkeeps, hrest⟩ k b
    constructor
    · intro hk
      rcases enterAll_eq_some hk with hold | hin
      · exact hkeeps k b hold
      · exact hpart hin
    · intro hr
      have hsome : (enterAll f part k).isSome := by
        by_cases hin : (k, b) ∈ part
        · exact enterAll_isSome hin
        · obtain ⟨c, hc⟩ := Option.isSome_iff_exists.mp (hrest (k, b) hr hin)
          exact Option.isSome_iff_exists.mpr ⟨c, enterAll_of_some hc⟩
      obtain ⟨c, hc⟩ := Option.isSome_iff_exists.mp hsome
      have hmem : (k, c) ∈ rows := by
        rcases enterAll_eq_some hc with hold | hin
        · exact hkeeps k c hold
        · exact hpart hin
      rw [hc, eq_of_mem_of_nodup hnodup hmem hr]

end Lib.FirstWins
