import Mathlib.Data.List.Infix
import Mathlib.Tactic.Common

/-!
# Dummyload.Lib.Lines

Sequences cut into **lines** by a separator of several symbols (CRLF).

`search` is the left-to-right search for a pattern that `std::search` performs:
it answers the index of the first occurrence, or the length when there is none.
A sequence is `Clear` of a separator when the first separator of the sequence
*followed by* a separator is that last one; every such line is found whole by
`search` (`search_line`), and every sequence is, in exactly one way, a list of
clear lines and an unfinished rest (`scan`). `scan` also stops at the first
line that fails a test, which is how a header section ends.
-/

namespace Lib.Lines

variable {α : Type*}

/-- No separator occurs in `line`, nor across its end once a separator
follows it. -/
def Clear (sep line : List α) : Prop := ¬ sep <:+: line ++ sep.dropLast

/-- The lines, each followed by the separator. -/
def unlines (sep : List α) (ls : List (List α)) : List α := ls.flatMap (· ++ sep)

@[simp] theorem unlines_nil (sep : List α) : unlines sep [] = [] := rfl

@[simp] theorem unlines_cons (sep l : List α) (ls : List (List α)) :
    unlines sep (l :: ls) = l ++ sep ++ unlines sep ls := rfl

@[simp] theorem unlines_append (sep : List α) (ls ms : List (List α)) :
    unlines sep (ls ++ ms) = unlines sep ls ++ unlines sep ms := by
  simp [unlines]

theorem length_le_unlines {sep : List α} (hsep : sep ≠ []) (ls : List (List α)) :
    ls.length ≤ (unlines sep ls).length := by
  have hpos := List.length_pos_of_ne_nil hsep
  induction ls with
  | nil => exact Nat.zero_le _
  | cons l ls ih =>
      rw [unlines_cons, List.length_append, List.length_append, List.length_cons]
      omega

theorem Clear.not_infix {sep line : List α} (h : Clear sep line) : ¬ sep <:+: line :=
  fun hin => h (hin.trans (List.prefix_append line _).isInfix)

theorem append_dropLast_isPrefix (line sep rest : List α) :
    line ++ sep.dropLast <+: line ++ sep ++ rest := by
  rw [List.append_assoc]
  exact (List.prefix_append_right_inj line).mpr
    ((List.dropLast_prefix sep).trans (List.prefix_append sep rest))

/-! ### Prefixes -/

/-- `part` is the beginning of `line`, or of its separator, and not yet all. -/
structure Unfinished (sep line part : List α) : Prop where
  isPrefix : part <+: line ++ sep
  lt : part.length < line.length + sep.length

/-- A prefix of lines and a rest ends within a line or within the rest. -/
theorem prefix_unlines {sep : List α} {ls : List (List α)} {p x rest : List α}
    (h : p ++ x = unlines sep ls ++ rest) :
    (∃ done line later part, ls = done ++ line :: later ∧ p = unlines sep done ++ part ∧
        Unfinished sep line part) ∨
      ∃ q, p = unlines sep ls ++ q ∧ q ++ x = rest := by
  induction ls generalizing p with
  | nil => exact Or.inr ⟨p, rfl, h⟩
  | cons l ls ih =>
      have hpx : p <+: l ++ sep ++ (unlines sep ls ++ rest) := ⟨x, by simpa using h⟩
      have hl : l ++ sep <+: l ++ sep ++ (unlines sep ls ++ rest) := List.prefix_append _ _
      by_cases hlt : p.length < l.length + sep.length
      · refine Or.inl ⟨[], l, ls, p, rfl, rfl, ?_, hlt⟩
        exact List.prefix_of_prefix_length_le hpx hl (by rw [List.length_append]; omega)
      · obtain ⟨p, rfl⟩ := List.prefix_of_prefix_length_le hl hpx
          (by rw [List.length_append]; omega)
        have htail : p ++ x = unlines sep ls ++ rest := by simpa using h
        rcases ih htail with ⟨done, line, later, part, rfl, rfl, hpart⟩ | ⟨q, rfl, hq⟩
        · exact Or.inl ⟨l :: done, line, later, part, rfl, by simp, hpart⟩
        · exact Or.inr ⟨q, by simp, hq⟩

/-- The beginning of a clear line contains no separator. -/
theorem Unfinished.not_infix {sep line part : List α} (h : Unfinished sep line part)
    (hc : Clear sep line) : ¬ sep <:+: part := by
  intro hin
  have hpre : part <+: line ++ sep.dropLast := by
    refine List.prefix_of_prefix_length_le h.isPrefix ?_ ?_
    · exact (List.prefix_append_right_inj line).mpr (List.dropLast_prefix sep)
    · have := h.lt
      rw [List.length_append, List.length_dropLast]
      omega
  exact hc (hin.trans hpre.isInfix)

/-! ### Separators of two symbols -/

/-- A pair occurs in an append iff it occurs in one of the parts or across the
joint. -/
theorem pair_infix_append {a b : α} {l m : List α} :
    [a, b] <:+: l ++ m ↔
      [a, b] <:+: l ∨ [a, b] <:+: m ∨ (l.getLast? = some a ∧ m.head? = some b) := by
  induction l with
  | nil => simp
  | cons c l ih =>
      rw [List.cons_append, List.infix_cons_iff, List.infix_cons_iff, ih]
      cases l with
      | nil =>
          cases m with
          | nil => simp
          | cons d m =>
              simp only [List.nil_append, List.cons_prefix_cons, List.infix_nil, List.prefix_nil,
                List.nil_prefix, and_true, List.getLast?_nil, List.getLast?_singleton,
                List.head?_cons, reduceCtorEq, false_and, or_false, false_or, Option.some.injEq,
                and_false, List.cons_ne_nil, eq_comm (a := a), eq_comm (a := b)]
              tauto
      | cons d l =>
          simp only [List.cons_append, List.cons_prefix_cons, List.nil_prefix, and_true,
            List.getLast?_cons_cons]
          tauto

/-- For a separator of two different symbols, a line is clear when the
separator does not occur in it. -/
theorem clear_pair_iff {a b : α} (hab : a ≠ b) {l : List α} :
    Clear [a, b] l ↔ ¬ [a, b] <:+: l := by
  have hlen : ¬ [a, b] <:+: [a] := fun h => by simpa using h.length_le
  rw [Clear, List.dropLast_cons_cons, List.dropLast_singleton, pair_infix_append]
  simp [hlen, hab]

section Search

variable [DecidableEq α]

instance (sep line : List α) : Decidable (Clear sep line) :=
  inferInstanceAs (Decidable (¬ sep <:+: line ++ sep.dropLast))

/-- The index of the first occurrence of `pat`, or the length. -/
def search (pat : List α) : List α → Nat
  | [] => 0
  | a :: l => if pat.isPrefixOf (a :: l) then 0 else search pat l + 1

/-- The search runs to the end exactly when the pattern does not occur. -/
theorem search_eq_length_iff {pat : List α} (hpat : pat ≠ []) (l : List α) :
    search pat l = l.length ↔ ¬ pat <:+: l := by
  induction l with
  | nil => simp [search, hpat]
  | cons a l ih =>
      rw [search, List.infix_cons_iff, not_or]
      by_cases h : pat <+: a :: l
      · simp [h, List.isPrefixOf_iff_prefix.mpr h]
      · have h' : pat.isPrefixOf (a :: l) = false := by
          rw [Bool.eq_false_iff, ne_eq, List.isPrefixOf_iff_prefix]
          exact h
        simp [h, h', ih]

/-- A clear line followed by the separator is found whole. -/
theorem search_line {sep line : List α} (h : Clear sep line) (rest : List α) :
    search sep (line ++ sep ++ rest) = line.length := by
  induction line with
  | nil =>
      cases sep with
      | nil => cases rest <;> simp [search]
      | cons b sep => simp [search]
  | cons a line ih =>
      have hline : Clear sep line := fun hin => h (by
        rw [List.cons_append]; exact List.infix_cons hin)
      have hpre : sep.isPrefixOf (a :: line ++ sep ++ rest) = false := by
        rw [Bool.eq_false_iff, ne_eq, List.isPrefixOf_iff_prefix]
        intro hp
        have hp' : sep <+: (a :: line) ++ sep.dropLast :=
          List.prefix_of_prefix_length_le hp (append_dropLast_isPrefix _ _ _) (by simp; omega)
        exact h hp'.isInfix
      rw [List.cons_append, List.cons_append] at hpre ⊢
      rw [search, hpre, if_neg Bool.false_ne_true, ih hline, List.length_cons]

/-- The pattern found by `search`: the sequence splits there, and the part
before it is clear. -/
theorem exists_line {sep l : List α} (hsep : sep ≠ []) (h : sep <:+: l) :
    ∃ line rest, l = line ++ sep ++ rest ∧ Clear sep line := by
  induction l with
  | nil => exact absurd (List.infix_nil.mp h) hsep
  | cons a l ih =>
      by_cases hp : sep <+: a :: l
      · obtain ⟨rest, hrest⟩ := hp
        refine ⟨[], rest, by simpa using hrest.symm, ?_⟩
        intro hin
        have hlen := hin.length_le
        have hpos := List.length_pos_of_ne_nil hsep
        simp only [List.nil_append, List.length_dropLast] at hlen
        omega
      · obtain ⟨line, rest, rfl, hline⟩ := ih ((List.infix_cons_iff.mp h).resolve_left hp)
        refine ⟨a :: line, rest, by simp, fun hin => ?_⟩
        rw [List.cons_append, List.infix_cons_iff] at hin
        rcases hin with hin | hin
        · exact hp (hin.trans (append_dropLast_isPrefix (a :: line) sep rest))
        · exact hline hin

/-- The first line of a sequence is unique. -/
theorem line_unique {sep line line' rest rest' : List α} (h : Clear sep line)
    (h' : Clear sep line') (heq : line ++ sep ++ rest = line' ++ sep ++ rest') :
    line = line' ∧ rest = rest' := by
  have hlen : line.length = line'.length := by
    rw [← search_line h rest, heq, search_line h' rest']
  rw [List.append_assoc, List.append_assoc] at heq
  obtain ⟨hl, hr⟩ := List.append_inj heq hlen
  exact ⟨hl, List.append_cancel_left hr⟩

/-! ### Scanning lines up to the first that fails a test -/

/-- Every sequence is either lines that pass `p` and an unfinished rest, or
lines that pass `p`, a line that does not, and whatever follows. -/
theorem scan {sep : List α} (hsep : sep ≠ []) (p : List α → Bool) (l : List α) :
    (∃ ls part, l = unlines sep ls ++ part ∧ (∀ x ∈ ls, p x = true ∧ Clear sep x) ∧
        ¬ sep <:+: part) ∨
      ∃ ls last rest, l = unlines sep ls ++ (last ++ sep ++ rest) ∧
        (∀ x ∈ ls, p x = true ∧ Clear sep x) ∧ p last = false ∧ Clear sep last := by
  induction hn : l.length using Nat.strong_induction_on generalizing l with
  | _ n ih =>
      by_cases h : sep <:+: l
      · obtain ⟨line, rest, rfl, hline⟩ := exists_line hsep h
        by_cases hp : p line = true
        · have hlt : rest.length < n := by
            have := List.length_pos_of_ne_nil hsep
            simp only [List.length_append] at hn
            omega
          rcases ih rest.length hlt rest rfl with
            ⟨ls, part, rfl, hls, hpart⟩ | ⟨ls, last, rest', rfl, hls, hlast⟩
          · refine Or.inl ⟨line :: ls, part, by simp, ?_, hpart⟩
            exact List.forall_mem_cons.mpr ⟨⟨hp, hline⟩, hls⟩
          · refine Or.inr ⟨line :: ls, last, rest', by simp, ?_, hlast⟩
            exact List.forall_mem_cons.mpr ⟨⟨hp, hline⟩, hls⟩
        · exact Or.inr ⟨[], line, rest, by simp, by simp, by simpa using hp, hline⟩
      · exact Or.inl ⟨[], l, by simp, by simp, h⟩

/-- The lines up to the first that fails `p` are determined by the sequence. -/
theorem scan_unique {sep : List α} {p : List α → Bool} :
    ∀ {ls ls' : List (List α)} {last last' rest rest' : List α},
      (∀ x ∈ ls, p x = true ∧ Clear sep x) → (∀ x ∈ ls', p x = true ∧ Clear sep x) →
      p last = false → p last' = false → Clear sep last → Clear sep last' →
      unlines sep ls ++ (last ++ sep ++ rest) = unlines sep ls' ++ (last' ++ sep ++ rest') →
      ls = ls' ∧ last = last' ∧ rest = rest' := by
  intro ls
  induction ls with
  | nil =>
      intro ls' last last' rest rest' _ hls' hp hp' hc hc' heq
      cases ls' with
      | nil => exact ⟨rfl, by simpa using line_unique hc hc' (by simpa using heq)⟩
      | cons m ms =>
          obtain ⟨hm, -⟩ := List.forall_mem_cons.mp hls'
          have heq' : last ++ sep ++ rest =
              m ++ sep ++ (unlines sep ms ++ (last' ++ sep ++ rest')) := by
            simpa using heq
          obtain ⟨rfl, -⟩ := line_unique hc hm.2 heq'
          rw [hm.1] at hp
          cases hp
  | cons l ls ih =>
      intro ls' last last' rest rest' hls hls' hp hp' hc hc' heq
      obtain ⟨hl, hls⟩ := List.forall_mem_cons.mp hls
      cases ls' with
      | nil =>
          have heq' : l ++ sep ++ (unlines sep ls ++ (last ++ sep ++ rest)) =
              last' ++ sep ++ rest' := by
            simpa using heq
          obtain ⟨rfl, -⟩ := line_unique hl.2 hc' heq'
          rw [hl.1] at hp'
          cases hp'
      | cons m ms =>
          obtain ⟨hm, hms⟩ := List.forall_mem_cons.mp hls'
          have heq' : l ++ sep ++ (unlines sep ls ++ (last ++ sep ++ rest)) =
              m ++ sep ++ (unlines sep ms ++ (last' ++ sep ++ rest')) := by simpa using heq
          obtain ⟨rfl, htail⟩ := line_unique hl.2 hm.2 heq'
          obtain ⟨rfl, h⟩ := ih hls hms hp hp' hc hc' htail
          exact ⟨rfl, h⟩

/-! ### Cutting off lines -/

/-- The first line, and what follows its separator. -/
def cutLine (sep l : List α) : Option (List α × List α) :=
  if search sep l = l.length then none
  else some (l.take (search sep l), l.drop (search sep l + sep.length))

/-- The lines up to the first empty one, `fuel` lines at most, and what follows that. -/
def cutBlock (sep : List α) : Nat → List α → Option (List (List α) × List α)
  | 0, _ => none
  | fuel + 1, l =>
    (cutLine sep l).bind fun (line, rest) =>
      if line = [] then some ([], rest)
      else (cutBlock sep fuel rest).map fun (ls, rest) => (line :: ls, rest)

theorem cutLine_line {sep line : List α} (hsep : sep ≠ []) (h : Clear sep line) (rest : List α) :
    cutLine sep (line ++ sep ++ rest) = some (line, rest) := by
  have hpos := List.length_pos_of_ne_nil hsep
  have hlen : (line ++ sep).length = line.length + sep.length := List.length_append
  rw [cutLine, search_line h, if_neg, ← hlen, List.drop_left, List.append_assoc, List.take_left]
  rw [List.length_append, hlen]
  omega

theorem cutBlock_unlines {sep : List α} (hsep : sep ≠ []) {ls : List (List α)}
    (hls : ∀ x ∈ ls, x ≠ [] ∧ Clear sep x) (hnil : Clear sep []) {fuel : Nat}
    (hfuel : ls.length < fuel) (rest : List α) :
    cutBlock sep fuel (unlines sep ls ++ (sep ++ rest)) = some (ls, rest) := by
  induction ls generalizing fuel with
  | nil =>
      obtain ⟨fuel, rfl⟩ : ∃ k, fuel = k + 1 := ⟨fuel - 1, by omega⟩
      have hcut := cutLine_line hsep hnil rest
      rw [List.nil_append] at hcut
      rw [cutBlock, unlines_nil, List.nil_append, hcut, Option.bind_some]
      rfl
  | cons l ls ih =>
      obtain ⟨⟨hne, hl⟩, hls⟩ := List.forall_mem_cons.mp hls
      rw [List.length_cons] at hfuel
      obtain ⟨fuel, rfl⟩ : ∃ k, fuel = k + 1 := ⟨fuel - 1, by omega⟩
      rw [cutBlock, unlines_cons, List.append_assoc, cutLine_line hsep hl, Option.bind_some]
      dsimp only
      rw [if_neg hne, ih hls (by omega)]
      rfl

end Search

end Lib.Lines
