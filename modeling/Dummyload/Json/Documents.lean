import Dummyload.Json.RoundTrip

/-!
# Dummyload.Json.Documents

`validate` and `reformat` as a whole. Both return, for every text. What is accepted is reformatted
to strict JSON, which is read as the same value, its numbers rounded to 19 digits;
reformatting once more then changes nothing if the numbers are whole.
-/

namespace Dummyload.Json

variable {v : Value} {vs : List Value} {m : Object} {w t text : Bytes}

/-! ### Whole numbers -/

/-- All numbers are integers of at most 19 digits, and no key is empty. -/
abbrev Whole (v : Value) : Prop :=
  All (fun n => ∃ k : ℤ, n.value = k ∧ |k| < 10 ^ 19) (· ≠ []) (fun _ => True) v

section Number

variable {n : LongDouble} {k : ℤ}

theorem rounded_of_intCast (h : n.value = k) (hk : |k| < 10 ^ 19) : n.rounded 19 = n := by
  cases n with
  | rat x =>
      obtain rfl : x = k := h
      have hlt : |k| < 2 ^ 64 := hk.trans (by norm_num)
      have hkeep : longDouble (toPrecision (max 19 1) k) = k := by
        rw [show max 19 1 = 18 + 1 from rfl, toPrecision_intCast hk, longDouble_intCast hlt]
      rw [LongDouble.rounded, hkeep, LongDouble.signed, if_neg]
      rintro ⟨hneg, hzero⟩
      exact (of_decide_eq_true hneg).ne hzero
  | negZero => rfl

theorem inRange_of_intCast (h : n.value = k) (hk : |k| < 10 ^ 19) : InRange 19 n := by
  refine inRange_of_abs_le ?_
  have hle : |k| ≤ 2 ^ 64 := hk.le.trans (by norm_num)
  rw [h]
  exact_mod_cast hle

end Number

theorem Whole.writable (h : Whole v) : Writable v := by
  induction h with
  | number hn =>
      obtain ⟨k, hvalue, hk⟩ := hn
      exact .number (inRange_of_intCast hvalue hk)
  | string h => exact .string h
  | boolean b => exact .boolean b
  | null => exact .null
  | array _ ih => exact .array ih
  | object hkeys _ ih => exact .object hkeys ih

theorem roundedElements_of_forall {p : Nat} (h : ∀ v ∈ vs, v.rounded p = v) :
    roundedElements p vs = vs := by
  induction vs with
  | nil => rfl
  | cons v vs ih =>
      rw [roundedElements, h v List.mem_cons_self, ih fun v hv => h v (List.mem_cons_of_mem _ hv)]

theorem roundedMembers_of_forall {p : Nat} (h : ∀ kv ∈ m, kv.2.rounded p = kv.2) :
    roundedMembers p m = m := by
  induction m with
  | nil => rfl
  | cons kv m ih =>
      have hkv := h kv List.mem_cons_self
      obtain ⟨key, v⟩ := kv
      rw [roundedMembers, hkv, ih fun kv hkv => h kv (List.mem_cons_of_mem _ hkv)]

/-- Nothing is lost of whole numbers. -/
theorem Whole.rounded (h : Whole v) : v.rounded 19 = v := by
  induction h with
  | number hn =>
      obtain ⟨k, hvalue, hk⟩ := hn
      rw [Value.rounded, rounded_of_intCast hvalue hk]
  | string => rfl
  | boolean => rfl
  | null => rfl
  | array _ ih => rw [Value.rounded, roundedElements_of_forall ih]
  | object _ _ ih => rw [Value.rounded, roundedMembers_of_forall ih]

/-! ### The text of a document -/

theorem Value.isDocument.rounded (h : v.isDocument) (p : Nat) : (v.rounded p).isDocument := by
  cases v <;> first | exact trivial | exact absurd h id

/-- What `json()` writes is read as the value, whatever stands behind it. -/
theorem parseDocument_json_append (hv : Proper v) (h : Writable v) (hdoc : v.isDocument)
    (r : Bytes) : parseDocument (v.json ++ r) = some (some (v.rounded 19)) := by
  obtain ⟨t, htext, hdenotes⟩ := json_denotes hv h hdoc
  have hread := parseDocument_text (w := []) (fun _ hc => nomatch hc) hdenotes (hdoc.rounded 19)
    (ascii " \n" ++ r)
  rwa [List.nil_append, ← List.append_assoc, ← htext] at hread

theorem length_removeLastComma (x : Bytes) : (removeLastComma x).length = x.length := by
  rw [removeLastComma]
  split
  · exact List.length_set
  · rfl

theorem json_ne_nil (hdoc : v.isDocument) : v.json ≠ [] := by
  have hlast : (0 : Nat) < (ascii ",\n").length := by decide
  apply List.ne_nil_of_length_pos
  cases v with
  | array vs =>
      rw [Value.json, Array.json, length_removeLastComma, tag, List.length_append]
      omega
  | object m =>
      rw [Value.json, Object.json, length_removeLastComma, tag, List.length_append]
      omega
  | _ => exact absurd hdoc id

/-! ### `validate` and `reformat` -/

theorem whole_sample : Whole (.array [.number (.rat (-25)), .string (ascii "a")]) := by
  refine .array fun v hv => ?_
  rcases List.mem_pair.mp hv with rfl | rfl
  · exact .number ⟨-25, by norm_num [LongDouble.value], by norm_num⟩
  · exact .string trivial

theorem proper_sample : Proper (.array [.number (.rat (-25)), .string (ascii "a")]) := by
  refine .array fun v hv => ?_
  rcases List.mem_pair.mp hv with rfl | rfl
  · exact .number (.rat (-25))
  · exact .string (ascii "a")

theorem denotes_sample :
    Denotes (ascii "[-2.50e+1, \"a\"]") (.array [.number (.rat (-25)), .string (ascii "a")]) := by
  let l : Literal := ⟨ascii "2", ascii "50", some ⟨false, some false, ascii "1", by decide,
    by decide +kernel⟩, by decide, by decide, by decide +kernel, by decide +kernel⟩
  have hl : l.value = ((25 : ℕ) : ℚ) := by
    have hdigits : decimal (l.int ++ l.frac) = 250 := by decide
    have hexp : l.exp.elim 0 Exponent.value - l.frac.length = (-1 : ℤ) := by decide
    rw [Literal.value, hdigits, hexp]
    norm_num
  have hn : toLongDouble true l.value = some (.rat (-25)) := by
    rw [hl, toLongDouble_natCast true (by norm_num)]
    norm_num [LongDouble.signed]
  have hnumber := Denotes.number true l hn
  have hstring := Denotes.string (.raw (c := chr 'a') (by decide) (by decide) (by decide) .nil)
  have harray := Denotes.array blank_nil (Elements.cons hnumber blank_nil blank_space
    (.last hstring blank_nil))
  exact harray

theorem validate_eq {x : Option Value} (h : parseDocument text = some x) :
    validate text = some x.isSome ∧ reformat text = some (x.elim [] Value.json) := by
  rw [validate, reformat, h]
  exact ⟨rfl, rfl⟩

/-- Strict JSON is accepted and read as what it means. -/
theorem validate_denotes (hw : ∀ c ∈ w, c ≤ 32) (h : Denotes t v) (hv : v.isDocument) (r : Bytes) :
    parseDocument (w ++ (t ++ r)) = some (some v) ∧ validate (w ++ (t ++ r)) = some true ∧
      reformat (w ++ (t ++ r)) = some v.json := by
  have hread := parseDocument_text hw h hv r
  exact ⟨hread, validate_eq hread⟩

theorem validate_denotes_sample :
    validate (ascii "\r\n" ++ (ascii "[-2.50e+1, \"a\"]" ++ ascii "\x7d")) = some true := by
  have hw : ∀ c ∈ ascii "\r\n", c ≤ 32 := by decide +kernel
  exact (validate_denotes hw denotes_sample trivial _).2.1

/-- Both return, and `reformat` returns the empty string for what `validate` rejects only. -/
theorem validate_returns (text : Bytes) : ∃ (b : Bool) (out : Bytes),
    validate text = some b ∧ reformat text = some out ∧ (b = true ↔ out ≠ []) := by
  obtain ⟨x, hx, hproper⟩ := parseDocument_returns text
  obtain ⟨hvalidate, hreformat⟩ := validate_eq hx
  refine ⟨x.isSome, x.elim [] Value.json, hvalidate, hreformat, ?_⟩
  cases x with
  | none => simp
  | some v => simpa using json_ne_nil (hproper v rfl).2

/-- What `json()` writes is read back, whole numbers as they were. -/
theorem parseDocument_json (hv : Proper v) (h : Writable v) (hdoc : v.isDocument) :
    parseDocument v.json = some (some (v.rounded 19)) ∧ (Whole v → v.rounded 19 = v) := by
  have hread := parseDocument_json_append hv h hdoc []
  rw [List.append_nil] at hread
  exact ⟨hread, Whole.rounded⟩

theorem parseDocument_json_sample :
    parseDocument
        (Value.json (.object [(ascii "k", .array [.number (.rat (-25)), .string (ascii "a")])])) =
      some (some (.object [(ascii "k", .array [.number (.rat (-25)), .string (ascii "a")])])) := by
  have hwhole : Whole (.object [(ascii "k", .array [.number (.rat (-25)), .string (ascii "a")])]) :=
    .object (by decide) fun kv hkv => List.mem_singleton.mp hkv ▸ whole_sample
  have hproper :
      Proper (.object [(ascii "k", .array [.number (.rat (-25)), .string (ascii "a")])]) :=
    .object (List.pairwise_singleton _ _) fun kv hkv => List.mem_singleton.mp hkv ▸ proper_sample
  obtain ⟨hread, hexact⟩ := parseDocument_json hproper hwhole.writable trivial
  rw [hread, hexact hwhole]

end Dummyload.Json
