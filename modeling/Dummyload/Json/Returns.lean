import Dummyload.Json.Grammar

/-!
# Dummyload.Json.Returns

What the parser does on any stream, in whatever state: it returns, with calls that go no
deeper than three times what is left to read (`callDepth`), and never gives
characters back that it was not given (`Reads`). The values it makes are `Proper`: the
keys of every object are in order, and nothing in them is without a type.
-/

namespace Dummyload.Json

open Lib.IStream (ready eq_ready budget_get_lt budget_putback_le after_get after_peek after_ws
  after_putback_get)

variable {input : IStream}

/-! ### Tokens -/

theorem budget_foldl_putback_le (cs : Bytes) (input : IStream) :
    (cs.foldl (fun input c => input.putback c) input).budget ≤ input.budget + cs.length := by
  induction cs generalizing input with
  | nil => exact le_rfl
  | cons c cs ih =>
      have hput := budget_putback_le c input
      have hrest := ih (input.putback c)
      rw [List.foldl_cons, List.length_cons]
      omega

theorem rest_foldl_putback_le (cs : Bytes) (input : IStream) :
    (cs.foldl (fun input c => input.putback c) input).rest.length ≤
      input.rest.length + cs.length := by
  induction cs generalizing input with
  | nil => exact le_rfl
  | cons c cs ih =>
      have hput := Lib.IStream.rest_putback_le c input
      have hrest := ih (input.putback c)
      rw [List.foldl_cons, List.length_cons]
      omega

/-- A token that is there is taken; of one that is not, no more is put back than was read. -/
theorem budget_matchFrom (matched pattern : Bytes) (ch : Byte) (input : IStream) :
    (matchFrom matched pattern ch input).2.budget +
        (if (matchFrom matched pattern ch input).1 then pattern.length else 0) ≤
      input.budget + (if (matchFrom matched pattern ch input).1 then 0 else matched.length) := by
  fun_induction matchFrom matched pattern ch input with
  | case1 => simp
  | case2 matched p ps ch input h ch' next hne comment hc ih =>
      have hback := (after_putback_get ch ch' h).budget_le
      have hcomment := (parseComment_spec (next.putback ch')).1.budget_le
      exact ih.trans (Nat.add_le_add_right (hcomment.trans hback) _)
  | case3 matched p ps ch input h ch' next hne comment hc =>
      have hback := (after_putback_get ch ch' h).budget_le
      have hcomment := (parseComment_spec (next.putback ch')).1.budget_le
      have hfold := budget_foldl_putback_le matched comment.2
      simp only [Bool.false_eq_true, if_false]
      exact hfold.trans (Nat.add_le_add_right (hcomment.trans hback) _)
  | case4 matched p ps ch input h ch' next hne ih =>
      have hlt : next.budget < input.budget := budget_get_lt ch h
      simp only [List.length_cons] at ih ⊢
      by_cases hfound : (matchFrom (p :: matched) ps ch' next).1 = true
      · rw [if_pos hfound, if_pos hfound] at ih ⊢
        omega
      · rw [if_neg hfound, if_neg hfound] at ih ⊢
        omega
  | case5 => simp

theorem matchFrom_of_not_good {matched pattern : Bytes} {ch : Byte} (h : ¬ input.good = true) :
    (matchFrom matched pattern ch input).2 = input := by
  rw [matchFrom.eq_def]
  split
  · rfl
  · rw [dif_neg h]

/-- The same for the text: the characters put back were in it. -/
theorem rest_matchFrom (matched pattern : Bytes) (ch : Byte) (input : IStream) :
    (matchFrom matched pattern ch input).2.rest.length ≤ input.rest.length + matched.length := by
  fun_induction matchFrom matched pattern ch input with
  | case1 => exact Nat.le_add_right _ _
  | case2 matched p ps ch input h ch' next hne comment hc ih =>
      have hcomment := (parseComment_spec (next.putback ch')).1.trans (after_putback_get ch ch' h)
      exact ih.trans (Nat.add_le_add_right hcomment.rest_le _)
  | case3 matched p ps ch input h ch' next hne comment hc =>
      have hcomment := (parseComment_spec (next.putback ch')).1.trans (after_putback_get ch ch' h)
      exact (rest_foldl_putback_le matched comment.2).trans
        (Nat.add_le_add_right hcomment.rest_le _)
  | case4 matched p ps ch input h ch' next hne ih =>
      by_cases hgood : next.good = true
      · have hlt : next.rest.length < input.rest.length := Lib.IStream.rest_get_lt ch h hgood
        rw [List.length_cons] at ih
        omega
      · -- at the end of the text `ch` keeps its value, which may be what is looked for
        have hget : next.rest.length ≤ input.rest.length := (after_get ch input).rest_le
        rw [matchFrom_of_not_good hgood]
        omega
  | case5 => exact Nat.le_add_right _ _

theorem after_match (pattern : Bytes) (input : IStream) : (match_ pattern input).2.After input := by
  refine Lib.IStream.After.trans ?_ (after_ws isspace input)
  rw [match_]
  by_cases hgood : input.ws.good = true
  · exact .of_good hgood (rest_matchFrom [] pattern 0 input.ws)
  · rw [matchFrom_of_not_good hgood]
    exact .refl input.ws

theorem budget_match_lt (c : Byte) (input : IStream) (h : (match_ [c] input).1 = true) :
    (match_ [c] input).2.budget < input.budget := by
  have hws := (after_ws isspace input).budget_le
  have hmatch := budget_matchFrom [] [c] 0 input.ws
  rw [match_] at h ⊢
  simp only [h, if_true, List.length_singleton, add_zero] at hmatch
  exact hmatch.trans hws

theorem after_stringLoop (delimiter : Byte) (value : Bytes) (ch : Byte) (input : IStream) :
    (stringLoop delimiter value ch input).2.2.After input := by
  fun_induction stringLoop delimiter value ch input with
  | case1 value ch input h ch' next hend => exact after_get ch input
  | case2 value ch input h ch' next hend hslash escape ih =>
      exact ih.trans ((after_parseEscape delimiter value ch' next).trans (after_get ch input))
  | case3 value ch input h ch' next hend hslash ih => exact ih.trans (after_get ch input)
  | case4 value ch input h => exact .refl input

theorem after_parseString (input : IStream) : (parseString input).2.After input := by
  have hmatch := after_match [chr '"'] input
  have hpeek := after_peek (match_ [chr '"'] input).2
  have hget := after_get 0 (match_ [chr '"'] input).2.peek.2
  simp only [parseString, endString]
  split
  · exact (after_stringLoop ..).trans hmatch
  · split
    · exact (after_stringLoop ..).trans (hget.trans (hpeek.trans hmatch))
    · exact hpeek.trans hmatch

theorem after_parseNumber (input : IStream) : (parseNumber input).2.After input := by
  have hws : (IStream.ws input).After input := after_ws isspace input
  refine Lib.IStream.After.trans ?_ hws
  rw [parseNumber]
  generalize IStream.ws input = i
  by_cases hgood : i.good = true
  · rw [eq_ready hgood]
    by_cases hfail : ((ready i.before i.rest).extract isspace numGet).2.fail = true
    · simp only [Lib.IStream.tellg_ready, hfail, if_true, Lib.IStream.seekg_extract]
      exact .refl _
    · simp only [Lib.IStream.tellg_ready, hfail]
      exact Lib.IStream.after_extract isspace numGet (ready i.before i.rest)
  · have htell : i.tellg = (none, { i with failbit := true }) := if_neg hgood
    have hfail : Lib.IStream.After { i with failbit := true } i := .setFail le_rfl
    have hextract := (Lib.IStream.after_extract isspace numGet { i with failbit := true }).trans
      hfail
    simp only [htell]
    split
    · exact (Lib.IStream.after_seekg_none _).trans hextract
    · exact hextract

theorem after_parseBool (input : IStream) : (parseBool input).2.After input := by
  have htrue := after_match (ascii "true") input
  have hfalse := after_match (ascii "false") (match_ (ascii "true") input).2
  simp only [parseBool]
  split
  · exact htrue
  · exact hfalse.trans htrue

theorem after_parseNull (input : IStream) : (parseNull input).2.After input := by
  have hnull := after_match (ascii "null") input
  have hpeek := after_peek (match_ (ascii "null") input).2
  simp only [parseNull]
  split
  · exact hnull
  · exact hpeek.trans hnull

/-! ### Proper values -/

/-- The keys of a `std::map`. -/
def Object.Sorted (m : Object) : Prop := (m.map Prod.fst).Pairwise (· < ·)

/-- A value that could be written out: its objects are maps, and everything in it has a type. -/
inductive Proper : Value → Prop
  | number (n : LongDouble) : Proper (.number n)
  | string (s : Bytes) : Proper (.string s)
  | boolean (b : Bool) : Proper (.boolean b)
  | null : Proper .null
  | array {vs : List Value} (h : ∀ v ∈ vs, Proper v) : Proper (.array vs)
  | object {m : Object} (hsorted : m.Sorted) (h : ∀ kv ∈ m, Proper kv.2) : Proper (.object m)

namespace Object

variable {m : Object} {key : Bytes} {v : Value}

theorem mem_insert {kv : Bytes × Value} (h : kv ∈ m.insert key v) : kv = (key, v) ∨ kv ∈ m := by
  induction m with
  | nil => exact Or.inl (List.mem_singleton.mp h)
  | cons kw m ih =>
      obtain ⟨k, w⟩ := kw
      rw [Object.insert] at h
      split at h
      · exact (List.mem_cons.mp h).imp_right (List.mem_cons_of_mem _)
      · split at h
        · exact List.mem_cons.mp h
        · rcases List.mem_cons.mp h with rfl | h
          · exact Or.inr List.mem_cons_self
          · exact (ih h).imp_right (List.mem_cons_of_mem _)

theorem Sorted.insert (h : m.Sorted) (key : Bytes) (v : Value) : (m.insert key v).Sorted := by
  induction m with
  | nil => exact List.pairwise_singleton _ _
  | cons kw m ih =>
      obtain ⟨k, w⟩ := kw
      obtain ⟨hk, hm⟩ := List.pairwise_cons.mp h
      rw [Object.insert]
      split
      · rename_i heq
        subst heq
        exact List.pairwise_cons.mpr ⟨hk, hm⟩
      · split
        · rename_i hlt
          refine List.pairwise_cons.mpr ⟨fun a ha => ?_, h⟩
          rcases List.mem_cons.mp ha with rfl | ha
          · exact hlt
          · exact List.lt_trans hlt (hk a ha)
        · rename_i hne hnlt
          have hgt : k < key := Std.lt_of_le_of_ne (Std.not_lt.mp hnlt) (Ne.symm hne)
          refine List.pairwise_cons.mpr ⟨fun a ha => ?_, ih hm⟩
          obtain ⟨kv, hkv, rfl⟩ := List.mem_map.mp ha
          rcases mem_insert hkv with rfl | hkv
          · exact hgt
          · exact hk _ (List.mem_map_of_mem hkv)

end Object

/-! ### Values, arrays, objects -/

/-- The function returns on this stream, gains no characters and makes such values only. -/
def Reads {α : Type} (P : α → Prop) (parser : Parser α) (input : IStream) : Prop :=
  ∃ out, parser input = some out ∧ out.2.After input ∧ ∀ x, out.1 = some x → P x

theorem Reads.of_eq {α : Type} {P : α → Prop} {parser parser' : Parser α} {input input' : IStream}
    (h : Reads P parser' input') (heq : parser input = parser' input')
    (hafter : input'.After input) : Reads P parser input := by
  obtain ⟨out, hout, hafter', hP⟩ := h
  exact ⟨out, heq.trans hout, hafter'.trans hafter, hP⟩

theorem Reads.result {α : Type} {P : α → Prop} {parser : Parser α} {input input' : IStream}
    {x : Option α} (heq : parser input = some (x, input')) (hafter : input'.After input)
    (hP : ∀ y, x = some y → P y) : Reads P parser input := ⟨(x, input'), heq, hafter, hP⟩

theorem reads_closeWith {α : Type} {P : α → Prop} (close : Char) {x : α} (hx : P x)
    (input : IStream) : Reads P (closeWith close x) input := by
  refine ⟨_, rfl, after_match [chr close] input, fun y hy => ?_⟩
  dsimp only at hy
  split at hy
  · exact Option.some.inj hy ▸ hx
  · exact absurd hy (by simp)

section Step

variable {array : Parser (List Value)} {object : Parser Object} {value : Parser Value}

abbrev ProperArray (vs : List Value) : Prop := ∀ v ∈ vs, Proper v

abbrev ProperObject (m : Object) : Prop := m.Sorted ∧ ∀ kv ∈ m, Proper kv.2

theorem reads_parseObject (hobject : Reads ProperObject object input) :
    Reads Proper (Value.parseObject object) input := by
  obtain ⟨⟨m, input'⟩, heq, hle, hP⟩ := hobject
  refine Reads.result (by rw [Value.parseObject, heq]; rfl) hle fun v hv => ?_
  cases m with
  | none => exact absurd hv (by simp)
  | some m =>
      obtain rfl := Option.some.inj hv
      exact .object (hP m rfl).1 (hP m rfl).2

theorem reads_parseWith (input : IStream)
    (harray : ∀ i : IStream, i.After input → Reads ProperArray array i)
    (hobject : ∀ i : IStream, i.After input → Reads ProperObject object i) :
    Reads Proper (Value.parseWith array object) input := by
  have hstring := after_parseString input
  rcases h₁ : parseString input with ⟨s, i₁⟩
  rw [h₁] at hstring
  cases s with
  | some s =>
      refine Reads.result (x := some (.string s)) (by rw [Value.parseWith, h₁]) hstring ?_
      rintro _ ⟨rfl⟩
      exact .string s
  | none =>
  have hnumber := after_parseNumber i₁
  rcases h₂ : parseNumber i₁ with ⟨n, i₂⟩
  rw [h₂] at hnumber
  cases n with
  | some n =>
      refine Reads.result (x := some (.number n)) (by rw [Value.parseWith, h₁]; simp only [h₂])
        (hnumber.trans hstring) ?_
      rintro _ ⟨rfl⟩
      exact .number n
  | none =>
  have hbool := after_parseBool i₂
  rcases h₃ : parseBool i₂ with ⟨x, i₃⟩
  rw [h₃] at hbool
  have hle₃ : i₃.After input := hbool.trans (hnumber.trans hstring)
  cases x with
  | some x =>
      refine Reads.result (x := some (.boolean x))
        (by rw [Value.parseWith, h₁]; simp only [h₂, h₃]) hle₃ ?_
      rintro _ ⟨rfl⟩
      exact .boolean x
  | none =>
  have hnull := after_parseNull i₃
  rcases h₄ : parseNull i₃ with ⟨null, i₄⟩
  rw [h₄] at hnull
  cases null with
  | true =>
      refine Reads.result (x := some .null) (by rw [Value.parseWith, h₁]; simp only [h₂, h₃, h₄])
        (hnull.trans hle₃) ?_
      rintro _ ⟨rfl⟩
      exact .null
  | false =>
  have hpeek := after_peek i₄
  rcases h₅ : i₄.peek with ⟨c, i₅⟩
  rw [h₅] at hpeek
  have hle₅ : i₅.After input := hpeek.trans (hnull.trans hle₃)
  by_cases hc : c = some (chr '[')
  · obtain ⟨⟨vs, i₆⟩, heq, hle, hP⟩ := harray i₅ hle₅
    cases vs with
    | some vs =>
        refine Reads.result (x := some (.array vs))
          (by rw [Value.parseWith, h₁]; simp only [h₂, h₃, h₄, h₅, hc, heq]; rfl)
          (hle.trans hle₅) ?_
        rintro _ ⟨rfl⟩
        exact .array (hP vs rfl)
    | none =>
        exact (reads_parseObject (hobject i₆ (hle.trans hle₅))).of_eq
          (by rw [Value.parseWith, h₁]; simp only [h₂, h₃, h₄, h₅, hc, heq]; rfl) (hle.trans hle₅)
  · exact (reads_parseObject (hobject i₅ hle₅)).of_eq
      (by rw [Value.parseWith, h₁]; simp only [h₂, h₃, h₄, h₅, hc]; rfl) hle₅

theorem reads_arrayWith {elements : List Value → Parser (List Value)} (input : IStream)
    (helements : ∀ i : IStream, i.budget < input.budget → Reads ProperArray (elements []) i) :
    Reads ProperArray (Array.parseWith elements) input := by
  have hopen := after_match [chr '['] input
  rcases h₁ : match_ [chr '['] input with ⟨opened, i₁⟩
  rw [h₁] at hopen
  cases opened with
  | false =>
      exact Reads.result (x := none) (by rw [Array.parseWith, h₁]) hopen fun _ h => by cases h
  | true =>
  have hlt : i₁.budget < input.budget := by
    have := budget_match_lt (chr '[') input (by rw [h₁])
    rwa [h₁] at this
  have hclose := after_match [chr ']'] i₁
  rcases h₂ : match_ [chr ']'] i₁ with ⟨closed, i₂⟩
  rw [h₂] at hclose
  cases closed with
  | true =>
      refine Reads.result (x := some []) (by rw [Array.parseWith, h₁]; simp only [h₂])
        (hclose.trans hopen) ?_
      rintro _ ⟨rfl⟩ v hv
      exact absurd hv List.not_mem_nil
  | false =>
      exact (helements i₂ (hclose.budget_le.trans_lt hlt)).of_eq
        (by rw [Array.parseWith, h₁]; simp only [h₂]) (hclose.trans hopen)

theorem reads_elementsWith {again : List Value → Parser (List Value)} {values : List Value}
    (hvalues : ProperArray values) (input : IStream) (hvalue : Reads Proper value input)
    (hagain : ∀ (vs : List Value) (i : IStream), ProperArray vs → i.budget < input.budget →
      Reads ProperArray (again vs) i) :
    Reads ProperArray (Array.elementsWith value again values) input := by
  obtain ⟨⟨v, i₁⟩, heq, hle, hP⟩ := hvalue
  cases v with
  | none =>
      exact (reads_closeWith ']' hvalues i₁).of_eq (by rw [Array.elementsWith, heq]) hle
  | some v =>
  have hall : ProperArray (values ++ [v]) := by
    intro w hw
    rcases List.mem_append.mp hw with hw | hw
    · exact hvalues w hw
    · exact List.mem_singleton.mp hw ▸ hP v rfl
  have hcomma := after_match [chr ','] i₁
  rcases h₂ : match_ [chr ','] i₁ with ⟨more, i₂⟩
  rw [h₂] at hcomma
  cases more with
  | true =>
      have hlt : i₂.budget < i₁.budget := by
        have := budget_match_lt (chr ',') i₁ (by rw [h₂])
        rwa [h₂] at this
      exact (hagain _ i₂ hall (hlt.trans_le hle.budget_le)).of_eq
        (by rw [Array.elementsWith, heq]; simp only [h₂]) (hcomma.trans hle)
  | false =>
      exact (reads_closeWith ']' hall i₂).of_eq
        (by rw [Array.elementsWith, heq]; simp only [h₂]) (hcomma.trans hle)

theorem reads_objectWith {members : Object → Parser Object} (input : IStream)
    (hmembers : ∀ i : IStream, i.budget < input.budget → Reads ProperObject (members []) i) :
    Reads ProperObject (Object.parseWith members) input := by
  have hopen := after_match [chr '\x7b'] input
  rcases h₁ : match_ [chr '\x7b'] input with ⟨opened, i₁⟩
  rw [h₁] at hopen
  cases opened with
  | false =>
      exact Reads.result (x := none) (by rw [Object.parseWith, h₁]) hopen fun _ h => by cases h
  | true =>
  have hlt : i₁.budget < input.budget := by
    have := budget_match_lt (chr '\x7b') input (by rw [h₁])
    rwa [h₁] at this
  have hclose := after_match [chr '\x7d'] i₁
  rcases h₂ : match_ [chr '\x7d'] i₁ with ⟨closed, i₂⟩
  rw [h₂] at hclose
  cases closed with
  | true =>
      refine Reads.result (x := some []) (by rw [Object.parseWith, h₁]; simp only [h₂])
        (hclose.trans hopen) ?_
      rintro _ ⟨rfl⟩
      exact ⟨List.Pairwise.nil, fun _ h => absurd h List.not_mem_nil⟩
  | false =>
      exact (hmembers i₂ (hclose.budget_le.trans_lt hlt)).of_eq
        (by rw [Object.parseWith, h₁]; simp only [h₂]) (hclose.trans hopen)

theorem reads_membersWith {again : Object → Parser Object} {m : Object} (hm : ProperObject m)
    (input : IStream)
    (hvalue : ∀ i : IStream, i.budget < input.budget → Reads Proper value i)
    (hagain : ∀ (m : Object) (i : IStream), ProperObject m → i.budget < input.budget →
      Reads ProperObject (again m) i) :
    Reads ProperObject (Object.membersWith value again m) input := by
  have hstring := after_parseString input
  rcases h₁ : parseString input with ⟨key, i₁⟩
  rw [h₁] at hstring
  cases key with
  | none =>
      have hpeek := after_peek i₁
      rcases h₂ : i₁.peek with ⟨c, i₂⟩
      rw [h₂] at hpeek
      by_cases hc : c = some (chr '\x7d')
      · exact (reads_closeWith '\x7d' hm i₂).of_eq
          (by rw [Object.membersWith, h₁]; simp only [h₂, hc]; rfl) (hpeek.trans hstring)
      · exact Reads.result (x := none) (by rw [Object.membersWith, h₁]; simp only [h₂, hc]; rfl)
          (hpeek.trans hstring) fun _ h => by cases h
  | some key =>
  have hcolon := after_match [chr ':'] i₁
  rcases h₂ : match_ [chr ':'] i₁ with ⟨colon, i₂⟩
  rw [h₂] at hcolon
  cases colon with
  | false =>
      exact Reads.result (x := none) (by rw [Object.membersWith, h₁]; simp only [h₂])
        (hcolon.trans hstring) fun _ h => by cases h
  | true =>
  have hlt : i₂.budget < input.budget := by
    have := budget_match_lt (chr ':') i₁ (by rw [h₂])
    rw [h₂] at this
    exact this.trans_le hstring.budget_le
  have hle₂ : i₂.After input := hcolon.trans hstring
  obtain ⟨⟨v, i₃⟩, heq, hle, hP⟩ := hvalue i₂ hlt
  cases v with
  | none =>
      exact (reads_closeWith '\x7d' hm i₃).of_eq
        (by rw [Object.membersWith, h₁]; simp only [h₂, heq]) (hle.trans hle₂)
  | some v =>
  have hinsert : ProperObject (m.insert key v) := by
    refine ⟨hm.1.insert key v, fun kv hkv => ?_⟩
    rcases Object.mem_insert hkv with rfl | hkv
    · exact hP v rfl
    · exact hm.2 kv hkv
  have hcomma := after_match [chr ','] i₃
  rcases h₄ : match_ [chr ','] i₃ with ⟨more, i₄⟩
  rw [h₄] at hcomma
  have hle₄ : i₄.After i₂ := hcomma.trans hle
  cases more with
  | true =>
      exact (hagain _ i₄ hinsert (hle₄.budget_le.trans_lt hlt)).of_eq
        (by rw [Object.membersWith, h₁]; simp only [h₂, heq, h₄]) (hle₄.trans hle₂)
  | false =>
      exact (reads_closeWith '\x7d' hinsert i₄).of_eq
        (by rw [Object.membersWith, h₁]; simp only [h₂, heq, h₄]) (hle₄.trans hle₂)

end Step

/-- Three calls for every character that is left are enough: between two calls that take none
at most three functions are entered. -/
theorem parse_reads (depth : Nat) :
    (∀ i : IStream, 3 * i.budget + 3 ≤ depth → Reads Proper (Value.parse depth) i) ∧
    (∀ i : IStream, 3 * i.budget + 2 ≤ depth → Reads ProperArray (Array.parse depth) i) ∧
    (∀ (vs : List Value) (i : IStream), ProperArray vs → 3 * i.budget + 4 ≤ depth →
      Reads ProperArray (Array.elements depth vs) i) ∧
    (∀ i : IStream, 3 * i.budget + 2 ≤ depth → Reads ProperObject (Object.parse depth) i) ∧
    (∀ (m : Object) (i : IStream), ProperObject m → 3 * i.budget + 1 ≤ depth →
      Reads ProperObject (Object.members depth m) i) := by
  induction depth with
  | zero =>
      refine ⟨?_, ?_, ?_, ?_, ?_⟩ <;> intros <;> omega
  | succ depth ih =>
      obtain ⟨ihvalue, iharray, ihelements, ihobject, ihmembers⟩ := ih
      refine ⟨fun i hi => ?_, fun i hi => ?_, fun vs i hvs hi => ?_, fun i hi => ?_,
        fun m i hm hi => ?_⟩
      · refine reads_parseWith i (fun j hj => iharray j ?_) fun j hj => ihobject j ?_
        all_goals
          have hle := hj.budget_le
          omega
      · exact reads_arrayWith i fun j hj => ihelements [] j (fun _ h => absurd h List.not_mem_nil)
          (by omega)
      · exact reads_elementsWith hvs i (ihvalue i (by omega)) fun vs j hvs hj =>
          ihelements vs j hvs (by omega)
      · exact reads_objectWith i fun j hj =>
          ihmembers [] j ⟨List.Pairwise.nil, fun _ h => absurd h List.not_mem_nil⟩ (by omega)
      · exact reads_membersWith hm i (fun j hj => ihvalue j (by omega)) fun m j hm hj =>
          ihmembers m j hm (by omega)

/-! ### Documents -/

theorem parse_returns (input : IStream) : Reads Proper (Value.parse (callDepth input)) input :=
  (parse_reads _).1 input le_rfl

/-- Of any text `validate` and `reformat` make an object or array, properly built, or reject it. -/
theorem parseDocument_returns (text : Bytes) :
    ∃ v : Option Value, parseDocument text = some v ∧
      ∀ x, v = some x → Proper x ∧ x.isDocument := by
  rw [parseDocument]
  generalize skipBlank (Lib.IStream.ofText text) = i₁
  rcases h₁ : i₁.peek with ⟨c, i₂⟩
  by_cases hc : c = some (chr '\x7b')
  · obtain ⟨⟨m, i⟩, heq, -, hP⟩ := (parse_reads (callDepth i₂)).2.2.2.1 i₂ (Nat.le_succ _)
    refine ⟨m.map .object, by simp only [hc, if_true, heq, Option.map_some], fun x hx => ?_⟩
    obtain ⟨m', rfl, rfl⟩ := Option.map_eq_some_iff.mp hx
    exact ⟨.object (hP m' rfl).1 (hP m' rfl).2, trivial⟩
  · rcases h₂ : i₂.peek with ⟨d, i₃⟩
    by_cases hd : d = some (chr '[')
    · obtain ⟨⟨vs, i⟩, heq, -, hP⟩ := (parse_reads (callDepth i₃)).2.1 i₃ (Nat.le_succ _)
      refine ⟨vs.map .array, by simp only [hc, hd, if_true, if_false, h₂, heq, Option.map_some],
        fun x hx => ?_⟩
      obtain ⟨vs', rfl, rfl⟩ := Option.map_eq_some_iff.mp hx
      exact ⟨.array (hP vs' rfl), trivial⟩
    · exact ⟨none, by simp only [hc, hd, if_false, h₂], fun x hx => by cases hx⟩

end Dummyload.Json
