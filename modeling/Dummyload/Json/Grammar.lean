import Dummyload.Json.Write

/-!
# Dummyload.Json.Grammar

JSON texts and what they mean, stated without the parser: `Denotes t v`. The grammar is that of
the standard, except that `\u` names an ASCII character, since a `std::string` holds
bytes, which need not be UTF-8. A number means itself, rounded to a `long double`; of two
members with one key the later one counts.

The parser reads every such text to its end and finds its meaning (`parse_denotes`): strict JSON
is accepted, whatever else the permissive mode accepts.
-/

namespace Dummyload.Json

/-! ### The grammar -/

/-- White space. -/
def Blank (w : Bytes) : Prop := ∀ c ∈ w, c = chr ' ' ∨ c = chr '\t' ∨ c = chr '\n' ∨ c = chr '\r'

/-- What stands between the quotes, and the string it means. -/
inductive StringBody : Bytes → Bytes → Prop
  | nil : StringBody [] []
  | raw {c : Byte} {t s : Bytes} (hcontrol : 32 ≤ c) (hquote : c ≠ chr '"')
      (hslash : c ≠ chr '\\') (h : StringBody t s) : StringBody (c :: t) (c :: s)
  | escape {c e : Byte} {t s : Bytes} (he : shortEscape c = some e) (h : StringBody t s) :
      StringBody (chr '\\' :: e :: t) (c :: s)
  | unicode {ds t s : Bytes} (hlen : ds.length = 4) (hds : ∀ d ∈ ds, isxdigit d = true)
      (hascii : hexadecimal ds < 128) (h : StringBody t s) :
      StringBody (chr '\\' :: chr 'u' :: (ds ++ t)) (toChar (hexadecimal ds) :: s)

/-- The members of an object, entered one after the other. -/
def Object.ofMembers (ms : List (Bytes × Value)) : Object :=
  ms.foldl (fun m kv => m.insert kv.1 kv.2) []

mutual

/-- The text of a value, without white space around it. -/
inductive Denotes : Bytes → Value → Prop
  | number (neg : Bool) (l : Literal) {n : LongDouble} (hn : toLongDouble neg l.value = some n) :
      Denotes (signText neg ++ l.text) (.number n)
  | string {t s : Bytes} (h : StringBody t s) : Denotes (quoted t) (.string s)
  | boolean (b : Bool) : Denotes (ascii (if b then "true" else "false")) (.boolean b)
  | null : Denotes (ascii "null") .null
  | emptyArray {w : Bytes} (hw : Blank w) : Denotes (chr '[' :: (w ++ [chr ']'])) (.array [])
  | array {w t : Bytes} {vs : List Value} (hw : Blank w) (h : Elements t vs) :
      Denotes (chr '[' :: (w ++ (t ++ [chr ']']))) (.array vs)
  | emptyObject {w : Bytes} (hw : Blank w) :
      Denotes (chr '\x7b' :: (w ++ [chr '\x7d'])) (.object [])
  | object {w t : Bytes} {ms : List (Bytes × Value)} (hw : Blank w) (h : Members t ms) :
      Denotes (chr '\x7b' :: (w ++ (t ++ [chr '\x7d']))) (.object (Object.ofMembers ms))

/-- What stands in the brackets, from the first element on. -/
inductive Elements : Bytes → List Value → Prop
  | last {t w : Bytes} {v : Value} (h : Denotes t v) (hw : Blank w) : Elements (t ++ w) [v]
  | cons {t w w' ts : Bytes} {v : Value} {vs : List Value} (h : Denotes t v) (hw : Blank w)
      (hw' : Blank w') (hs : Elements ts vs) :
      Elements (t ++ (w ++ chr ',' :: (w' ++ ts))) (v :: vs)

/-- What stands in the braces, from the first key on. -/
inductive Members : Bytes → List (Bytes × Value) → Prop
  | last {k w₁ w₂ t w key : Bytes} {v : Value} (hk : StringBody k key) (hw₁ : Blank w₁)
      (hw₂ : Blank w₂) (h : Denotes t v) (hw : Blank w) :
      Members (quoted k ++ (w₁ ++ chr ':' :: (w₂ ++ (t ++ w)))) [(key, v)]
  | cons {k w₁ w₂ t w w' ts key : Bytes} {v : Value} {ms : List (Bytes × Value)}
      (hk : StringBody k key) (hw₁ : Blank w₁) (hw₂ : Blank w₂) (h : Denotes t v)
      (hw : Blank w) (hw' : Blank w') (hs : Members ts ms) :
      Members (quoted k ++ (w₁ ++ chr ':' :: (w₂ ++ (t ++ (w ++ chr ',' :: (w' ++ ts))))))
        ((key, v) :: ms)

end

open Lib.IStream (ready)

variable {w b r t : Bytes} {c : Byte}

/-! ### Tokens -/

theorem Blank.isspace (hw : Blank w) : ∀ c ∈ w, isspace c = true := by
  intro c hc
  rcases hw c hc with rfl | rfl | rfl | rfl <;> rfl

theorem ws_ready (hw : Blank w) (hc : isspace c = false) :
    IStream.ws (ready b (w ++ c :: r)) = ready (w.reverse ++ b) (c :: r) :=
  Lib.IStream.ws_ready hw.isspace hc

theorem matchFrom_ready (pattern matched : Bytes) (ch : Byte) (b r : Bytes) :
    matchFrom matched pattern ch (ready b (pattern ++ r)) =
      (true, ready (pattern.reverse ++ b) r) := by
  induction pattern generalizing matched ch b with
  | nil =>
      rw [matchFrom]
      rfl
  | cons p ps ih =>
      rw [matchFrom]
      simp [ih]

/-- A token that is there. -/
theorem match_ready {p : Byte} (ps : Bytes) (hw : Blank w) (hp : isspace p = false) (b r : Bytes) :
    match_ (p :: ps) (ready b (w ++ (p :: ps ++ r))) =
      (true, ready ((w ++ p :: ps).reverse ++ b) r) := by
  rw [match_, List.cons_append, ws_ready hw hp, ← List.cons_append, matchFrom_ready]
  simp

/-- A token of one character. -/
theorem match_char {p : Byte} (hw : Blank w) (hp : isspace p = false) (b r : Bytes) :
    match_ [p] (ready b (w ++ p :: r)) = (true, ready (p :: (w.reverse ++ b)) r) := by
  have hmatch := match_ready [] hw hp b r
  rw [List.reverse_append, List.append_assoc] at hmatch
  exact hmatch

/-- A token that is not there, seen by its first character. -/
theorem match_ready_of_ne {p : Byte} (ps : Bytes) (hw : Blank w) (hc : isspace c = false)
    (hne : c ≠ p) (hcomment : c ≠ chr '/') (b r : Bytes) :
    match_ (p :: ps) (ready b (w ++ c :: r)) = (false, ready (w.reverse ++ b) (c :: r)) := by
  rw [match_, ws_ready hw hc, matchFrom]
  simp [hne, parseComment_of_ne hcomment]

theorem blank_nil : Blank [] := fun _ h => nomatch h

/-! ### Strings -/

section Strings

variable {v s ds : Bytes} {ch e : Byte}

theorem stringLoop_end (v : Bytes) (ch : Byte) (b r : Bytes) :
    stringLoop (chr '"') v ch (ready b (chr '"' :: r)) = (v, chr '"', ready (chr '"' :: b) r) := by
  rw [stringLoop]
  simp

theorem stringLoop_raw (hquote : c ≠ chr '"') (hslash : c ≠ chr '\\') :
    stringLoop (chr '"') v ch (ready b (c :: r)) =
      stringLoop (chr '"') (v ++ [c]) c (ready (c :: b) r) := by
  rw [stringLoop]
  simp [hquote, hslash]

theorem stringLoop_slash (v : Bytes) (ch : Byte) (b r : Bytes) :
    stringLoop (chr '"') v ch (ready b (chr '\\' :: r)) =
      stringLoop (chr '"') (parseEscape (chr '"') v (chr '\\') (ready (chr '\\' :: b) r)).1
        (parseEscape (chr '"') v (chr '\\') (ready (chr '\\' :: b) r)).2.1
        (parseEscape (chr '"') v (chr '\\') (ready (chr '\\' :: b) r)).2.2 := by
  have hne : chr '\\' ≠ chr '"' := by decide
  rw [stringLoop]
  simp [hne]

/-- The escapes of one letter are read as they are written. -/
theorem parseEscape_short (he : shortEscape c = some e) (v : Bytes) (ch : Byte) (b r : Bytes) :
    parseEscape (chr '"') v ch (ready b (e :: r)) = (v ++ [c], e, ready (e :: b) r) := by
  revert he
  unfold shortEscape
  intro he
  repeat' split at he
  all_goals first
    | (obtain rfl := Option.some.inj he; subst_vars; rfl)
    | exact absurd he (by simp)

theorem takeHex_ready (ds : Bytes) (ch : Byte) (ss b r : Bytes) :
    takeHex ds.length ch ss (ready b (ds ++ r)) =
      (ds.getLastD ch, ss ++ ds, ready (ds.reverse ++ b) r) := by
  induction ds generalizing ch ss b with
  | nil => simp [takeHex]
  | cons d ds ih =>
      rw [List.length_cons, takeHex, if_pos Lib.IStream.good_ready, List.cons_append,
        Lib.IStream.get_ready, ih, List.getLastD_cons]
      simp

theorem isspace_of_isxdigit {d : Byte} (h : isxdigit d = true) : isspace d = false := by
  revert h
  revert d
  decide +kernel

theorem readHex_of_isxdigit (hne : ds ≠ []) (hds : ∀ d ∈ ds, isxdigit d = true) :
    readHex ds = some (hexadecimal ds : Int) := by
  obtain ⟨d, ds, rfl⟩ := List.exists_cons_of_ne_nil hne
  have hd := hds d List.mem_cons_self
  have hblank : (d :: ds).dropWhile isspace = d :: ds := by
    rw [List.dropWhile_cons, isspace_of_isxdigit hd, if_neg Bool.false_ne_true]
  have hsign : scanSign (d :: ds) = (false, 0) := by
    unfold scanSign
    split
    · rename_i heq
      obtain rfl := (List.cons.inj heq).1
      exact absurd hd (by decide)
    · rename_i heq
      obtain rfl := (List.cons.inj heq).1
      exact absurd hd (by decide)
    · rfl
  -- the second character is no `x`
  have hinit : ¬ ((d :: ds).take 2 = ascii "0x" ∨ (d :: ds).take 2 = ascii "0X") := by
    have hsecond : ∀ x ∈ (d :: ds).take 2, isxdigit x = true :=
      fun x hx => hds x (List.mem_of_mem_take hx)
    rintro (h | h) <;> rw [h] at hsecond <;> revert hsecond <;> decide +kernel
  have htake : (d :: ds).takeWhile isxdigit = d :: ds := List.takeWhile_eq_self_iff.mpr hds
  rw [readHex, hblank]
  simp only [hsign, List.drop_zero, if_neg hinit, htake, if_neg hne, if_neg Bool.false_ne_true]

theorem parseEscape_unicode (hlen : ds.length = 4) (hds : ∀ d ∈ ds, isxdigit d = true) (v : Bytes)
    (ch : Byte) (b r : Bytes) :
    parseEscape (chr '"') v ch (ready b (chr 'u' :: (ds ++ r))) =
      (v ++ [toChar (hexadecimal ds)], ds.getLastD (chr 'u'),
        ready (ds.reverse ++ chr 'u' :: b) r) := by
  have hne : ds ≠ [] := by
    rintro rfl
    simp at hlen
  have htake := takeHex_ready ds (chr 'u') [] (chr 'u' :: b) r
  rw [hlen] at htake
  have hletter : parseEscape (chr '"') v ch (ready b (chr 'u' :: (ds ++ r))) =
      parseUnicode v (chr 'u') (ready (chr 'u' :: b) (ds ++ r)) := rfl
  rw [hletter, parseUnicode, htake]
  simp only [List.nil_append, readHex_of_isxdigit hne hds]
  rfl

/-- The loop reads what stands between the quotes, and the closing one. -/
theorem stringLoop_body (h : StringBody t s) (v : Bytes) (ch : Byte) (b r : Bytes) :
    stringLoop (chr '"') v ch (ready b (t ++ chr '"' :: r)) =
      (v ++ s, chr '"', ready (chr '"' :: (t.reverse ++ b)) r) := by
  induction h generalizing v ch b with
  | nil => simpa using stringLoop_end v ch b r
  | raw _ hquote hslash _ ih =>
      rw [List.cons_append, stringLoop_raw hquote hslash, ih]
      simp
  | escape he _ ih =>
      rw [List.cons_append, List.cons_append, stringLoop_slash, parseEscape_short he, ih]
      simp
  | unicode hlen hds _ _ ih =>
      rw [List.cons_append, List.cons_append, List.append_assoc, stringLoop_slash,
        parseEscape_unicode hlen hds, ih]
      simp

theorem parseString_quoted (hw : Blank w) (h : StringBody t s) (b r : Bytes) :
    parseString (ready b (w ++ (quoted t ++ r))) =
      (some s, ready ((w ++ quoted t).reverse ++ b) r) := by
  have hmatch := match_ready [] hw (by decide : isspace (chr '"') = false) b
    (t ++ chr '"' :: r)
  have htext : quoted t ++ r = [chr '"'] ++ (t ++ chr '"' :: r) := by simp [quoted]
  rw [parseString, htext, hmatch]
  simp [stringLoop_body h, endString, quoted]

/-- No string starts here. -/
theorem parseString_of_ne (hw : Blank w) (hc : isspace c = false) (hquote : c ≠ chr '"')
    (hsingle : c ≠ chr '\'') (hcomment : c ≠ chr '/') (b r : Bytes) :
    parseString (ready b (w ++ c :: r)) = (none, ready (w.reverse ++ b) (c :: r)) := by
  rw [parseString, match_ready_of_ne [] hw hc hquote hcomment]
  simp [hsingle]

end Strings

/-! ### Numbers and constants -/

section Atoms

/-- What may stand behind a value in an array or object. -/
def Follows (r : Bytes) : Prop :=
  ∃ c t, r = c :: t ∧ (isspace c = true ∨ c = chr ',' ∨ c = chr ']' ∨ c = chr '\x7d')

theorem Follows.endsLiteral (h : Follows r) : EndsLiteral r := by
  obtain ⟨c, t, rfl, hc⟩ := h
  intro d hd
  obtain rfl : c = d := by simpa using hd
  rcases hc with hc | rfl | rfl | rfl
  · have hspace : ∀ c : Byte, isspace c = true →
        isdigit c = false ∧ c ≠ chr '.' ∧ c ≠ chr 'e' ∧ c ≠ chr 'E' := by decide +kernel
    exact hspace c hc
  all_goals decide

theorem Follows.ne_nil (h : Follows r) : r ≠ [] := by
  obtain ⟨c, t, rfl, -⟩ := h
  exact List.cons_ne_nil c t

theorem follows_blank {w : Bytes} (hw : Blank w) (h : Follows r) : Follows (w ++ r) := by
  cases w with
  | nil => exact h
  | cons c w => exact ⟨c, w ++ r, rfl, Or.inl (hw.isspace c List.mem_cons_self)⟩

/-- The first character of a value. -/
def Starts (c : Byte) : Prop :=
  isdigit c = true ∨ c = chr '-' ∨ c = chr '"' ∨ c = chr 't' ∨ c = chr 'f' ∨ c = chr 'n' ∨
    c = chr '[' ∨ c = chr '\x7b'

instance : DecidablePred Starts := fun c => by
  unfold Starts
  infer_instance

/-- It is none of the characters that the parser looks for in its place. -/
theorem Starts.spec (h : Starts c) : isspace c = false ∧ c ≠ chr ']' ∧ c ≠ chr '\x7d' ∧
    c ≠ chr '/' ∧ c ≠ chr '\'' ∧ c ≠ chr ',' := by
  revert h
  revert c
  decide +kernel

theorem exists_number_cons (neg : Bool) (l : Literal) :
    ∃ c t, signText neg ++ l.text = c :: t ∧ (isdigit c = true ∨ c = chr '-') := by
  obtain ⟨d, ds, hint⟩ := List.exists_cons_of_ne_nil l.int_ne
  cases neg with
  | true => exact ⟨chr '-', l.text, rfl, Or.inr rfl⟩
  | false =>
      refine ⟨d, ds ++ (Literal.point l.frac ++ Literal.expText l.exp), ?_, Or.inl ?_⟩
      · change l.text = _
        rw [Literal.text, hint, List.cons_append]
      · exact l.isdigit_int d (by rw [hint]; exact List.mem_cons_self)

theorem exists_cons (h : Denotes t v) : ∃ c t', t = c :: t' ∧ Starts c := by
  cases h with
  | number neg l hn =>
      obtain ⟨c, t', heq, hc⟩ := exists_number_cons neg l
      exact ⟨c, t', heq, hc.imp_right Or.inl⟩
  | string h => exact ⟨_, _, rfl, by decide⟩
  | boolean b => cases b <;> exact ⟨_, _, rfl, by decide⟩
  | null => exact ⟨_, _, rfl, by decide⟩
  | emptyArray hw => exact ⟨_, _, rfl, by decide⟩
  | array hw h => exact ⟨_, _, rfl, by decide⟩
  | emptyObject hw => exact ⟨_, _, rfl, by decide⟩
  | object hw h => exact ⟨_, _, rfl, by decide⟩

theorem parseNumber_literal (hw : Blank w) (neg : Bool) (l : Literal) {n : LongDouble}
    (hn : toLongDouble neg l.value = some n) (hr : EndsLiteral r) (b : Bytes) :
    parseNumber (ready b (w ++ (signText neg ++ l.text ++ r))) =
      (some n, { ready ((w ++ (signText neg ++ l.text)).reverse ++ b) r with
        eofbit := r.isEmpty }) := by
  obtain ⟨c, t, heq, hc⟩ := exists_number_cons neg l
  have hspec := Starts.spec (c := c) (hc.imp_right Or.inl)
  have hget := numGet_literal neg l hr
  rw [← List.append_assoc, hn] at hget
  have hws : IStream.ws (ready b (w ++ (signText neg ++ l.text ++ r))) =
      ready (w.reverse ++ b) (signText neg ++ l.text ++ r) := by
    rw [heq, List.cons_append]
    exact ws_ready hw hspec.1
  have hextract : (ready (w.reverse ++ b) (signText neg ++ l.text ++ r)).extract isspace numGet =
      (some n, { ready ((signText neg ++ l.text).reverse ++ (w.reverse ++ b)) r with
        eofbit := r.isEmpty }) :=
    Lib.IStream.extract_ready (by rw [heq]; simpa using hspec.1) (by rw [heq]; simp) hget
  rw [parseNumber, hws]
  simp only [Lib.IStream.tellg_ready, hextract]
  rw [← List.append_assoc, ← List.reverse_append]
  rfl

/-- No number starts here; the position is as before. -/
theorem parseNumber_of_none (hw : Blank w) (hc : isspace c = false)
    (hnone : (numGet (c :: r)).2 = none) (b : Bytes) :
    parseNumber (ready b (w ++ c :: r)) = (none, ready (w.reverse ++ b) (c :: r)) := by
  have hfail := Lib.IStream.fail_extract_ready (b := w.reverse ++ b) hc hnone
  rw [parseNumber, ws_ready hw hc]
  simp only [Lib.IStream.tellg_ready, hfail, if_true, Lib.IStream.seekg_extract]

theorem parseBool_of_ne (hw : Blank w) (hc : isspace c = false) (ht : c ≠ chr 't')
    (hf : c ≠ chr 'f') (hcomment : c ≠ chr '/') (b r : Bytes) :
    parseBool (ready b (w ++ c :: r)) = (none, ready (w.reverse ++ b) (c :: r)) := by
  have htrue := match_ready_of_ne (ascii "rue") hw hc ht hcomment b r
  have hfalse := match_ready_of_ne (ascii "alse") blank_nil hc hf hcomment (w.reverse ++ b) r
  have h₁ : ascii "true" = chr 't' :: ascii "rue" := rfl
  have h₂ : ascii "false" = chr 'f' :: ascii "alse" := rfl
  rw [parseBool, h₁, htrue, h₂]
  simp only [Bool.false_eq_true, if_false]
  rw [← List.nil_append (c :: r), hfalse]
  rfl

theorem parseNull_of_ne (hw : Blank w) (hc : isspace c = false) (hn : c ≠ chr 'n')
    (hcomma : c ≠ chr ',') (hcomment : c ≠ chr '/') (b r : Bytes) :
    parseNull (ready b (w ++ c :: r)) = (false, ready (w.reverse ++ b) (c :: r)) := by
  have hnull := match_ready_of_ne (ascii "ull") hw hc hn hcomment b r
  have h₁ : ascii "null" = chr 'n' :: ascii "ull" := rfl
  rw [parseNull, h₁, hnull]
  simp [hcomma]

theorem ascii_true : ascii "true" = chr 't' :: ascii "rue" := rfl
theorem ascii_false : ascii "false" = chr 'f' :: ascii "alse" := rfl
theorem ascii_null : ascii "null" = chr 'n' :: ascii "ull" := rfl

theorem parseBool_ready (x : Bool) (b r : Bytes) :
    parseBool (ready b (ascii (if x then "true" else "false") ++ r)) =
      (some x, ready ((ascii (if x then "true" else "false")).reverse ++ b) r) := by
  cases x with
  | true =>
      have hmatch := match_ready (ascii "rue") blank_nil
        (by decide : isspace (chr 't') = false) b r
      rw [List.nil_append, List.nil_append, ← ascii_true] at hmatch
      rw [parseBool, if_pos rfl, hmatch]
      rfl
  | false =>
      have hno := match_ready_of_ne (ascii "rue") blank_nil
        (by decide : isspace (chr 'f') = false) (by decide : chr 'f' ≠ chr 't') (by decide) b
        (ascii "alse" ++ r)
      have hmatch := match_ready (ascii "alse") blank_nil
        (by decide : isspace (chr 'f') = false) b r
      rw [List.nil_append, List.nil_append, ← ascii_false] at hmatch
      rw [List.nil_append, ← List.cons_append, ← ascii_false, ← ascii_true] at hno
      rw [parseBool, if_neg Bool.false_ne_true, hno]
      simp only [Bool.false_eq_true, if_false, List.reverse_nil, List.nil_append, hmatch, if_true]

theorem parseNull_ready (b r : Bytes) :
    parseNull (ready b (ascii "null" ++ r)) = (true, ready ((ascii "null").reverse ++ b) r) := by
  have hmatch := match_ready (ascii "ull") blank_nil
    (by decide : isspace (chr 'n') = false) b r
  rw [List.nil_append, List.nil_append, ← ascii_null] at hmatch
  rw [parseNull, hmatch]
  rfl

end Atoms

/-! ### Values -/

section Values

variable {v : Value} {vs : List Value} {ms : List (Bytes × Value)} (array : Parser (List Value))
  (object : Parser Object)

theorem parseWith_string {s : Bytes} (hw : Blank w) (h : StringBody t s) (b r : Bytes) :
    Value.parseWith array object (ready b (w ++ (quoted t ++ r))) =
      some (some (.string s), ready ((w ++ quoted t).reverse ++ b) r) := by
  rw [Value.parseWith, parseString_quoted hw h]

theorem parseWith_number (hw : Blank w) (neg : Bool) (l : Literal) {n : LongDouble}
    (hn : toLongDouble neg l.value = some n) (hr : EndsLiteral r) (b : Bytes) :
    Value.parseWith array object (ready b (w ++ (signText neg ++ l.text ++ r))) =
      some (some (.number n), { ready ((w ++ (signText neg ++ l.text)).reverse ++ b) r with
        eofbit := r.isEmpty }) := by
  obtain ⟨c, t, heq, hc⟩ := exists_number_cons neg l
  obtain ⟨hspace, -, -, hcomment, hsingle, -⟩ := Starts.spec (c := c) (hc.imp_right Or.inl)
  have hquote : c ≠ chr '"' := by
    rintro rfl
    revert hc
    decide
  have hstring := parseString_of_ne hw hspace hquote hsingle hcomment b (t ++ r)
  rw [← List.cons_append, ← heq] at hstring
  have hnumber := parseNumber_literal blank_nil neg l hn hr (w.reverse ++ b)
  rw [List.nil_append, List.nil_append] at hnumber
  rw [Value.parseWith, hstring]
  simp only [hnumber]
  rw [← List.append_assoc, ← List.reverse_append]

/-- Neither a string nor a number starts with such a character. -/
theorem parse_letter (hc : c = chr 't' ∨ c = chr 'f' ∨ c = chr 'n' ∨ c = chr '[' ∨ c = chr '\x7b')
    (hw : Blank w) (b r : Bytes) :
    parseString (ready b (w ++ c :: r)) = (none, ready (w.reverse ++ b) (c :: r)) ∧
      parseNumber (ready (w.reverse ++ b) (c :: r)) = (none, ready (w.reverse ++ b) (c :: r)) := by
  have hquote : c ≠ chr '"' := by rcases hc with rfl | rfl | rfl | rfl | rfl <;> decide
  have hnone : (numGet (c :: r)).2 = none := by
    rcases hc with rfl | rfl | rfl | rfl | rfl <;> rfl
  have hstarts : Starts c := by rcases hc with rfl | rfl | rfl | rfl | rfl <;> decide
  obtain ⟨hspace, -, -, hcomment, hsingle, -⟩ := hstarts.spec
  exact ⟨parseString_of_ne hw hspace hquote hsingle hcomment b r,
    parseNumber_of_none blank_nil hspace hnone (w.reverse ++ b)⟩

theorem parseWith_boolean (x : Bool) (hw : Blank w) (b r : Bytes) :
    Value.parseWith array object
        (ready b (w ++ (ascii (if x then "true" else "false") ++ r))) =
      some (some (.boolean x),
        ready ((w ++ ascii (if x then "true" else "false")).reverse ++ b) r) := by
  have hbool := parseBool_ready x (w.reverse ++ b) r
  have hletter : ∃ c t, ascii (if x then "true" else "false") = c :: t ∧
      (c = chr 't' ∨ c = chr 'f') := by
    cases x
    · exact ⟨_, _, rfl, Or.inr rfl⟩
    · exact ⟨_, _, rfl, Or.inl rfl⟩
  generalize ascii (if x then "true" else "false") = text at hbool hletter ⊢
  obtain ⟨c, t, rfl, hc⟩ := hletter
  obtain ⟨hstring, hnumber⟩ := parse_letter (hc.imp_right Or.inl) hw b (t ++ r)
  rw [List.cons_append] at hbool ⊢
  rw [Value.parseWith, hstring]
  simp only [hnumber, hbool]
  rw [← List.append_assoc, ← List.reverse_append]

theorem parseWith_null (hw : Blank w) (b r : Bytes) :
    Value.parseWith array object (ready b (w ++ (ascii "null" ++ r))) =
      some (some .null, ready ((w ++ ascii "null").reverse ++ b) r) := by
  obtain ⟨hstring, hnumber⟩ := parse_letter (Or.inr (Or.inr (Or.inl rfl))) hw b (ascii "ull" ++ r)
  have hbool := parseBool_of_ne (c := chr 'n') blank_nil (by decide) (by decide) (by decide)
    (by decide) (w.reverse ++ b) (ascii "ull" ++ r)
  rw [List.nil_append] at hbool
  have hnull := parseNull_ready (w.reverse ++ b) r
  rw [ascii_null, List.cons_append] at hnull ⊢
  rw [Value.parseWith, hstring]
  simp only [hnumber, hbool, List.reverse_nil, List.nil_append, hnull]
  rw [← List.append_assoc, ← List.reverse_append]

/-- A bracket is left to `Array::parse`, a brace to `Object::parse`. -/
theorem parseWith_open {c : Byte} (hc : c = chr '[' ∨ c = chr '\x7b') (hw : Blank w)
    (b r : Bytes) :
    Value.parseWith array object (ready b (w ++ c :: r)) =
      if c = chr '[' then
        match array (ready (w.reverse ++ b) (c :: r)) with
        | none => none
        | some (some vs, input) => some (some (.array vs), input)
        | some (none, input) => Value.parseObject object input
      else Value.parseObject object (ready (w.reverse ++ b) (c :: r)) := by
  obtain ⟨hstring, hnumber⟩ := parse_letter (Or.inr (Or.inr (Or.inr hc))) hw b r
  have hstarts : Starts c := by rcases hc with rfl | rfl <;> decide
  have hne : c ≠ chr 't' ∧ c ≠ chr 'f' ∧ c ≠ chr 'n' := by rcases hc with rfl | rfl <;> decide
  obtain ⟨hspace, -, -, hcomment, -, hcomma⟩ := hstarts.spec
  have hbool := parseBool_of_ne blank_nil hspace hne.1 hne.2.1 hcomment (w.reverse ++ b) r
  have hnull := parseNull_of_ne blank_nil hspace hne.2.2 hcomma hcomment (w.reverse ++ b) r
  rw [List.nil_append] at hbool hnull
  rw [Value.parseWith, hstring]
  simp only [hnumber, hbool, List.reverse_nil, List.nil_append, hnull, Lib.IStream.peek_ready]
  rcases hc with rfl | rfl <;> rfl

/-! ### Arrays and objects -/

theorem closeWith_ready {α : Type} (close : Char) (hclose : isspace (chr close) = false)
    (hw : Blank w) (x : α) (b r : Bytes) :
    closeWith close x (ready b (w ++ chr close :: r)) =
      some (some x, ready (chr close :: (w.reverse ++ b)) r) := by
  rw [closeWith, match_char hw hclose b r]
  rfl

end Values

/-! ### The parser and the grammar -/

theorem length_pos_of_denotes {v : Value} (h : Denotes t v) : 0 < t.length := by
  obtain ⟨c, t', rfl, -⟩ := exists_cons h
  exact Nat.succ_pos _

theorem follows_of_mem {c : Byte} (hc : c = chr ',' ∨ c = chr ']' ∨ c = chr '\x7d') (r : Bytes) :
    Follows (c :: r) := ⟨c, r, rfl, Or.inr hc⟩

/-- In an array behind an element: the end, or a comma and more. -/
theorem elementsWith_last {value : Parser Value} {again : List Value → Parser (List Value)}
    {values : List Value} {v : Value} {input : IStream} (hw : Blank w)
    (hvalue : value input = some (some v, ready b (w ++ chr ']' :: r))) :
    Array.elementsWith value again values input =
      some (some (values ++ [v]), ready (chr ']' :: (w.reverse ++ b)) r) := by
  have hcomma := match_ready_of_ne [] hw (by decide : isspace (chr ']') = false)
    (by decide : chr ']' ≠ chr ',') (by decide) b r
  have hclose := closeWith_ready ']' (by decide) blank_nil (values ++ [v])
    (w.reverse ++ b) r
  rw [List.nil_append] at hclose
  rw [Array.elementsWith, hvalue]
  simp only [hcomma, hclose]
  rfl

theorem elementsWith_cons {value : Parser Value} {again : List Value → Parser (List Value)}
    {values : List Value} {v : Value} {input : IStream} (hw : Blank w)
    (hvalue : value input = some (some v, ready b (w ++ chr ',' :: r))) :
    Array.elementsWith value again values input =
      again (values ++ [v]) (ready (chr ',' :: (w.reverse ++ b)) r) := by
  rw [Array.elementsWith, hvalue]
  simp only [match_char hw (by decide : isspace (chr ',') = false) b r]

/-- In an object: a key, a colon and a value, then the end, or a comma and more. -/
theorem membersWith_last {value : Parser Value} {again : Object → Parser Object} {object : Object}
    {k key w₁ w₂ x b' : Bytes} {v : Value} (hw : Blank w) (hk : StringBody k key) (hw₁ : Blank w₁)
    (hw₂ : Blank w₂)
    (hvalue : value (ready (chr ':' :: (w₁.reverse ++ ((w ++ quoted k).reverse ++ b))) x) =
      some (some v, ready b' (w₂ ++ chr '\x7d' :: r))) :
    Object.membersWith value again object (ready b (w ++ (quoted k ++ (w₁ ++ chr ':' :: x)))) =
      some (some (object.insert key v), ready (chr '\x7d' :: (w₂.reverse ++ b')) r) := by
  have hcomma := match_ready_of_ne [] hw₂ (by decide : isspace (chr '\x7d') = false)
    (by decide : chr '\x7d' ≠ chr ',') (by decide) b' r
  have hclose := closeWith_ready '\x7d' (by decide) blank_nil (object.insert key v)
    (w₂.reverse ++ b') r
  have hcolon := match_char hw₁ (by decide : isspace (chr ':') = false)
    ((w ++ quoted k).reverse ++ b) x
  rw [List.nil_append] at hclose
  rw [Object.membersWith, parseString_quoted hw hk]
  simp only [hcolon, hvalue, hcomma, hclose]
  rfl

theorem membersWith_cons {value : Parser Value} {again : Object → Parser Object} {object : Object}
    {k key w₁ w₂ x b' : Bytes} {v : Value} (hw : Blank w) (hk : StringBody k key) (hw₁ : Blank w₁)
    (hw₂ : Blank w₂)
    (hvalue : value (ready (chr ':' :: (w₁.reverse ++ ((w ++ quoted k).reverse ++ b))) x) =
      some (some v, ready b' (w₂ ++ chr ',' :: r))) :
    Object.membersWith value again object (ready b (w ++ (quoted k ++ (w₁ ++ chr ':' :: x)))) =
      again (object.insert key v) (ready (chr ',' :: (w₂.reverse ++ b')) r) := by
  have hcolon := match_char hw₁ (by decide : isspace (chr ':') = false)
    ((w ++ quoted k).reverse ++ b) x
  have hcomma := match_char hw₂ (by decide : isspace (chr ',') = false) b' r
  rw [Object.membersWith, parseString_quoted hw hk]
  simp only [hcolon, hvalue, hcomma]

/-- The brackets around elements that are read. -/
theorem arrayParse_of_elements {depth : Nat} {vs : List Value} (hw : Blank w)
    (ht : ∃ c t', t = c :: t' ∧ Starts c)
    (helements : Array.elements depth [] (ready (w.reverse ++ chr '[' :: b) (t ++ chr ']' :: r)) =
      some (some vs, ready (chr ']' :: (t.reverse ++ (w.reverse ++ chr '[' :: b))) r)) :
    Array.parse (depth + 1) (ready b (chr '[' :: (w ++ (t ++ chr ']' :: r)))) =
      some (some vs, ready (chr ']' :: (t.reverse ++ (w.reverse ++ chr '[' :: b))) r) := by
  obtain ⟨c, t', rfl, hc⟩ := ht
  obtain ⟨hspace, hclose, -, hcomment, -, -⟩ := hc.spec
  have hopen := match_char blank_nil (by decide : isspace (chr '[') = false) b
    (w ++ (c :: t' ++ chr ']' :: r))
  have hclosed := match_ready_of_ne [] hw hspace hclose hcomment (chr '[' :: b)
    (t' ++ chr ']' :: r)
  rw [List.nil_append] at hopen
  rw [Array.parse, Array.parseWith, hopen]
  simp only [List.reverse_nil, List.nil_append]
  rw [List.cons_append, hclosed]
  exact helements

theorem arrayParse_empty (depth : Nat) (hw : Blank w) (b r : Bytes) :
    Array.parse (depth + 1) (ready b (chr '[' :: (w ++ chr ']' :: r))) =
      some (some [], ready (chr ']' :: (w.reverse ++ chr '[' :: b)) r) := by
  have hopen := match_char blank_nil (by decide : isspace (chr '[') = false) b
    (w ++ chr ']' :: r)
  have hclose := match_char hw (by decide : isspace (chr ']') = false) (chr '[' :: b) r
  rw [List.nil_append] at hopen
  rw [Array.parse, Array.parseWith, hopen]
  simp only [List.reverse_nil, List.nil_append, hclose]

/-- The same with braces. -/
theorem objectParse_of_members {depth : Nat} {m : Object} (hw : Blank w)
    (ht : ∃ t', t = chr '"' :: t')
    (hmembers : Object.members depth []
        (ready (w.reverse ++ chr '\x7b' :: b) (t ++ chr '\x7d' :: r)) =
      some (some m, ready (chr '\x7d' :: (t.reverse ++ (w.reverse ++ chr '\x7b' :: b))) r)) :
    Object.parse (depth + 1) (ready b (chr '\x7b' :: (w ++ (t ++ chr '\x7d' :: r)))) =
      some (some m, ready (chr '\x7d' :: (t.reverse ++ (w.reverse ++ chr '\x7b' :: b))) r) := by
  obtain ⟨t', rfl⟩ := ht
  have hopen := match_char blank_nil (by decide : isspace (chr '\x7b') = false) b
    (w ++ (chr '"' :: t' ++ chr '\x7d' :: r))
  have hclosed := match_ready_of_ne [] hw (by decide : isspace (chr '"') = false)
    (by decide : chr '"' ≠ chr '\x7d') (by decide) (chr '\x7b' :: b) (t' ++ chr '\x7d' :: r)
  rw [List.nil_append] at hopen
  rw [Object.parse, Object.parseWith, hopen]
  simp only [List.reverse_nil, List.nil_append]
  rw [List.cons_append, hclosed]
  exact hmembers

theorem objectParse_empty (depth : Nat) (hw : Blank w) (b r : Bytes) :
    Object.parse (depth + 1) (ready b (chr '\x7b' :: (w ++ chr '\x7d' :: r))) =
      some (some [], ready (chr '\x7d' :: (w.reverse ++ chr '\x7b' :: b)) r) := by
  have hopen := match_char blank_nil (by decide : isspace (chr '\x7b') = false) b
    (w ++ chr '\x7d' :: r)
  have hclose := match_char hw (by decide : isspace (chr '\x7d') = false) (chr '\x7b' :: b) r
  rw [List.nil_append] at hopen
  rw [Object.parse, Object.parseWith, hopen]
  simp only [List.reverse_nil, List.nil_append, hclose]

theorem exists_quote {ms : List (Bytes × Value)} (h : Members t ms) : ∃ t', t = chr '"' :: t' := by
  cases h <;> exact ⟨_, rfl⟩

theorem exists_start {vs : List Value} (h : Elements t vs) : ∃ c t', t = c :: t' ∧ Starts c := by
  cases h with
  | last h hw =>
      obtain ⟨c, t', rfl, hc⟩ := exists_cons h
      exact ⟨c, _, rfl, hc⟩
  | cons h hw hw' hs =>
      obtain ⟨c, t', rfl, hc⟩ := exists_cons h
      exact ⟨c, _, rfl, hc⟩

mutual

/-- The parser reads a text of the grammar to its end and finds its meaning. -/
theorem parse_denotes : ∀ {t : Bytes} {v : Value}, Denotes t v → ∀ (w b r : Bytes) (depth : Nat),
    Blank w → (∀ n, v = .number n → Follows r) → 3 * t.length ≤ depth + 1 →
    Value.parse (depth + 1) (ready b (w ++ (t ++ r))) =
      some (some v, ready ((w ++ t).reverse ++ b) r)
  | _, _, .number neg l hn, _, b, r, _, hw, hr, _ => by
      have hfollows := hr _ rfl
      rw [Value.parse, parseWith_number _ _ hw neg l hn hfollows.endsLiteral b,
        List.isEmpty_eq_false_iff.mpr hfollows.ne_nil]
      rfl
  | _, _, .string h, _, b, r, _, hw, _, _ => parseWith_string _ _ hw h b r
  | _, _, .boolean x, _, b, r, _, hw, _, _ => parseWith_boolean _ _ x hw b r
  | _, _, .null, _, b, r, _, hw, _, _ => parseWith_null _ _ hw b r
  | _, _, @Denotes.emptyArray w' hw', w, b, r, depth, hw, _, hdepth => by
      obtain ⟨n, rfl⟩ : ∃ n, depth = n + 1 := ⟨depth - 1, by simp at hdepth; omega⟩
      rw [Value.parse, List.cons_append, List.append_assoc, parseWith_open _ _ (Or.inl rfl) hw,
        List.singleton_append, arrayParse_empty n hw']
      simp
  | _, _, @Denotes.array w' t' vs hw' h, w, b, r, depth, hw, _, hdepth => by
      obtain ⟨n, rfl⟩ : ∃ n, depth = n + 1 + 1 := ⟨depth - 2, by simp at hdepth; omega⟩
      have helements := parse_elements h [] [] (w'.reverse ++ chr '[' :: (w.reverse ++ b)) r n
        blank_nil (by simp at hdepth; omega)
      rw [Value.parse, List.cons_append, List.append_assoc, List.append_assoc,
        parseWith_open _ _ (Or.inl rfl) hw, List.singleton_append,
        arrayParse_of_elements hw' (exists_start h) (by simpa using helements)]
      simp
  | _, _, @Denotes.emptyObject w' hw', w, b, r, depth, hw, _, hdepth => by
      obtain ⟨n, rfl⟩ : ∃ n, depth = n + 1 := ⟨depth - 1, by simp at hdepth; omega⟩
      rw [Value.parse, List.cons_append, List.append_assoc, parseWith_open _ _ (Or.inr rfl) hw,
        List.singleton_append, if_neg (by decide), Value.parseObject, objectParse_empty n hw']
      simp
  | _, _, @Denotes.object w' t' ms hw' h, w, b, r, depth, hw, _, hdepth => by
      obtain ⟨n, rfl⟩ : ∃ n, depth = n + 1 + 1 := ⟨depth - 2, by simp at hdepth; omega⟩
      have hmembers := parse_members h [] [] (w'.reverse ++ chr '\x7b' :: (w.reverse ++ b)) r n
        blank_nil (by simp at hdepth; omega)
      rw [Value.parse, List.cons_append, List.append_assoc, List.append_assoc,
        parseWith_open _ _ (Or.inr rfl) hw, List.singleton_append, if_neg (by decide),
        Value.parseObject, objectParse_of_members hw' (exists_quote h) (by simpa using hmembers)]
      simp [Object.ofMembers]

theorem parse_elements : ∀ {t : Bytes} {vs : List Value}, Elements t vs →
    ∀ (acc : List Value) (w b r : Bytes) (depth : Nat), Blank w → 3 * t.length ≤ depth →
    Array.elements (depth + 1) acc (ready b (w ++ (t ++ chr ']' :: r))) =
      some (some (acc ++ vs), ready (chr ']' :: (t.reverse ++ (w.reverse ++ b))) r)
  | _, _, @Elements.last t w' v h hw', acc, w, b, r, depth, hw, hdepth => by
      have hpos := length_pos_of_denotes h
      obtain ⟨n, rfl⟩ : ∃ n, depth = n + 1 := ⟨depth - 1, by simp at hdepth; omega⟩
      have hvalue := parse_denotes h w b (w' ++ chr ']' :: r) n hw
        (fun _ _ => follows_blank hw' (follows_of_mem (Or.inr (Or.inl rfl)) r))
        (by simp at hdepth; omega)
      rw [Array.elements, List.append_assoc, elementsWith_last hw' hvalue]
      simp
  | _, _, @Elements.cons t w' w'' ts v vs h hw' hw'' hs, acc, w, b, r, depth, hw, hdepth => by
      have hpos := length_pos_of_denotes h
      obtain ⟨n, rfl⟩ : ∃ n, depth = n + 1 := ⟨depth - 1, by simp at hdepth; omega⟩
      have hvalue := parse_denotes h w b (w' ++ chr ',' :: (w'' ++ (ts ++ chr ']' :: r))) n hw
        (fun _ _ => follows_blank hw' (follows_of_mem (Or.inl rfl) _)) (by simp at hdepth; omega)
      have hrest := parse_elements hs (acc ++ [v]) w''
        (chr ',' :: (w'.reverse ++ ((w ++ t).reverse ++ b))) r n hw'' (by simp at hdepth; omega)
      have hassoc : t ++ (w' ++ chr ',' :: (w'' ++ ts)) ++ chr ']' :: r =
          t ++ (w' ++ chr ',' :: (w'' ++ (ts ++ chr ']' :: r))) := by simp
      rw [Array.elements, hassoc, elementsWith_cons hw' hvalue, hrest]
      simp

theorem parse_members : ∀ {t : Bytes} {ms : List (Bytes × Value)}, Members t ms →
    ∀ (m : Object) (w b r : Bytes) (depth : Nat), Blank w → 3 * t.length ≤ depth →
    Object.members (depth + 1) m (ready b (w ++ (t ++ chr '\x7d' :: r))) =
      some (some (ms.foldl (fun m kv => m.insert kv.1 kv.2) m),
        ready (chr '\x7d' :: (t.reverse ++ (w.reverse ++ b))) r)
  | _, _, @Members.last k w₁ w₂ t w' key v hk hw₁ hw₂ h hw', m, w, b, r, depth, hw, hdepth => by
      obtain ⟨n, rfl⟩ : ∃ n, depth = n + 1 := ⟨depth - 1, by simp [quoted] at hdepth; omega⟩
      have hvalue := parse_denotes h w₂ (chr ':' :: (w₁.reverse ++ ((w ++ quoted k).reverse ++ b)))
        (w' ++ chr '\x7d' :: r) n hw₂
        (fun _ _ => follows_blank hw' (follows_of_mem (Or.inr (Or.inr rfl)) r))
        (by simp [quoted] at hdepth; omega)
      have hassoc : quoted k ++ (w₁ ++ chr ':' :: (w₂ ++ (t ++ w'))) ++ chr '\x7d' :: r =
          quoted k ++ (w₁ ++ chr ':' :: (w₂ ++ (t ++ (w' ++ chr '\x7d' :: r)))) := by simp
      rw [Object.members, hassoc, membersWith_last hw hk hw₁ hw' hvalue]
      simp
  | _, _, @Members.cons k w₁ w₂ t w' w'' ts key v ms hk hw₁ hw₂ h hw' hw'' hs, m, w, b, r, depth,
      hw, hdepth => by
      obtain ⟨n, rfl⟩ : ∃ n, depth = n + 1 := ⟨depth - 1, by simp [quoted] at hdepth; omega⟩
      have hvalue := parse_denotes h w₂ (chr ':' :: (w₁.reverse ++ ((w ++ quoted k).reverse ++ b)))
        (w' ++ chr ',' :: (w'' ++ (ts ++ chr '\x7d' :: r))) n hw₂
        (fun _ _ => follows_blank hw' (follows_of_mem (Or.inl rfl) _))
        (by simp [quoted] at hdepth; omega)
      have hrest := parse_members hs (m.insert key v) w''
        (chr ',' :: (w'.reverse ++ ((w₂ ++ t).reverse ++
          chr ':' :: (w₁.reverse ++ ((w ++ quoted k).reverse ++ b))))) r n hw''
        (by simp [quoted] at hdepth; omega)
      have hassoc : quoted k ++ (w₁ ++ chr ':' :: (w₂ ++ (t ++ (w' ++ chr ',' :: (w'' ++ ts))))) ++
          chr '\x7d' :: r = quoted k ++ (w₁ ++ chr ':' :: (w₂ ++ (t ++ (w' ++ chr ',' ::
            (w'' ++ (ts ++ chr '\x7d' :: r)))))) := by simp
      rw [Object.members, hassoc, membersWith_cons hw hk hw₁ hw' hvalue, hrest]
      simp

end

/-- A value and anything behind it that does not go on a number. -/
theorem parse_text {v : Value} (h : Denotes t v) (hr : ∀ n, v = .number n → EndsLiteral r)
    (b : Bytes) : ∃ input : IStream,
    Value.parse (callDepth (ready b (t ++ r))) (ready b (t ++ r)) = some (some v, input) ∧
      input.before = t.reverse ++ b ∧ input.rest = r ∧ input.fail = false ∧
      (r ≠ [] → input.good = true) := by
  by_cases hnumber : ∃ n, v = .number n
  · obtain ⟨n, rfl⟩ := hnumber
    cases h with
    | number neg l hn =>
        refine ⟨_, parseWith_number _ _ blank_nil neg l hn (hr n rfl) b, rfl, rfl, rfl,
          fun hne => ?_⟩
        rw [List.isEmpty_eq_false_iff.mpr hne]
        rfl
  · have hdepth : 3 * t.length ≤ 3 * (ready b (t ++ r)).budget + 2 + 1 := by
      rw [Lib.IStream.budget_ready, List.length_append]
      omega
    have hread := parse_denotes h [] b r _ blank_nil (fun n hn => absurd ⟨n, hn⟩ hnumber) hdepth
    exact ⟨_, hread, rfl, rfl, rfl, fun _ => rfl⟩

/-! ### Documents -/

theorem arrayParse_denotes {vs : List Value} (h : Denotes t (.array vs)) (b r : Bytes) (depth : Nat)
    (hdepth : 3 * t.length ≤ depth) :
    Array.parse depth (ready b (t ++ r)) = some (some vs, ready (t.reverse ++ b) r) := by
  cases h with
  | @emptyArray w hw =>
      obtain ⟨n, rfl⟩ : ∃ n, depth = n + 1 := ⟨depth - 1, by simp at hdepth; omega⟩
      rw [List.cons_append, List.append_assoc, List.singleton_append, arrayParse_empty n hw]
      simp
  | @array w t vs hw h =>
      obtain ⟨n, rfl⟩ : ∃ n, depth = n + 1 + 1 := ⟨depth - 2, by simp at hdepth; omega⟩
      have helements := parse_elements h [] [] (w.reverse ++ chr '[' :: b) r n blank_nil
        (by simp at hdepth; omega)
      rw [List.cons_append, List.append_assoc, List.append_assoc, List.singleton_append,
        arrayParse_of_elements hw (exists_start h) (by simpa using helements)]
      simp

theorem objectParse_denotes {m : Object} (h : Denotes t (.object m)) (b r : Bytes) (depth : Nat)
    (hdepth : 3 * t.length ≤ depth) :
    Object.parse depth (ready b (t ++ r)) = some (some m, ready (t.reverse ++ b) r) := by
  cases h with
  | @emptyObject w hw =>
      obtain ⟨n, rfl⟩ : ∃ n, depth = n + 1 := ⟨depth - 1, by simp at hdepth; omega⟩
      rw [List.cons_append, List.append_assoc, List.singleton_append, objectParse_empty n hw]
      simp
  | @object w t ms hw h =>
      obtain ⟨n, rfl⟩ : ∃ n, depth = n + 1 + 1 := ⟨depth - 2, by simp at hdepth; omega⟩
      have hmembers := parse_members h [] [] (w.reverse ++ chr '\x7b' :: b) r n blank_nil
        (by simp at hdepth; omega)
      rw [List.cons_append, List.append_assoc, List.append_assoc, List.singleton_append,
        objectParse_of_members hw (exists_quote h) (by simpa using hmembers)]
      simp [Object.ofMembers]

/-- What `validate` and `reformat` look for. -/
def Value.isDocument : Value → Prop
  | .array _ | .object _ => True
  | _ => False

theorem skipBlank_ready (hw : ∀ c ∈ w, c ≤ 32) (hc : ¬ c ≤ 32) (b r : Bytes) :
    skipBlank (ready b (w ++ c :: r)) = ready (w.reverse ++ b) (c :: r) := by
  induction w generalizing b with
  | nil =>
      rw [skipBlank]
      simp [hc]
  | cons d w ih =>
      have hd := hw d List.mem_cons_self
      rw [skipBlank]
      simp [hd, ih fun c hc => hw c (List.mem_cons_of_mem d hc)]

/-- A document, with white space or control characters before it and anything behind it. -/
theorem parseDocument_text {v : Value} (hw : ∀ c ∈ w, c ≤ 32) (h : Denotes t v)
    (hv : v.isDocument) (r : Bytes) : parseDocument (w ++ (t ++ r)) = some (some v) := by
  cases v with
  | array vs =>
      obtain ⟨t', ht⟩ : ∃ t', t = chr '[' :: t' := by cases h <;> exact ⟨_, rfl⟩
      have hblank := skipBlank_ready hw (by decide : ¬ chr '[' ≤ 32) [] (t' ++ r)
      rw [← List.cons_append, ← ht] at hblank
      have hparse := arrayParse_denotes h (w.reverse ++ []) r
        (callDepth (ready (w.reverse ++ []) (t ++ r))) (by simp [callDepth]; omega)
      have hpeek : (ready (w.reverse ++ []) (t ++ r)).peek =
          (some (chr '['), ready (w.reverse ++ []) (t ++ r)) := by rw [ht]; rfl
      rw [parseDocument, Lib.IStream.ofText, hblank]
      simp only [hpeek, hparse]
      rfl
  | object m =>
      obtain ⟨t', ht⟩ : ∃ t', t = chr '\x7b' :: t' := by cases h <;> exact ⟨_, rfl⟩
      have hblank := skipBlank_ready hw (by decide : ¬ chr '\x7b' ≤ 32) [] (t' ++ r)
      rw [← List.cons_append, ← ht] at hblank
      have hparse := objectParse_denotes h (w.reverse ++ []) r
        (callDepth (ready (w.reverse ++ []) (t ++ r))) (by simp [callDepth]; omega)
      have hpeek : (ready (w.reverse ++ []) (t ++ r)).peek =
          (some (chr '\x7b'), ready (w.reverse ++ []) (t ++ r)) := by rw [ht]; rfl
      rw [parseDocument, Lib.IStream.ofText, hblank]
      simp only [hpeek, hparse]
      rfl
  | _ => exact absurd hv id

end Dummyload.Json
