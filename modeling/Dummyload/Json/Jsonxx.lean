import Dummyload.FloatText
import Dummyload.Lib.IStream

/-!
# Dummyload.Json.Jsonxx

The JSON values of `examples/procmon/jsonxx.{h,cc}` and their parser, with the settings
of `jsonxx.h`: permissive, keys in quotes.

The parser reads a stream with one character of lookahead. A token that does not
match is put back character by character; a value that does not parse is not, except for a
number. In permissive mode `//` starts a comment wherever a token is looked for,
a string may be in single quotes, an element may be left out, and a comma may stand
behind the last one.

The functions that call each other take the depth of calls they may make; `Json.Returns`
shows that three times the length of the text is enough.
-/

namespace Dummyload.Json

/-! ### Values -/

/-- `Value`. An object is the list of its members, with the keys in order (`std::map`). -/
inductive Value
  | number (n : LongDouble)
  | string (s : Bytes)
  | boolean (b : Bool)
  | null
  | array (vs : List Value)
  | object (m : List (Bytes × Value))
  /-- `INVALID_`, the type of a value nothing was assigned to. -/
  | invalid

/-- `value_map_` of an `Object`. -/
abbrev Object := List (Bytes × Value)

/-- `value_map_[key] = v`. -/
def Object.insert (key : Bytes) (v : Value) : Object → Object
  | [] => [(key, v)]
  | (k, w) :: m =>
    if key = k then (key, v) :: m
    else if key < k then (key, v) :: (k, w) :: m
    else (k, w) :: Object.insert key v m

/-- `o << value`: the map of `o`, and `odd`, the key that waits for its value. A key that is
no string fails an assertion. -/
def Object.shift (o : Object × Bytes) (value : Value) : Option (Object × Bytes) :=
  if o.2 = [] then
    match value with
    | .string s => some (o.1, s)
    | _ => none
  else some (o.1.insert o.2 value, [])

/-! ### Tokens -/

abbrev IStream := Lib.IStream Byte

namespace IStream

/-- `input >> std::ws`. -/
abbrev ws (input : IStream) : IStream := Lib.IStream.ws isspace input

end IStream

/-- The characters up to a line break, in a stream that is good until its end. -/
def skipLine (input : IStream) : IStream :=
  if h : input.good then
    let c := input.peek.1
    if c = some 13 ∨ c = some 10 then input
    else skipLine (input.get 0).2
  else input
termination_by input.budget
decreasing_by exact Lib.IStream.budget_get_lt 0 h

/-- `parse_comment`. `parser_is_permissive()` holds. -/
def parseComment (input : IStream) : Bool × IStream :=
  if input.eofbit then (false, input)
  else
    let (c, input) := input.peek
    if c = some (chr '/') then
      let (ch0, input) := input.get 0
      if input.eofbit then (false, input.unget.clear)
      else
        let (ch1, input) := input.get 0
        if ch0 = chr '/' ∧ ch1 = chr '/' then
          let input := skipLine input
          (true, if input.eofbit then input else input.ws)
        else (false, input.unget.clear.unget.clear)
    else (false, input)

open Lib.IStream (ready eq_ready budget_get_lt budget_putback_le after_get after_peek after_ws)

theorem after_skipLine (input : IStream) : (skipLine input).After input := by
  fun_induction skipLine input with
  | case1 input h c hc => exact .refl input
  | case2 input h c hc ih => exact ih.trans (after_get 0 input)
  | case3 input h => exact .refl input

/-- Without a slash nothing happens. -/
theorem parseComment_of_ne {c : Byte} (hc : c ≠ chr '/') (b r : Bytes) :
    parseComment (ready b (c :: r)) = (false, ready b (c :: r)) := by
  simp [parseComment, hc]

/-- A comment takes two characters at least; where there is none, nothing is lost or gained. -/
theorem parseComment_spec (input : IStream) : (parseComment input).2.After input ∧
    ((parseComment input).1 = true → (parseComment input).2.budget + 2 ≤ input.budget) := by
  have hnone {out : Bool × IStream} (h : out.1 = false) (hafter : out.2.After input) :
      out.2.After input ∧ (out.1 = true → out.2.budget + 2 ≤ input.budget) :=
    ⟨hafter, fun htrue => absurd (h.symm.trans htrue) Bool.false_ne_true⟩
  by_cases hgood : input.good = true
  · rw [eq_ready hgood] at hnone ⊢
    generalize input.before = b at hnone ⊢
    generalize input.rest = r at hnone ⊢
    cases r with
    | nil => exact hnone rfl (.of_good rfl le_rfl)
    | cons c r =>
        by_cases hc : c = chr '/'
        · subst hc
          cases r with
          | nil => exact hnone rfl (.of_good rfl le_rfl)
          | cons d r =>
              by_cases hd : d = chr '/'
              · subst hd
                have hskip := after_skipLine (ready (chr '/' :: chr '/' :: b) r)
                have hws := (after_ws isspace _).trans hskip
                have hresult : parseComment (ready b (chr '/' :: chr '/' :: r)) =
                    (true, if (skipLine (ready (chr '/' :: chr '/' :: b) r)).eofbit then
                      skipLine (ready (chr '/' :: chr '/' :: b) r)
                    else (skipLine (ready (chr '/' :: chr '/' :: b) r)).ws) := rfl
                have hafter : (parseComment (ready b (chr '/' :: chr '/' :: r))).2.After
                    (ready (chr '/' :: chr '/' :: b) r) := by
                  rw [hresult]
                  dsimp only
                  split
                  · exact hskip
                  · exact hws
                have hbudget := hafter.budget_le
                refine ⟨hafter.trans (.of_good rfl ?_), fun _ => ?_⟩
                · simp only [Lib.IStream.rest_ready, List.length_cons]
                  omega
                · simp only [Lib.IStream.budget_ready, List.length_cons] at hbudget ⊢
                  omega
              · have hresult : parseComment (ready b (chr '/' :: d :: r)) =
                    (false, ready b (chr '/' :: d :: r)) := by
                  simp [parseComment, hd]
                  rfl
                rw [hresult]
                exact hnone rfl (.refl _)
        · rw [parseComment_of_ne hc]
          exact hnone rfl (.refl _)
  · have hend : input.peek.1 = none := by rw [Lib.IStream.peek, if_neg hgood]
    rw [parseComment]
    split
    · exact hnone rfl (.refl input)
    · simp only [hend]
      exact hnone rfl (after_peek input)

/-- The loop of `match` after the white space: `matched` is what was read of the pattern, the
last character first. -/
def matchFrom : Bytes → Bytes → Byte → IStream → Bool × IStream
  | _, [], _, input => (true, input)
  | matched, p :: ps, ch, input =>
    if _h : input.good then
      let ch' := (input.get ch).1
      let next := (input.get ch).2
      if ch' ≠ p then
        let comment := parseComment (next.putback ch')
        if _hc : comment.1 then matchFrom matched (p :: ps) ch' comment.2
        else (false, matched.foldl (fun input c => input.putback c) comment.2)
      else matchFrom (p :: matched) ps ch' next
    else (false, input)
termination_by _ _ _ input => input.budget
decreasing_by
  · have hlt := budget_get_lt ch _h
    have hback := budget_putback_le (input.get ch).1 (input.get ch).2
    have hcomment := (parseComment_spec ((input.get ch).2.putback (input.get ch).1)).2 _hc
    omega
  · exact budget_get_lt ch _h

/-- `match(pattern, input)`. -/
def match_ (pattern : Bytes) (input : IStream) : Bool × IStream :=
  matchFrom [] pattern 0 input.ws

/-! ### Strings -/

def isxdigit (c : Byte) : Bool :=
  isdigit c || (chr 'a' ≤ c && c ≤ chr 'f') || (chr 'A' ≤ c && c ≤ chr 'F')

/-- The value of a hexadecimal digit. -/
def hexValue (c : Byte) : Nat :=
  if isdigit c then c.toNat - 48 else if chr 'a' ≤ c then c.toNat - 87 else c.toNat - 55

def hexadecimal (ds : Bytes) : Nat := ds.foldl (fun n d => 16 * n + hexValue d) 0

/-- `ss >> i` of an `int`, in base 16: white space, a sign, `0x`, digits. -/
def readHex (ss : Bytes) : Option Int :=
  let ss := ss.dropWhile isspace
  let (neg, k) := scanSign ss
  let ss := ss.drop k
  let ss := if ss.take 2 = ascii "0x" ∨ ss.take 2 = ascii "0X" then ss.drop 2 else ss
  let ds := ss.takeWhile isxdigit
  if ds = [] then none else some (if neg then -hexadecimal ds else hexadecimal ds)

/-- `static_cast<char>(i)`. -/
def toChar (i : Int) : Byte := (i % 256).toNat.toUInt8

/-- The loop that takes `n` characters more for `\u`: the last one, all of them and the stream. -/
def takeHex : Nat → Byte → Bytes → IStream → Byte × Bytes × IStream
  | 0, ch, ss, input => (ch, ss, input)
  | n + 1, ch, ss, input =>
    if input.good then takeHex n (input.get ch).1 (ss ++ [(input.get ch).1]) (input.get ch).2
    else (ch, ss, input)

/-- `\u`. Without a digit it means nothing. -/
def parseUnicode (value : Bytes) (ch : Byte) (input : IStream) : Bytes × Byte × IStream :=
  let (ch, ss, input) := takeHex 4 ch [] input
  match readHex ss with
  | some i => if input.good then (value ++ [toChar i], ch, input) else (value, ch, input)
  | none => (value, ch, input)

/-- What stands behind a backslash: `value` with the character or characters it means, `ch`,
and the stream. -/
def parseEscape (delimiter : Byte) (value : Bytes) (ch : Byte) (input : IStream) :
    Bytes × Byte × IStream :=
  let (ch, input) := input.get ch
  if ch = chr '\\' ∨ ch = chr '/' then (value ++ [ch], ch, input)
  else if ch = chr 'b' then (value ++ [8], ch, input)
  else if ch = chr 'f' then (value ++ [12], ch, input)
  else if ch = chr 'n' then (value ++ [10], ch, input)
  else if ch = chr 'r' then (value ++ [13], ch, input)
  else if ch = chr 't' then (value ++ [9], ch, input)
  else if ch = chr 'u' then parseUnicode value ch input
  else if ch ≠ delimiter then (value ++ [chr '\\', ch], ch, input)
  else (value ++ [ch], ch, input)

theorem after_takeHex (n : Nat) (ch : Byte) (ss : Bytes) (input : IStream) :
    (takeHex n ch ss input).2.2.After input := by
  induction n generalizing ch ss input with
  | zero => exact .refl input
  | succ n ih =>
      rw [takeHex]
      split
      · exact (ih ..).trans (after_get ch input)
      · exact .refl input

theorem after_parseEscape (delimiter : Byte) (value : Bytes) (ch : Byte) (input : IStream) :
    (parseEscape delimiter value ch input).2.2.After input := by
  have hget := after_get ch input
  have hhex := (after_takeHex 4 (input.get ch).1 [] (input.get ch).2).trans hget
  simp only [parseEscape, parseUnicode]
  repeat' split
  all_goals assumption

/-- The loop of `parse_string`: the characters of the string, the last one read and the
stream. -/
def stringLoop (delimiter : Byte) (value : Bytes) (ch : Byte) (input : IStream) :
    Bytes × Byte × IStream :=
  if _h : input.good then
    let ch' := (input.get ch).1
    let next := (input.get ch).2
    if ch' = delimiter then (value, ch', next)
    else if ch' = chr '\\' then
      let escape := parseEscape delimiter value ch' next
      stringLoop delimiter escape.1 escape.2.1 escape.2.2
    else stringLoop delimiter (value ++ [ch']) ch' next
  else (value, ch, input)
termination_by input.budget
decreasing_by
  · exact (after_parseEscape ..).budget_le.trans_lt (budget_get_lt ch _h)
  · exact budget_get_lt ch _h

/-- The test at the end of `parse_string`. -/
def endString (delimiter : Byte) (out : Bytes × Byte × IStream) : Option Bytes × IStream :=
  let (value, ch, input) := out
  (if !input.fail && ch == delimiter then some value else none, input)

/-- `parse_string`; `none` is `false`. -/
def parseString (input : IStream) : Option Bytes × IStream :=
  let (quote, input) := match_ [chr '"'] input
  if quote then endString (chr '"') (stringLoop (chr '"') [] 0 input)
  else
    let (c, input) := input.peek
    if c = some (chr '\'') then
      let (ch, input) := input.get 0
      endString (chr '\'') (stringLoop (chr '\'') [] ch input)
    else (none, input)

/-! ### Numbers, constants -/

/-- `parse_number`. -/
def parseNumber (input : IStream) : Option LongDouble × IStream :=
  let input := input.ws
  let (rollback, input) := input.tellg
  let (value, input) := input.extract isspace numGet
  if input.fail then (none, input.clear.seekg rollback) else (value, input)

/-- `parse_bool`. -/
def parseBool (input : IStream) : Option Bool × IStream :=
  let (yes, input) := match_ (ascii "true") input
  if yes then (some true, input)
  else
    let (no, input) := match_ (ascii "false") input
    (if no then some false else none, input)

/-- `parse_null`. An element may be left out before a comma. -/
def parseNull (input : IStream) : Bool × IStream :=
  let (null, input) := match_ (ascii "null") input
  if null then (true, input)
  else
    let (c, input) := input.peek
    (c = some (chr ','), input)

/-! ### Values, arrays, objects

What each of the functions does is stated with the functions it calls as parameters. -/

/-- A parsing function: `none` if the calls go too deep, else its result (`none` is `false`)
and the stream. -/
abbrev Parser (α : Type) := IStream → Option (Option α × IStream)

/-- The end of an array or object: `close` must stand there. -/
def closeWith {α : Type} (close : Char) (x : α) (input : IStream) : Option (Option α × IStream) :=
  let (closed, input) := match_ [chr close] input
  some (if closed then some x else none, input)

/-- The last attempt of `Value::parse`. -/
def Value.parseObject (object : Parser Object) : Parser Value := fun input =>
  (object input).map fun (m, input) => (m.map .object, input)

/-- `Value::parse`. -/
def Value.parseWith (array : Parser (List Value)) (object : Parser Object) : Parser Value :=
  fun input =>
  match parseString input with
  | (some s, input) => some (some (.string s), input)
  | (none, input) =>
  match parseNumber input with
  | (some n, input) => some (some (.number n), input)
  | (none, input) =>
  match parseBool input with
  | (some b, input) => some (some (.boolean b), input)
  | (none, input) =>
  match parseNull input with
  | (true, input) => some (some .null, input)
  | (false, input) =>
  match input.peek with
  | (c, input) =>
    if c = some (chr '[') then
      match array input with
      | none => none
      | some (some vs, input) => some (some (.array vs), input)
      | some (none, input) => Value.parseObject object input
    else Value.parseObject object input

/-- `Array::parse`. -/
def Array.parseWith (elements : List Value → Parser (List Value)) : Parser (List Value) :=
  fun input =>
  match match_ [chr '['] input with
  | (false, input) => some (none, input)
  | (true, input) =>
  match match_ [chr ']'] input with
  | (true, input) => some (some [], input)
  | (false, input) => elements [] input

/-- Its loop. An element that does not parse ends it. -/
def Array.elementsWith (value : Parser Value) (again : List Value → Parser (List Value))
    (values : List Value) : Parser (List Value) := fun input =>
  match value input with
  | none => none
  | some (none, input) => closeWith ']' values input
  | some (some v, input) =>
  match match_ [chr ','] input with
  | (true, input) => again (values ++ [v]) input
  | (false, input) => closeWith ']' (values ++ [v]) input

/-- `Object::parse`. -/
def Object.parseWith (members : Object → Parser Object) : Parser Object := fun input =>
  match match_ [chr '\x7b'] input with
  | (false, input) => some (none, input)
  | (true, input) =>
  match match_ [chr '\x7d'] input with
  | (true, input) => some (some [], input)
  | (false, input) => members [] input

/-- Its loop. A key that is there already gets the new value. -/
def Object.membersWith (value : Parser Value) (again : Object → Parser Object) (object : Object) :
    Parser Object := fun input =>
  match parseString input with
  | (none, input) =>
    match input.peek with
    | (c, input) =>
      if c = some (chr '\x7d') then closeWith '\x7d' object input else some (none, input)
  | (some key, input) =>
  match match_ [chr ':'] input with
  | (false, input) => some (none, input)
  | (true, input) =>
  match value input with
  | none => none
  | some (none, input) => closeWith '\x7d' object input
  | some (some v, input) =>
  match match_ [chr ','] input with
  | (true, input) => again (object.insert key v) input
  | (false, input) => closeWith '\x7d' (object.insert key v) input

mutual

def Value.parse : Nat → Parser Value
  | 0 => fun _ => none
  | depth + 1 => Value.parseWith (Array.parse depth) (Object.parse depth)

def Array.parse : Nat → Parser (List Value)
  | 0 => fun _ => none
  | depth + 1 => Array.parseWith (Array.elements depth)

def Array.elements : Nat → List Value → Parser (List Value)
  | 0 => fun _ _ => none
  | depth + 1 => Array.elementsWith (Value.parse depth) (Array.elements depth)

def Object.parse : Nat → Parser Object
  | 0 => fun _ => none
  | depth + 1 => Object.parseWith (Object.members depth)

def Object.members : Nat → Object → Parser Object
  | 0 => fun _ _ => none
  | depth + 1 => Object.membersWith (Value.parse depth) (Object.members depth)

end

end Dummyload.Json
