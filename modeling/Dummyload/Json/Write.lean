import Dummyload.Json.Jsonxx

/-!
# Dummyload.Json.Write

The two ways in which `examples/procmon/jsonxx.cc` writes a value: `json()`, with a line for every
element and 19 digits, and `operator<<`, on one line and with the digits of the
stream. Each has its own way of escaping strings. The streams are fresh ones.

`tag` ends every element with a comma; what encloses the elements overwrites the
last one with a blank. Then `validate` and `reformat`, which read before they write.
-/

namespace Dummyload.Json

/-- `std::hex << std::setw(4) << std::setfill('0') << i`. -/
def hex4 (i : Nat) : Bytes :=
  let ds := (Nat.toDigits 16 i).map chr
  List.replicate (4 - ds.length) (chr '0') ++ ds

/-- The escapes of one letter. -/
def shortEscape (b : Byte) : Option Byte :=
  if b = chr '"' then some (chr '"')
  else if b = chr '\\' then some (chr '\\')
  else if b = chr '/' then some (chr '/')
  else if b = 8 then some (chr 'b')
  else if b = 12 then some (chr 'f')
  else if b = 10 then some (chr 'n')
  else if b = 13 then some (chr 'r')
  else if b = 9 then some (chr 't')
  else none

/-! ### `json()` -/

/-- An entry of the table of `escape_string`. -/
def escapeChar (b : Byte) : Bytes :=
  match shortEscape b with
  | some e => [chr '\\', e]
  | none => if b < 32 then ascii "\\u" ++ hex4 b.toNat else [b]

/-- `escape_string(input)`. -/
def escapeString (input : Bytes) : Bytes := input.flatMap escapeChar

/-- `remove_last_comma`. -/
def removeLastComma (input : Bytes) : Bytes :=
  if 2 < input.length ∧ input[input.length - 2]? = some (chr ',') then
    input.set (input.length - 2) (chr ' ')
  else input

def quoted (s : Bytes) : Bytes := chr '"' :: (s ++ [chr '"'])

/-- What `tag` writes before the value. -/
def tagName (depth : Nat) (name : Bytes) : Bytes :=
  let tab := List.replicate depth (chr '\t')
  if name ≠ [] then tab ++ quoted (escapeString name) ++ ascii ": " else tab

mutual

/-- `tag(format, depth, name, t)`. -/
def tag (depth : Nat) (name : Bytes) : Value → Bytes
  | .null | .invalid => tagName depth name ++ ascii "null" ++ ascii ",\n"
  | .boolean b => tagName depth name ++ ascii (if b then "true" else "false") ++ ascii ",\n"
  | .array vs =>
    removeLastComma (tagName depth name ++ ascii "[\n" ++ tagElements (depth + 1) vs) ++
      List.replicate depth (chr '\t') ++ ascii "]" ++ ascii ",\n"
  | .string s => tagName depth name ++ quoted (escapeString s) ++ ascii ",\n"
  | .object m =>
    removeLastComma (tagName depth name ++ ascii "\x7b\n" ++ tagMembers (depth + 1) m) ++
      List.replicate depth (chr '\t') ++ ascii "\x7d" ++ ascii ",\n"
  | .number n => tagName depth name ++ numPut 19 n ++ ascii ",\n"

def tagElements (depth : Nat) : List Value → Bytes
  | [] => []
  | v :: vs => tag depth [] v ++ tagElements depth vs

def tagMembers (depth : Nat) : Object → Bytes
  | [] => []
  | (name, v) :: m => tag depth name v ++ tagMembers depth m

end

/-- `Array::json()`. -/
def Array.json (vs : List Value) : Bytes := removeLastComma (tag 0 [] (.array vs))

/-- `Object::json()`. -/
def Object.json (m : Object) : Bytes := removeLastComma (tag 0 [] (.object m))

/-! ### `operator<<` -/

/-- A character of `stream_string`. A `char` is signed: from 128 on it is less than 32. -/
def streamChar (b : Byte) : Bytes :=
  match shortEscape b with
  | some e => [chr '\\', e]
  | none =>
    if b < 32 then ascii "\\u" ++ hex4 b.toNat
    else if 128 ≤ b then ascii "\\u" ++ hex4 (2 ^ 32 - 256 + b.toNat)
    else [b]

/-- `stream_string(stream, string)`. -/
def streamString (string : Bytes) : Bytes := quoted (string.flatMap streamChar)

mutual

/-- `stream << v`, with a precision of `p`. -/
def stream (p : Nat) : Value → Bytes
  | .number n => numPut p n
  | .string s => streamString s
  | .boolean b => ascii (if b then "true" else "false")
  | .null => ascii "null"
  | .object m => ascii "\x7b" ++ streamMembers p m ++ ascii "\x7d"
  | .array vs => ascii "[" ++ streamElements p vs ++ ascii "]"
  | .invalid => []

def streamElements (p : Nat) : List Value → Bytes
  | [] => []
  | [v] => stream p v
  | v :: vs => stream p v ++ ascii ", " ++ streamElements p vs

def streamMembers (p : Nat) : Object → Bytes
  | [] => []
  | [(key, v)] => streamString key ++ ascii ": " ++ stream p v
  | (key, v) :: m => streamString key ++ ascii ": " ++ stream p v ++ ascii ", " ++ streamMembers p m

end

/-! ### From text to text -/

/-- `for( char ch(0); !input.eof() && input.peek() <= 32; ) input.get(ch);` in a stream that
is good until its end. -/
def skipBlank (input : IStream) : IStream :=
  if _h : input.good then
    if input.peek.1.all (· ≤ 32) then skipBlank (input.get 0).2 else input
  else input
termination_by input.budget
decreasing_by exact Lib.IStream.budget_get_lt 0 _h

/-- How deep the calls of the parser go at most. -/
def callDepth (input : IStream) : Nat := 3 * input.budget + 3

/-- What `validate` and `reformat` read of a text: an object or an array. -/
def parseDocument (text : Bytes) : Option (Option Value) :=
  let input := skipBlank (Lib.IStream.ofText text)
  let (c, input) := input.peek
  if c = some (chr '\x7b') then
    (Object.parse (callDepth input) input).map fun out => out.1.map Value.object
  else
    let (c, input) := input.peek
    if c = some (chr '[') then
      (Array.parse (callDepth input) input).map fun out => out.1.map Value.array
    else some none

/-- `o.json()` or `a.json()`. -/
def Value.json : Value → Bytes
  | .object m => Object.json m
  | .array vs => Array.json vs
  | _ => []

/-- `validate(input)`. -/
def validate (text : Bytes) : Option Bool := (parseDocument text).map Option.isSome

/-- `reformat(input)`. -/
def reformat (text : Bytes) : Option Bytes := (parseDocument text).map fun v => v.elim [] Value.json

end Dummyload.Json
