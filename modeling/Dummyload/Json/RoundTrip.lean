import Dummyload.Json.Returns

/-!
# Dummyload.Json.RoundTrip

What is written is read back. The text of `json()` is one of the grammar, whatever bytes the strings
hold, if no key is empty: `tag` takes an empty name for no name and leaves the key
out. The text of `operator<<` is one if all strings are ASCII; of another string
`stream_string` writes something longer, since it escapes bytes from 128 on as negative
numbers of eight digits and `parse_string` takes four.

A number is read back as it was written, with 19 digits or with those of the stream:
`Value.rounded`.
-/

namespace Dummyload.Json

open Lib.IStream (ready)

/-! ### Values that can be written -/

/-- All numbers, keys and strings of a value are such. -/
inductive All (N : LongDouble → Prop) (K S : Bytes → Prop) : Value → Prop
  | number {n : LongDouble} (h : N n) : All N K S (.number n)
  | string {s : Bytes} (h : S s) : All N K S (.string s)
  | boolean (b : Bool) : All N K S (.boolean b)
  | null : All N K S .null
  | array {vs : List Value} (h : ∀ v ∈ vs, All N K S v) : All N K S (.array vs)
  | object {m : Object} (hkeys : ∀ kv ∈ m, K kv.1) (h : ∀ kv ∈ m, All N K S kv.2) :
      All N K S (.object m)

mutual

/-- The value with its numbers as they are read back. -/
def Value.rounded (p : Nat) : Value → Value
  | .number n => .number (n.rounded p)
  | .array vs => .array (roundedElements p vs)
  | .object m => .object (roundedMembers p m)
  | v => v

def roundedElements (p : Nat) : List Value → List Value
  | [] => []
  | v :: vs => v.rounded p :: roundedElements p vs

def roundedMembers (p : Nat) : Object → Object
  | [] => []
  | (key, v) :: m => (key, v.rounded p) :: roundedMembers p m

end

variable {v : Value} {vs : List Value} {m : Object} {p : Nat} {s : Bytes}

/-! ### Strings and numbers -/

theorem hexDigit_spec : ∀ d < 16, isxdigit (chr (Nat.digitChar d)) = true ∧
    hexValue (chr (Nat.digitChar d)) = d ∧
    chr (Nat.digitChar d) ≠ chr '"' ∧ chr (Nat.digitChar d) ≠ chr '\\' := by
  decide +kernel

/-- The last two of the digits. -/
theorem toDigits_byte {n k : Nat} (hk : k < 256) (hn : 0 < n) :
    Nat.toDigits 16 (256 * n + k) =
      Nat.toDigits 16 n ++ [Nat.digitChar (k / 16), Nat.digitChar (k % 16)] := by
  have hhigh : k / 16 < 16 := by omega
  have hsplit : 256 * n + k = 16 * (16 * n + k / 16) + k % 16 := by omega
  rw [hsplit, ← Nat.toDigits_append_toDigits (by decide) (by omega) (Nat.mod_lt k (by decide)),
    ← Nat.toDigits_append_toDigits (by decide) hn hhigh, Nat.toDigits_of_lt_base hhigh,
    Nat.toDigits_of_lt_base (Nat.mod_lt k (by decide)), List.append_assoc]
  rfl

theorem hex4_byte {k : Nat} (hk : k < 256) :
    hex4 k = [chr '0', chr '0', chr (Nat.digitChar (k / 16)), chr (Nat.digitChar (k % 16))] := by
  rw [hex4]
  by_cases h : k < 16
  · rw [Nat.toDigits_of_lt_base h, Nat.div_eq_of_lt h, Nat.mod_eq_of_lt h]
    rfl
  · have hdiv : k / 16 < 16 := by omega
    rw [Nat.toDigits_of_base_le (by decide) (Nat.not_lt.mp h), Nat.toDigits_of_lt_base hdiv]
    rfl

theorem hex4_spec (b : Byte) : (hex4 b.toNat).length = 4 ∧
    (∀ d ∈ hex4 b.toNat, isxdigit d = true) ∧ hexadecimal (hex4 b.toNat) = b.toNat := by
  have hb := b.toNat_lt
  rw [hex4_byte hb]
  obtain ⟨hzero, hzeroValue, -⟩ := hexDigit_spec 0 (by decide)
  obtain ⟨hhigh, hhighValue, -⟩ := hexDigit_spec (b.toNat / 16) (by omega)
  obtain ⟨hlow, hlowValue, -⟩ := hexDigit_spec (b.toNat % 16) (by omega)
  refine ⟨rfl, ?_, ?_⟩
  · simp only [List.forall_mem_cons, List.not_mem_nil, false_implies, implies_true, and_true]
    exact ⟨hzero, hzero, hhigh, hlow⟩
  · rw [show Nat.digitChar 0 = '0' from rfl] at hzeroValue
    simp only [hexadecimal, List.foldl_cons, List.foldl_nil, hzeroValue, hhighValue, hlowValue]
    omega

theorem toChar_toNat (b : Byte) : toChar (b.toNat : Int) = b := by
  have hb := b.toNat_lt
  have hmod : ((b.toNat : Int) % 256).toNat = b.toNat := by omega
  rw [toChar, hmod]
  exact UInt8.ofNat_toNat

theorem shortEscape_of_special {b : Byte} (h : shortEscape b = none) :
    b ≠ chr '"' ∧ b ≠ chr '\\' := by
  constructor <;> rintro rfl <;> exact absurd h (by decide)

/-- One character, escaped, and more behind it. -/
theorem stringBody_escapeChar (b : Byte) {t : Bytes} (h : StringBody t s) :
    StringBody (escapeChar b ++ t) (b :: s) := by
  rw [escapeChar]
  cases hshort : shortEscape b with
  | some e => exact .escape hshort h
  | none =>
      obtain ⟨hquote, hslash⟩ := shortEscape_of_special hshort
      by_cases hb : b < 32
      · obtain ⟨hlen, hdigits, hvalue⟩ := hex4_spec b
        have hlt : b.toNat < 32 := UInt8.lt_iff_toNat_lt.mp hb
        have hbody := StringBody.unicode hlen hdigits (by omega) h
        rw [hvalue, toChar_toNat] at hbody
        dsimp only
        rw [if_pos hb]
        exact hbody
      · dsimp only
        rw [if_neg hb]
        exact .raw (UInt8.not_lt.mp hb) hquote hslash h

theorem stringBody_escapeString (s : Bytes) : StringBody (escapeString s) s := by
  induction s with
  | nil => exact .nil
  | cons b s ih => exact stringBody_escapeChar b ih

theorem denotes_numPut {n : LongDouble} (h : InRange p n) :
    Denotes (numPut p n) (.number (n.rounded p)) := by
  obtain ⟨neg, l, htext, hvalue⟩ := exists_literal_numPut h
  rw [htext]
  exact .number neg l hvalue

/-! ### Objects -/

theorem insert_of_lt {key : Bytes} (h : ∀ kv ∈ m, kv.1 < key) :
    m.insert key v = m ++ [(key, v)] := by
  induction m with
  | nil => rfl
  | cons kw m ih =>
      obtain ⟨k, w⟩ := kw
      have hk : k < key := h (k, w) List.mem_cons_self
      have hne : key ≠ k := fun heq => Std.lt_irrefl (heq ▸ hk : key < key)
      have hnlt : ¬ key < k := fun hlt => Std.lt_irrefl (List.lt_trans hlt hk)
      rw [Object.insert, if_neg hne, if_neg hnlt,
        ih fun kv hkv => h kv (List.mem_cons_of_mem _ hkv)]
      rfl

theorem foldl_insert {m' : Object} (h : Object.Sorted (m ++ m')) :
    m'.foldl (fun m kv => m.insert kv.1 kv.2) m = m ++ m' := by
  induction m' generalizing m with
  | nil => simp
  | cons kv m' ih =>
      have hsplit := h
      rw [Object.Sorted, List.map_append, List.map_cons] at hsplit
      obtain ⟨-, -, hlt⟩ := List.pairwise_append.mp hsplit
      have hinsert : m.insert kv.1 kv.2 = m ++ [kv] := insert_of_lt fun kw hkw =>
        hlt kw.1 (List.mem_map_of_mem hkw) kv.1 List.mem_cons_self
      rw [List.foldl_cons, hinsert, ih (by rwa [List.append_assoc]), List.append_assoc]
      rfl

/-- The members of an object in their order make the object. -/
theorem ofMembers_of_sorted (h : m.Sorted) : Object.ofMembers m = m := foldl_insert (m := []) h

theorem keys_roundedMembers (p : Nat) (m : Object) :
    (roundedMembers p m).map Prod.fst = m.map Prod.fst := by
  induction m with
  | nil => rfl
  | cons kv m ih => exact congrArg (kv.1 :: ·) ih

theorem Object.Sorted.rounded (h : m.Sorted) (p : Nat) : Object.Sorted (roundedMembers p m) := by
  rw [Object.Sorted, keys_roundedMembers]
  exact h

/-! ### `json()` -/

/-- What `json()` can write so that it is read back. -/
abbrev Writable (v : Value) : Prop := All (InRange 19) (· ≠ []) (fun _ => True) v

theorem blank_tabs (depth : Nat) : Blank (List.replicate depth (chr '\t')) := by
  intro c hc
  exact Or.inr (Or.inl (List.eq_of_mem_replicate hc))

theorem blank_newline : Blank [chr '\n'] := by
  intro c hc
  exact Or.inr (Or.inr (Or.inl (List.mem_singleton.mp hc)))

theorem Blank.append {w w' : Bytes} (hw : Blank w) (hw' : Blank w') : Blank (w ++ w') :=
  fun c hc => (List.mem_append.mp hc).elim (hw c) (hw' c)

theorem blank_space : Blank [chr ' '] := by
  intro c hc
  exact Or.inl (List.mem_singleton.mp hc)

theorem ascii_comma : ascii ",\n" = [chr ',', chr '\n'] := rfl

/-- The comma behind the last element becomes a blank. -/
theorem removeLastComma_comma {x : Bytes} (hx : x ≠ []) :
    removeLastComma (x ++ ascii ",\n") = x ++ [chr ' ', chr '\n'] := by
  have hlen : (x ++ [chr ',', chr '\n']).length - 2 = x.length := by simp
  have hpos := List.length_pos_iff.mpr hx
  rw [ascii_comma, removeLastComma, hlen]
  simp [hpos]

/-- Without elements there is no comma to remove. -/
theorem removeLastComma_open {c : Byte} (hc : c ≠ chr ',') (x : Bytes) :
    removeLastComma (x ++ [c, chr '\n']) = x ++ [c, chr '\n'] := by
  have hlen : (x ++ [c, chr '\n']).length - 2 = x.length := by simp
  rw [removeLastComma, hlen]
  simp [hc]

/-- What `tag` writes of a value, between its name and the comma. -/
def Tagged (v w : Value) : Prop :=
  ∀ depth name, ∃ t, tag depth name v = tagName depth name ++ (t ++ ascii ",\n") ∧ Denotes t w

theorem tagElements_elements (hne : vs ≠ []) (h : ∀ v ∈ vs, Tagged v (v.rounded 19)) (depth : Nat) :
    ∃ t, tagElements depth vs = List.replicate depth (chr '\t') ++ (t ++ ascii ",\n") ∧
      ∀ w, Blank w → Elements (t ++ w) (roundedElements 19 vs) := by
  induction vs with
  | nil => exact absurd rfl hne
  | cons v vs ih =>
      obtain ⟨t, htext, hdenotes⟩ := h v List.mem_cons_self depth []
      have hname : tagName depth [] = List.replicate depth (chr '\t') := rfl
      rw [hname] at htext
      by_cases hvs : vs = []
      · subst hvs
        exact ⟨t, by rw [tagElements, tagElements, htext, List.append_nil], fun w hw =>
          .last hdenotes hw⟩
      · obtain ⟨t', htext', helements⟩ := ih hvs fun v hv => h v (List.mem_cons_of_mem _ hv)
        have hblank := blank_newline.append (blank_tabs depth)
        refine ⟨t ++ ([] ++ chr ',' :: ([chr '\n'] ++ List.replicate depth (chr '\t') ++ t')), ?_,
          fun w hw => ?_⟩
        · rw [tagElements, htext, htext']
          simp [ascii_comma]
        · have := Elements.cons hdenotes blank_nil hblank (helements w hw)
          simpa [roundedElements] using this

theorem tagMembers_members (hne : m ≠ []) (hnames : ∀ kv ∈ m, kv.1 ≠ [])
    (h : ∀ kv ∈ m, Tagged kv.2 (kv.2.rounded 19)) (depth : Nat) :
    ∃ t, tagMembers depth m = List.replicate depth (chr '\t') ++ (t ++ ascii ",\n") ∧
      ∀ w, Blank w → Members (t ++ w) (roundedMembers 19 m) := by
  induction m with
  | nil => exact absurd rfl hne
  | cons kv m ih =>
      obtain ⟨key, v⟩ := kv
      obtain ⟨t, htext, hdenotes⟩ := h (key, v) List.mem_cons_self depth key
      have hname : tagName depth key =
          List.replicate depth (chr '\t') ++ (quoted (escapeString key) ++ [chr ':', chr ' ']) := by
        rw [tagName, if_pos (hnames (key, v) List.mem_cons_self), List.append_assoc]
        rfl
      have hkey := stringBody_escapeString key
      rw [hname] at htext
      by_cases hm : m = []
      · subst hm
        refine ⟨quoted (escapeString key) ++ ([] ++ chr ':' :: ([chr ' '] ++ t)), ?_,
          fun w hw => ?_⟩
        · rw [tagMembers, tagMembers, htext]
          simp
        · have := Members.last hkey blank_nil blank_space hdenotes hw
          simpa [roundedMembers] using this
      · obtain ⟨t', htext', hmembers⟩ := ih hm
          (fun kv hkv => hnames kv (List.mem_cons_of_mem _ hkv))
          fun kv hkv => h kv (List.mem_cons_of_mem _ hkv)
        have hblank := blank_newline.append (blank_tabs depth)
        refine ⟨quoted (escapeString key) ++ ([] ++ chr ':' :: ([chr ' '] ++ (t ++ ([] ++ chr ',' ::
          ([chr '\n'] ++ List.replicate depth (chr '\t') ++ t'))))), ?_, fun w hw => ?_⟩
        · rw [tagMembers, htext, htext']
          simp [ascii_comma]
        · have := Members.cons hkey blank_nil blank_space hdenotes blank_nil hblank (hmembers w hw)
          simpa [roundedMembers] using this

theorem ascii_open : ascii "[\n" = [chr '[', chr '\n'] := rfl

theorem ascii_brace : ascii "\x7b\n" = [chr '\x7b', chr '\n'] := rfl

theorem tagged_array (h : ∀ v ∈ vs, Tagged v (v.rounded 19)) :
    Tagged (.array vs) (.array (roundedElements 19 vs)) := by
  intro depth name
  have hclose := blank_newline.append (blank_tabs depth)
  have hopen := blank_newline.append (blank_tabs (depth + 1))
  have hbracket : ascii "]" = [chr ']'] := rfl
  by_cases hvs : vs = []
  · subst hvs
    refine ⟨chr '[' :: ([chr '\n'] ++ List.replicate depth (chr '\t') ++ [chr ']']), ?_,
      .emptyArray hclose⟩
    rw [tag, tagElements, List.append_nil, ascii_open, removeLastComma_open (by decide), hbracket]
    simp
  · obtain ⟨t, htext, helements⟩ := tagElements_elements hvs h (depth + 1)
    have hlast : Blank (chr ' ' :: ([chr '\n'] ++ List.replicate depth (chr '\t'))) :=
      blank_space.append hclose
    refine ⟨chr '[' :: ([chr '\n'] ++ List.replicate (depth + 1) (chr '\t') ++
      (t ++ chr ' ' :: ([chr '\n'] ++ List.replicate depth (chr '\t')) ++ [chr ']'])), ?_,
      .array hopen (helements _ hlast)⟩
    have hassoc : tagName depth name ++ ascii "[\n" ++ tagElements (depth + 1) vs =
        tagName depth name ++ ascii "[\n" ++ List.replicate (depth + 1) (chr '\t') ++ t ++
          ascii ",\n" := by rw [htext]; simp
    rw [tag, hassoc, removeLastComma_comma (by simp [ascii_open]), hbracket, ascii_open]
    simp

theorem tagged_object (hm : m.Sorted) (hnames : ∀ kv ∈ m, kv.1 ≠ [])
    (h : ∀ kv ∈ m, Tagged kv.2 (kv.2.rounded 19)) :
    Tagged (.object m) (.object (roundedMembers 19 m)) := by
  intro depth name
  have hclose := blank_newline.append (blank_tabs depth)
  have hopen := blank_newline.append (blank_tabs (depth + 1))
  have hbrace : ascii "\x7d" = [chr '\x7d'] := rfl
  by_cases hne : m = []
  · subst hne
    refine ⟨chr '\x7b' :: ([chr '\n'] ++ List.replicate depth (chr '\t') ++ [chr '\x7d']), ?_,
      .emptyObject hclose⟩
    rw [tag, tagMembers, List.append_nil, ascii_brace, removeLastComma_open (by decide), hbrace]
    simp
  · obtain ⟨t, htext, hmembers⟩ := tagMembers_members hne hnames h (depth + 1)
    have hlast : Blank (chr ' ' :: ([chr '\n'] ++ List.replicate depth (chr '\t'))) :=
      blank_space.append hclose
    have hdenotes := Denotes.object hopen (hmembers _ hlast)
    rw [ofMembers_of_sorted (hm.rounded 19)] at hdenotes
    refine ⟨_, ?_, hdenotes⟩
    have hassoc : tagName depth name ++ ascii "\x7b\n" ++ tagMembers (depth + 1) m =
        tagName depth name ++ ascii "\x7b\n" ++ List.replicate (depth + 1) (chr '\t') ++ t ++
          ascii ",\n" := by rw [htext]; simp
    rw [tag, hassoc, removeLastComma_comma (by simp [ascii_brace]), hbrace, ascii_brace]
    simp

/-- Every value is written as a text that means it. -/
theorem tagged (hv : Proper v) (h : Writable v) : Tagged v (v.rounded 19) := by
  induction hv with
  | number n =>
      cases h with
      | number hn => exact fun depth name => ⟨numPut 19 n, by simp [tag], denotes_numPut hn⟩
  | string s => exact fun depth name => ⟨_, by simp [tag], .string (stringBody_escapeString s)⟩
  | boolean b => exact fun depth name => ⟨_, by simp [tag], .boolean b⟩
  | null => exact fun depth name => ⟨_, by simp [tag], .null⟩
  | array _ ih =>
      cases h with
      | array h => exact tagged_array fun v hv => ih v hv (h v hv)
  | object hm _ ih =>
      cases h with
      | object hkeys h => exact tagged_object hm hkeys fun kv hkv => ih kv hkv (h kv hkv)

/-- The text of `json()` is one of the grammar, a blank, and the end of the line. -/
theorem json_denotes (hv : Proper v) (h : Writable v) (hdoc : v.isDocument) :
    ∃ t, v.json = t ++ ascii " \n" ∧ Denotes t (v.rounded 19) := by
  obtain ⟨t, htext, hdenotes⟩ := tagged hv h 0 []
  have ht : t ≠ [] := List.ne_nil_of_length_pos (length_pos_of_denotes hdenotes)
  refine ⟨t, ?_, hdenotes⟩
  cases v with
  | array vs =>
      rw [Value.json, Array.json, htext, ← List.append_assoc]
      exact removeLastComma_comma ht
  | object m =>
      rw [Value.json, Object.json, htext, ← List.append_assoc]
      exact removeLastComma_comma ht
  | _ => exact absurd hdoc id

/-! ### `operator<<` -/

/-- The strings `operator<<` can write. -/
def Ascii (s : Bytes) : Prop := ∀ b ∈ s, b < 128

theorem streamChar_of_lt {b : Byte} (hb : b < 128) : streamChar b = escapeChar b := by
  have hle : ¬ 128 ≤ b := UInt8.not_le.mpr hb
  rw [streamChar, escapeChar]
  cases shortEscape b with
  | some e => rfl
  | none =>
      dsimp only
      rw [if_neg hle]

theorem streamString_of_ascii (h : Ascii s) : streamString s = quoted (escapeString s) := by
  rw [streamString, escapeString, List.flatMap_congr fun b hb => streamChar_of_lt (h b hb)]

theorem ascii_separator : ascii ", " = [chr ',', chr ' '] := rfl

theorem ascii_colon : ascii ": " = [chr ':', chr ' '] := rfl

theorem streamElements_elements (hne : vs ≠ [])
    (h : ∀ v ∈ vs, Denotes (stream p v) (v.rounded p)) :
    Elements (streamElements p vs) (roundedElements p vs) := by
  induction vs with
  | nil => exact absurd rfl hne
  | cons v vs ih =>
      have hv := h v List.mem_cons_self
      cases vs with
      | nil =>
          have := Elements.last hv blank_nil
          simpa [roundedElements, streamElements] using this
      | cons v' vs =>
          have hrest := ih (List.cons_ne_nil _ _) fun w hw => h w (List.mem_cons_of_mem _ hw)
          have := Elements.cons hv blank_nil blank_space hrest
          rw [streamElements, ascii_separator]
          · simpa [roundedElements] using this
          · exact List.cons_ne_nil _ _

theorem streamMembers_members (hne : m ≠ []) (hnames : ∀ kv ∈ m, Ascii kv.1)
    (h : ∀ kv ∈ m, Denotes (stream p kv.2) (kv.2.rounded p)) :
    Members (streamMembers p m) (roundedMembers p m) := by
  induction m with
  | nil => exact absurd rfl hne
  | cons kv m ih =>
      obtain ⟨key, v⟩ := kv
      have hv : Denotes (stream p v) (v.rounded p) := h (key, v) List.mem_cons_self
      have hname : Ascii key := hnames (key, v) List.mem_cons_self
      have hkey := stringBody_escapeString key
      cases m with
      | nil =>
          have := Members.last hkey blank_nil blank_space hv blank_nil
          rw [streamMembers, streamString_of_ascii hname, ascii_colon]
          simpa [roundedMembers] using this
      | cons kv' m =>
          have hrest := ih (List.cons_ne_nil _ _)
            (fun kw hkw => hnames kw (List.mem_cons_of_mem _ hkw))
            fun kw hkw => h kw (List.mem_cons_of_mem _ hkw)
          have := Members.cons hkey blank_nil blank_space hv blank_nil blank_space hrest
          rw [streamMembers, streamString_of_ascii hname, ascii_colon, ascii_separator]
          · simpa [roundedMembers] using this
          · exact List.cons_ne_nil _ _

/-- With ASCII strings the text of `operator<<` is one of the grammar. -/
theorem stream_denotes (hv : Proper v) (h : All (InRange p) Ascii Ascii v) :
    Denotes (stream p v) (v.rounded p) := by
  induction hv with
  | number n =>
      cases h with
      | number hn => exact denotes_numPut hn
  | string s =>
      cases h with
      | string hs =>
          rw [stream, streamString_of_ascii hs]
          exact .string (stringBody_escapeString s)
  | boolean b => exact .boolean b
  | null => exact .null
  | @array vs _ ih =>
      cases h with
      | array h =>
          by_cases hvs : vs = []
          · subst hvs
            exact .emptyArray blank_nil
          · have := Denotes.array blank_nil
              (streamElements_elements hvs fun v hv => ih v hv (h v hv))
            exact this
  | @object m hm _ ih =>
      cases h with
      | object hkeys h =>
          by_cases hne : m = []
          · subst hne
            exact .emptyObject blank_nil
          · have := Denotes.object blank_nil
              (streamMembers_members hne hkeys fun kv hkv => ih kv hkv (h kv hkv))
            rw [ofMembers_of_sorted (hm.rounded _)] at this
            exact this

/-- A value written to a stream is read from it, and nothing that follows it. Behind a number
nothing may follow that would go on with it. -/
theorem parse_stream (hv : Proper v) (h : All (InRange p) Ascii Ascii v) {r : Bytes}
    (hr : ∀ n, v = .number n → EndsLiteral r) (b : Bytes) : ∃ input : IStream,
    Value.parse (callDepth (ready b (stream p v ++ r))) (ready b (stream p v ++ r)) =
        some (some (v.rounded p), input) ∧
      input.before = (stream p v).reverse ++ b ∧ input.rest = r ∧ input.fail = false ∧
      (r ≠ [] → input.good = true) := by
  refine parse_text (stream_denotes hv h) (fun n hn => ?_) b
  cases hv with
  | number n => exact hr n rfl
  | _ => cases hn

theorem parse_stream_sample : ∃ input : IStream,
    Value.parse (callDepth (ready [] (stream 6 (.number (.rat (1 / 2))) ++ ascii ", 1")))
        (ready [] (stream 6 (.number (.rat (1 / 2))) ++ ascii ", 1")) =
      some (some (.number ((LongDouble.rat (1 / 2)).rounded 6)), input) ∧
      input.before = (stream 6 (.number (.rat (1 / 2)))).reverse ++ [] ∧
      input.rest = ascii ", 1" ∧ input.fail = false ∧ (ascii ", 1" ≠ [] → input.good = true) := by
  have hrange : InRange 6 (.rat (1 / 2)) :=
    inRange_of_abs_le (n := .rat (1 / 2)) (by norm_num [LongDouble.value, abs_of_pos])
  have hends : EndsLiteral (ascii ", 1") := (follows_of_mem (Or.inl rfl) (ascii " 1")).endsLiteral
  exact parse_stream (.number _) (.number hrange) (fun _ _ => hends) []

/-! ### Strings that are not ASCII -/

/-- What is read of a character written by `stream_string`. -/
def readBack (b : Byte) : Bytes :=
  if b < 128 then [b] else 255 :: (ascii "ff" ++ (hex4 b.toNat).drop 2)

theorem shortEscape_high : ∀ b : Byte, 128 ≤ b → shortEscape b = none := by
  decide +kernel

theorem streamChar_high (b : Byte) (hb : 128 ≤ b) :
    streamChar b = chr '\\' :: chr 'u' :: (ascii "ffff" ++ (ascii "ff" ++ (hex4 b.toNat).drop 2)) ∧
    ∀ c ∈ ascii "ff" ++ (hex4 b.toNat).drop 2, c ≠ chr '"' ∧ c ≠ chr '\\' := by
  have hlt := b.toNat_lt
  have hnot : ¬ b < 32 := UInt8.not_lt.mpr (UInt8.le_trans (by decide) hb)
  have hff : ascii "ff" = [chr 'f', chr 'f'] := by decide
  have hlong : hex4 (2 ^ 32 - 256 + b.toNat) =
      ascii "ffff" ++ (ascii "ff" ++ (hex4 b.toNat).drop 2) := by
    rw [hex4_byte hlt, hex4, show 2 ^ 32 - 256 = 256 * 0xffffff from rfl,
      toDigits_byte hlt (by decide)]
    rfl
  refine ⟨?_, ?_⟩
  · rw [streamChar, shortEscape_high b hb]
    dsimp only
    rw [if_neg hnot, if_pos hb, hlong]
    rfl
  · rw [hex4_byte hlt, hff]
    obtain ⟨-, -, hhigh⟩ := hexDigit_spec (b.toNat / 16) (by omega)
    obtain ⟨-, -, hlow⟩ := hexDigit_spec (b.toNat % 16) (by omega)
    have hf : chr 'f' ≠ chr '"' ∧ chr 'f' ≠ chr '\\' := by decide
    simp only [List.drop_succ_cons, List.drop_zero, List.cons_append, List.nil_append,
      List.forall_mem_cons, List.not_mem_nil, false_implies, implies_true, and_true]
    exact ⟨hf, hf, hhigh, hlow⟩

theorem stringLoop_raws {x : Bytes} (hx : ∀ c ∈ x, c ≠ chr '"' ∧ c ≠ chr '\\') (v : Bytes)
    (ch : Byte) (b r : Bytes) : ∃ ch' b', stringLoop (chr '"') v ch (ready b (x ++ r)) =
      stringLoop (chr '"') (v ++ x) ch' (ready b' r) := by
  induction x generalizing v ch b with
  | nil => exact ⟨ch, b, by simp⟩
  | cons c x ih =>
      obtain ⟨hquote, hslash⟩ := hx c List.mem_cons_self
      obtain ⟨ch', b', hrest⟩ := ih (fun c hc => hx c (List.mem_cons_of_mem _ hc)) (v ++ [c]) c
        (c :: b)
      exact ⟨ch', b', by rw [List.cons_append, stringLoop_raw hquote hslash, hrest]; simp⟩

theorem stringLoop_escapeChar (c : Byte) (v : Bytes) (ch : Byte) (b r : Bytes) :
    ∃ ch' b', stringLoop (chr '"') v ch (ready b (escapeChar c ++ r)) =
      stringLoop (chr '"') (v ++ [c]) ch' (ready b' r) := by
  rw [escapeChar]
  cases hshort : shortEscape c with
  | some e => exact ⟨_, _, by
      rw [List.cons_append, List.singleton_append, stringLoop_slash, parseEscape_short hshort]⟩
  | none =>
      obtain ⟨hquote, hslash⟩ := shortEscape_of_special hshort
      dsimp only
      by_cases hc : c < 32
      · obtain ⟨hlen, hdigits, hvalue⟩ := hex4_spec c
        have htext : ascii "\\u" ++ hex4 c.toNat ++ r =
            chr '\\' :: chr 'u' :: (hex4 c.toNat ++ r) := rfl
        exact ⟨_, _, by
          rw [if_pos hc, htext, stringLoop_slash, parseEscape_unicode hlen hdigits, hvalue,
            toChar_toNat]⟩
      · exact ⟨_, _, by rw [if_neg hc, List.singleton_append, stringLoop_raw hquote hslash]⟩

/-- One character: the first four digits of a negative number make the last character, 255. -/
theorem stringLoop_streamChar (c : Byte) (v : Bytes) (ch : Byte) (b r : Bytes) :
    ∃ ch' b', stringLoop (chr '"') v ch (ready b (streamChar c ++ r)) =
      stringLoop (chr '"') (v ++ readBack c) ch' (ready b' r) := by
  by_cases hc : c < 128
  · rw [streamChar_of_lt hc, readBack, if_pos hc]
    exact stringLoop_escapeChar c v ch b r
  · obtain ⟨htext, hraw⟩ := streamChar_high c (UInt8.not_lt.mp hc)
    have hlast : toChar (hexadecimal (ascii "ffff")) = 255 := by decide
    have hdigits : ∀ d ∈ ascii "ffff", isxdigit d = true := by decide +kernel
    obtain ⟨ch', b', hrest⟩ := stringLoop_raws hraw (v ++ [255]) ((ascii "ffff").getLastD (chr 'u'))
      ((ascii "ffff").reverse ++ chr 'u' :: chr '\\' :: b) r
    refine ⟨ch', b', ?_⟩
    rw [htext, List.cons_append, List.cons_append, List.append_assoc, stringLoop_slash,
      parseEscape_unicode rfl hdigits, hlast, hrest, readBack, if_neg hc]
    simp

theorem stringLoop_streamString (s v : Bytes) (ch : Byte) (b r : Bytes) :
    ∃ b', stringLoop (chr '"') v ch (ready b (s.flatMap streamChar ++ chr '"' :: r)) =
      (v ++ s.flatMap readBack, chr '"', ready b' r) := by
  induction s generalizing v ch b with
  | nil => exact ⟨_, by simpa using stringLoop_end v ch b r⟩
  | cons c s ih =>
      obtain ⟨ch', b', hchar⟩ :=
        stringLoop_streamChar c v ch b (s.flatMap streamChar ++ chr '"' :: r)
      obtain ⟨b'', hrest⟩ := ih (v ++ readBack c) ch' b'
      exact ⟨b'', by rw [List.flatMap_cons, List.append_assoc, hchar, hrest]; simp⟩

theorem length_readBack (b : Byte) : 1 ≤ (readBack b).length ∧
    (¬ b < 128 → 1 < (readBack b).length) := by
  rw [readBack]
  split
  · exact ⟨le_rfl, fun h => absurd ‹_› h⟩
  · refine ⟨by simp, fun _ => ?_⟩
    simp [ascii]

theorem length_flatMap_readBack (s : Bytes) : s.length ≤ (s.flatMap readBack).length := by
  induction s with
  | nil => exact le_rfl
  | cons b s ih =>
      have hb := (length_readBack b).1
      rw [List.flatMap_cons, List.length_append, List.length_cons]
      omega

theorem flatMap_readBack_eq_iff (s : Bytes) : s.flatMap readBack = s ↔ Ascii s := by
  induction s with
  | nil => simp [Ascii]
  | cons b s ih =>
      constructor
      · intro h
        have hb : b < 128 := by
          by_contra hb
          have hlen := congrArg List.length h
          have hlong := (length_readBack b).2 hb
          have hrest := length_flatMap_readBack s
          rw [List.flatMap_cons, List.length_append, List.length_cons] at hlen
          omega
        rw [List.flatMap_cons, readBack, if_pos hb] at h
        have hs := ih.mp (List.cons.inj h).2
        exact List.forall_mem_cons.mpr ⟨hb, hs⟩
      · intro h
        obtain ⟨hb, hs⟩ := List.forall_mem_cons.mp h
        rw [List.flatMap_cons, readBack, if_pos hb, ih.mpr hs]
        rfl

/-- A string is read back as it was if and only if it is ASCII. -/
theorem parseString_streamString_iff (s b r : Bytes) :
    (parseString (ready b (streamString s ++ r))).1 = some s ↔ ∀ c ∈ s, c < 128 := by
  have hmatch := match_ready [] blank_nil (by decide : isspace (chr '"') = false) b
    (s.flatMap streamChar ++ chr '"' :: r)
  have htext : streamString s ++ r = [chr '"'] ++ (s.flatMap streamChar ++ chr '"' :: r) := by
    simp [streamString, quoted]
  obtain ⟨b', hloop⟩ := stringLoop_streamString s [] 0 ([chr '"'].reverse ++ b) r
  rw [parseString, htext, ← List.nil_append ([chr '"'] ++ _), hmatch]
  simp only [if_true, List.nil_append, hloop]
  simpa [endString, Ascii] using flatMap_readBack_eq_iff s

end Dummyload.Json
