import Dummyload.Http.HttpResponse

/-!
# Dummyload.Http.ResponseText

What a client makes of the responses. `readResponse` reads a status line, header
lines up to the first empty one, and then as many bytes as Content-Length says,
or all that come when the Connection field is `close`. It sees the bytes only,
and `readStream_transmit` says that it finds in them the responses that
`appendToBuffer` wrote, each with its own body.

Field names are compared up to `fold`, a parameter of the reader: the identity for
a reader that takes them literally, or the change to lower case.
-/

namespace Dummyload

open Lib.Lines (Clear unlines cutLine cutBlock)

/-! ### The reader -/

/-- A response, as a client sees it. -/
structure Reply where
  statusCode : Nat
  statusMessage : Bytes
  headers : HeaderMap
  body : Bytes

/-- `HTTP/1.1 code message`. -/
def readStatusLine (line : Bytes) : Option (Nat × Bytes) :=
  if (ascii "HTTP/1.1 ").isPrefixOf line then
    let rest := line.drop (ascii "HTTP/1.1 ").length
    let code := rest.takeWhile isdigit
    match code, rest.dropWhile isdigit with
    | _ :: _, 32 :: message => some (decimal code, message)
    | _, _ => none
  else none

/-- `name: value`, where the name is not empty. -/
def readField (line : Bytes) : Option (Bytes × Bytes) :=
  match line.takeWhile (· ≠ chr ':'), line.dropWhile (· ≠ chr ':') with
  | name@(_ :: _), _ :: 32 :: value => some (name, value)
  | name@(_ :: _), _ :: value => some (name, value)
  | _, _ => none

/-- The length that a Content-Length field announces. -/
def readLength (value : Bytes) : Option Nat :=
  if value ≠ [] ∧ value.all isdigit then some (decimal value) else none

section Reader

variable (fold : Bytes → Bytes)

/-- The field has this name. -/
def isNamed (name : Bytes) (field : Bytes × Bytes) : Bool := fold field.1 = fold name

/-- Is this a field that delimits the response? -/
def isFraming (field : Bytes × Bytes) : Bool :=
  isNamed fold (ascii "Content-Length") field || isNamed fold (ascii "Connection") field

/-- The body, and what follows it if the connection is kept. -/
def readBody (fields : List (Bytes × Bytes)) (rest : Bytes) : Option (Bytes × Option Bytes) :=
  if fields.any fun field => isNamed fold (ascii "Connection") field && field.2 = ascii "close" then
    some (rest, none)
  else
    (fields.find? (isNamed fold (ascii "Content-Length"))).bind fun field =>
      (readLength field.2).bind fun n =>
        if n ≤ rest.length then some (rest.take n, some (rest.drop n)) else none

/-- The first response, and what follows it if the connection is kept. -/
def readResponse (w : Bytes) : Option (Reply × Option Bytes) := do
  let (line, rest) ← cutLine kCRLF w
  let (code, message) ← readStatusLine line
  let (lines, rest) ← cutBlock kCRLF (rest.length + 1) rest
  let fields ← lines.mapM readField
  let (body, rest) ← readBody fold fields rest
  some (⟨code, message, .ofList (fields.filter fun field => !isFraming fold field), body⟩, rest)

/-- The responses up to the end of the stream, at most `fuel` of them. -/
def readResponses : Nat → Bytes → Option (List Reply)
  | _, [] => some []
  | 0, _ :: _ => none
  | fuel + 1, w@(_ :: _) =>
    (readResponse fold w).bind fun (reply, rest) =>
      match rest with
      | none => some [reply]
      | some rest => (readResponses fuel rest).map (reply :: ·)

/-- All responses of a stream. -/
def readStream (w : Bytes) : Option (List Reply) := readResponses fold w.length w

end Reader

/-! ### Responses that can be framed -/

/-- No CR and no LF. -/
def SingleLine (s : Bytes) : Prop := 13 ∉ s ∧ 10 ∉ s

instance (s : Bytes) : Decidable (SingleLine s) := inferInstanceAs (Decidable (_ ∧ _))

namespace HttpResponse

/-- What the client should see. -/
def reply (resp : HttpResponse) : Reply :=
  ⟨resp.statusCode.value, resp.statusMessage, resp.headers, resp.body⟩

/-- The response can be told from what follows it. -/
structure Framable (fold : Bytes → Bytes) (resp : HttpResponse) : Prop where
  message : SingleLine resp.statusMessage
  name : ∀ field ∈ resp.headers.toList, field.1 ≠ [] ∧ chr ':' ∉ field.1 ∧ SingleLine field.1
  value : ∀ field ∈ resp.headers.toList, SingleLine field.2
  custom : ∀ field ∈ resp.headers.toList, isFraming fold field = false
  /-- The length of the body has 13 decimal digits at most. -/
  body : resp.body.length < 10 ^ 13

end HttpResponse

/-- The responses, each serialised into a new buffer as `onRequest` does, one after the
other. -/
def transmit (resps : List HttpResponse) : Option Bytes :=
  (resps.mapM fun resp : HttpResponse =>
    (resp.appendToBuffer (Buffer.new kInitialSize)).map Buffer.readable).map List.flatten

/-! ### The bytes of a response, line by line -/

theorem clear_of_singleLine {l : Bytes} (h : SingleLine l) : Clear kCRLF l :=
  clear_kCRLF_iff.mpr (noCRLF_of_notMem h.1)

theorem SingleLine.append {l m : Bytes} (hl : SingleLine l) (hm : SingleLine m) :
    SingleLine (l ++ m) :=
  ⟨by simp [hl.1, hm.1], by simp [hl.2, hm.2]⟩

theorem singleLine_toDecimal (n : Nat) : SingleLine (toDecimal n) :=
  ⟨fun h => absurd (isdigit_of_mem_toDecimal h) (by decide),
    fun h => absurd (isdigit_of_mem_toDecimal h) (by decide)⟩

theorem snprintf32_of_le {s : Bytes} (h : s.length ≤ 31) : snprintf32 s = s :=
  List.take_of_length_le h

theorem length_toDecimal_le_iff {n k : Nat} (hk : 0 < k) :
    (toDecimal n).length ≤ k ↔ n < 10 ^ k := by
  rw [toDecimal, List.length_map]
  exact Nat.length_toDigits_le_iff (by norm_num) hk

/-- `name: value`. -/
def fieldLine (field : Bytes × Bytes) : Bytes := field.1 ++ (chr ':' :: 32 :: field.2)

theorem flatten_fields (fields : List (Bytes × Bytes)) :
    (fields.flatMap fun field => [field.1, ascii ": ", field.2, ascii "\r\n"]).flatten =
      unlines kCRLF (fields.map fieldLine) := by
  induction fields with
  | nil => rfl
  | cons field fields ih =>
      rw [List.flatMap_cons, List.flatten_append, ih, List.map_cons, Lib.Lines.unlines_cons]
      have hcolon : ascii ": " = [chr ':', 32] := by decide
      have hcrlf : ascii "\r\n" = kCRLF := by decide
      simp [fieldLine, hcolon, hcrlf]

namespace HttpResponse

/-- The status line. -/
def statusLine (resp : HttpResponse) : Bytes :=
  ascii "HTTP/1.1 " ++ (toDecimal resp.statusCode.value ++ (32 :: resp.statusMessage))

/-- The fields that delimit the response. -/
def framing (resp : HttpResponse) : List (Bytes × Bytes) :=
  if resp.closeConnection then [(ascii "Connection", ascii "close")]
  else [(ascii "Content-Length", toDecimal resp.body.length),
    (ascii "Connection", ascii "Keep-Alive")]

/-- All fields, in the order in which they are written. -/
def fields (resp : HttpResponse) : List (Bytes × Bytes) := resp.framing ++ resp.headers.toList

/-- Neither `snprintf` cuts anything off. -/
theorem bytes_eq {resp : HttpResponse} (hbody : resp.body.length < 10 ^ 13) :
    resp.bytes = resp.statusLine ++ kCRLF ++
      (unlines kCRLF (resp.fields.map fieldLine) ++ (kCRLF ++ resp.body)) := by
  have hstatus : snprintf32 (ascii "HTTP/1.1 " ++ toDecimal resp.statusCode.value ++ ascii " ") =
      ascii "HTTP/1.1 " ++ toDecimal resp.statusCode.value ++ ascii " " := by
    refine snprintf32_of_le ?_
    cases resp.statusCode <;> decide
  have hlength : snprintf32 (ascii "Content-Length: " ++ toDecimal resp.body.length ++
      ascii "\r\n") = fieldLine (ascii "Content-Length", toDecimal resp.body.length) ++ kCRLF := by
    have hdigits := (length_toDecimal_le_iff (by norm_num)).mpr hbody
    have h16 : (ascii "Content-Length: ").length = 16 := by decide
    have h2 : (ascii "\r\n").length = 2 := by decide
    rw [snprintf32_of_le (by rw [List.length_append, List.length_append]; omega)]
    rfl
  have hcrlf : ascii "\r\n" = kCRLF := by decide
  have hframing : (if resp.closeConnection then [ascii "Connection: close\r\n"]
      else [snprintf32 (ascii "Content-Length: " ++ toDecimal resp.body.length ++ ascii "\r\n"),
        ascii "Connection: Keep-Alive\r\n"]).flatten =
        unlines kCRLF (resp.framing.map fieldLine) := by
    rw [hlength, framing]
    cases resp.closeConnection with
    | true =>
        rw [if_pos rfl, if_pos rfl]
        decide
    | false =>
        have halive : ascii "Connection: Keep-Alive\r\n" =
            fieldLine (ascii "Connection", ascii "Keep-Alive") ++ kCRLF := by decide
        simp [halive]
  rw [bytes, pieces, List.flatten_append, List.flatten_append, List.flatten_append, hstatus,
    hframing, flatten_fields, fields, List.map_append, Lib.Lines.unlines_append, hcrlf]
  have hspace : ascii " " = [32] := by decide
  simp [statusLine, hspace]

end HttpResponse

/-! ### Reading them back -/

theorem readStatusLine_statusLine (resp : HttpResponse) :
    readStatusLine resp.statusLine = some (resp.statusCode.value, resp.statusMessage) := by
  have hpre : (ascii "HTTP/1.1 ").isPrefixOf resp.statusLine = true :=
    List.isPrefixOf_iff_prefix.mpr (List.prefix_append _ _)
  have hdigits : ∀ d ∈ toDecimal resp.statusCode.value, isdigit d = true :=
    fun d hd => isdigit_of_mem_toDecimal hd
  have hcode : (toDecimal resp.statusCode.value ++ (32 :: resp.statusMessage)).takeWhile isdigit =
      toDecimal resp.statusCode.value := by
    rw [List.takeWhile_append_of_pos hdigits, List.takeWhile_cons_of_neg (by decide),
      List.append_nil]
  have hrest : (toDecimal resp.statusCode.value ++ (32 :: resp.statusMessage)).dropWhile isdigit =
      32 :: resp.statusMessage := by
    rw [List.dropWhile_append_of_pos hdigits, List.dropWhile_cons_of_neg (by decide)]
  obtain ⟨d, ds, hne⟩ := List.exists_cons_of_ne_nil (toDecimal_ne_nil resp.statusCode.value)
  have hdecimal := decimal_toDecimal resp.statusCode.value
  rw [readStatusLine, if_pos hpre, HttpResponse.statusLine, List.drop_left]
  dsimp only
  rw [hcode, hrest, hne]
  rw [hne] at hdecimal
  rw [hdecimal]
  rfl

theorem readField_fieldLine {field : Bytes × Bytes} (hne : field.1 ≠ [])
    (hcolon : chr ':' ∉ field.1) : readField (fieldLine field) = some field := by
  obtain ⟨name, value⟩ := field
  have hall : ∀ c ∈ name, decide (c ≠ chr ':') = true := fun c hc => by
    rw [decide_eq_true_eq]
    exact fun heq => hcolon (heq ▸ hc)
  have hname : (fieldLine (name, value)).takeWhile (· ≠ chr ':') = name := by
    rw [fieldLine, List.takeWhile_append_of_pos hall, List.takeWhile_cons_of_neg (by simp),
      List.append_nil]
  have hvalue : (fieldLine (name, value)).dropWhile (· ≠ chr ':') = chr ':' :: 32 :: value := by
    rw [fieldLine, List.dropWhile_append_of_pos hall, List.dropWhile_cons_of_neg (by simp)]
  obtain ⟨c, cs, rfl⟩ := List.exists_cons_of_ne_nil hne
  rw [readField, hname, hvalue]
  rfl

theorem mapM_readField {fields : List (Bytes × Bytes)}
    (h : ∀ field ∈ fields, field.1 ≠ [] ∧ chr ':' ∉ field.1) :
    (fields.map fieldLine).mapM readField = some fields := by
  induction fields with
  | nil => rfl
  | cons field fields ih =>
      obtain ⟨⟨hne, hcolon⟩, h⟩ := List.forall_mem_cons.mp h
      rw [List.map_cons, List.mapM_cons, readField_fieldLine hne hcolon, ih h]
      rfl

theorem readLength_toDecimal (n : Nat) : readLength (toDecimal n) = some n := by
  have hdigits : (toDecimal n).all isdigit = true :=
    List.all_eq_true.mpr fun d hd => isdigit_of_mem_toDecimal hd
  rw [readLength, if_pos ⟨toDecimal_ne_nil n, hdigits⟩, decimal_toDecimal]

/-- A map is determined by its entries. -/
theorem ofList_toList (m : HeaderMap) : Std.ExtTreeMap.ofList m.toList compare = m := by
  refine Std.ExtTreeMap.ext_getElem? fun k => ?_
  cases hk : m[k]? with
  | some v =>
      have hmem := Std.ExtTreeMap.mem_toList_iff_getElem?_eq_some.mpr hk
      exact Std.ExtTreeMap.getElem?_ofList_of_mem Std.ReflCmp.compare_self
        Std.ExtTreeMap.distinct_keys_toList hmem
  | none =>
      refine Std.ExtTreeMap.getElem?_ofList_of_contains_eq_false ?_
      rw [Std.ExtTreeMap.map_fst_toList_eq_keys, Std.ExtTreeMap.contains_keys,
        Std.ExtTreeMap.contains_eq_isSome_getElem?, hk]
      rfl

section Reader

variable {fold : Bytes → Bytes} {resp : HttpResponse}

theorem isFraming_contentLength (value : Bytes) :
    isFraming fold (ascii "Content-Length", value) = true := by
  simp [isFraming, isNamed]

theorem isFraming_connection (value : Bytes) :
    isFraming fold (ascii "Connection", value) = true := by
  simp [isFraming, isNamed]

/-- The fields of a response can be read. -/
theorem HttpResponse.Framable.fields (h : resp.Framable fold) : ∀ field ∈ resp.fields,
    (field.1 ≠ [] ∧ chr ':' ∉ field.1) ∧ SingleLine field.1 ∧ SingleLine field.2 := by
  have hlength : SingleLine (toDecimal resp.body.length) := singleLine_toDecimal _
  intro field hfield
  rw [HttpResponse.fields, List.mem_append, HttpResponse.framing] at hfield
  rcases hfield with hfield | hfield
  · split at hfield
    · obtain rfl := List.mem_singleton.mp hfield
      decide
    · rcases List.mem_pair.mp hfield with rfl | rfl
      · have hname : (ascii "Content-Length" ≠ [] ∧ chr ':' ∉ ascii "Content-Length") ∧
            SingleLine (ascii "Content-Length") := by decide
        exact ⟨hname.1, hname.2, hlength⟩
      · decide
  · obtain ⟨hne, hcolon, hname⟩ := h.name field hfield
    exact ⟨⟨hne, hcolon⟩, hname, h.value field hfield⟩

/-- Of the fields that are read, the header map is what does not delimit the response. -/
theorem HttpResponse.Framable.headers (h : resp.Framable fold) :
    resp.fields.filter (fun field => !isFraming fold field) = resp.headers.toList := by
  have hcustom : resp.headers.toList.filter (fun field => !isFraming fold field) =
      resp.headers.toList := by
    refine List.filter_eq_self.mpr fun field hfield => ?_
    rw [h.custom field hfield]
    rfl
  rw [HttpResponse.fields, List.filter_append, hcustom, HttpResponse.framing]
  split
  · simp [isFraming_connection]
  · simp [isFraming_connection, isFraming_contentLength]

theorem readBody_fields (hfold : fold (ascii "Content-Length") ≠ fold (ascii "Connection"))
    (h : resp.Framable fold) (rest : Bytes) (hlast : resp.closeConnection = true → rest = []) :
    readBody fold resp.fields (resp.body ++ rest) =
      some (resp.body, if resp.closeConnection then none else some rest) := by
  cases hclose : resp.closeConnection with
  | true =>
      have hany : resp.fields.any (fun field =>
          isNamed fold (ascii "Connection") field && field.2 = ascii "close") = true := by
        simp [HttpResponse.fields, HttpResponse.framing, hclose, isNamed]
      rw [readBody, if_pos hany, hlast hclose, List.append_nil]
      rfl
  | false =>
      have hcustom : ∀ field ∈ resp.headers.toList,
          isNamed fold (ascii "Connection") field = false := fun field hfield => by
        have := h.custom field hfield
        rw [isFraming, Bool.or_eq_false_iff] at this
        exact this.2
      have hany : ¬ resp.fields.any (fun field =>
          isNamed fold (ascii "Connection") field && field.2 = ascii "close") = true := by
        have halive : ascii "Keep-Alive" ≠ ascii "close" := by decide
        have hnone : ∀ field ∈ resp.headers.toList,
            (isNamed fold (ascii "Connection") field && field.2 = ascii "close") = false :=
          fun field hfield => by rw [hcustom field hfield, Bool.false_and]
        rw [Bool.not_eq_true, HttpResponse.fields, List.any_append, Bool.or_eq_false_iff]
        constructor
        · simp [HttpResponse.framing, hclose, isNamed, hfold, halive]
        · exact List.any_eq_false.mpr fun field hfield => by rw [hnone field hfield]; simp
      have hfind : resp.fields.find? (isNamed fold (ascii "Content-Length")) =
          some (ascii "Content-Length", toDecimal resp.body.length) := by
        simp [HttpResponse.fields, HttpResponse.framing, hclose, isNamed]
      rw [readBody, if_neg hany, hfind, Option.bind_some, readLength_toDecimal, Option.bind_some,
        if_pos (by rw [List.length_append]; omega), List.take_left, List.drop_left]
      rfl

/-- One response, and what follows it. -/
theorem readResponse_bytes (hfold : fold (ascii "Content-Length") ≠ fold (ascii "Connection"))
    (h : resp.Framable fold) (rest : Bytes) (hlast : resp.closeConnection = true → rest = []) :
    readResponse fold (resp.bytes ++ rest) =
      some (resp.reply, if resp.closeConnection then none else some rest) := by
  have hfields := h.fields
  have hstatus : Clear kCRLF resp.statusLine := by
    refine clear_of_singleLine (SingleLine.append (by unfold SingleLine; decide)
      (SingleLine.append (singleLine_toDecimal _) ?_))
    exact ⟨by simp [h.message.1], by simp [h.message.2]⟩
  have hlines : ∀ l ∈ resp.fields.map fieldLine, l ≠ [] ∧ Clear kCRLF l := by
    intro l hl
    obtain ⟨field, hfield, rfl⟩ := List.mem_map.mp hl
    obtain ⟨⟨hne, -⟩, hname, hvalue⟩ := hfields field hfield
    refine ⟨List.append_ne_nil_of_left_ne_nil hne _, clear_of_singleLine (hname.append ?_)⟩
    exact ⟨by simp [hvalue.1, chr], by simp [hvalue.2, chr]⟩
  have hfuel : (resp.fields.map fieldLine).length <
      (unlines kCRLF (resp.fields.map fieldLine) ++ (kCRLF ++ (resp.body ++ rest))).length + 1 := by
    have := Lib.Lines.length_le_unlines kCRLF_ne_nil (resp.fields.map fieldLine)
    rw [List.length_append]
    omega
  have hblock :=
    Lib.Lines.cutBlock_unlines kCRLF_ne_nil hlines (by decide) hfuel (resp.body ++ rest)
  have hline := Lib.Lines.cutLine_line kCRLF_ne_nil hstatus
    (unlines kCRLF (resp.fields.map fieldLine) ++ (kCRLF ++ (resp.body ++ rest)))
  have hnamed := fun field hfield => (hfields field hfield).1
  have hbytes : resp.bytes ++ rest = resp.statusLine ++ kCRLF ++
      (unlines kCRLF (resp.fields.map fieldLine) ++ (kCRLF ++ (resp.body ++ rest))) := by
    rw [HttpResponse.bytes_eq h.body]
    simp only [List.append_assoc]
  rw [hbytes, readResponse, hline, Option.bind_eq_bind, Option.bind_some]
  dsimp only
  rw [readStatusLine_statusLine, Option.bind_eq_bind, Option.bind_some]
  dsimp only
  rw [hblock, Option.bind_eq_bind, Option.bind_some]
  dsimp only
  rw [mapM_readField hnamed, Option.bind_eq_bind, Option.bind_some,
    readBody_fields hfold h rest hlast, Option.bind_eq_bind, Option.bind_some]
  dsimp only
  rw [h.headers, ofList_toList]
  rfl

/-- A response has at least its status line. -/
theorem HttpResponse.Framable.bytes_ne_nil (h : resp.Framable fold) : resp.bytes ≠ [] := by
  rw [HttpResponse.bytes_eq h.body, List.append_assoc]
  have hcrlf : ascii "HTTP/1.1 " ≠ [] := by decide
  exact List.append_ne_nil_of_left_ne_nil (List.append_ne_nil_of_left_ne_nil hcrlf _) _

theorem length_le_bytes {resps : List HttpResponse} (h : ∀ resp ∈ resps, resp.Framable fold) :
    resps.length ≤ (resps.flatMap HttpResponse.bytes).length := by
  induction resps with
  | nil => exact Nat.zero_le _
  | cons resp resps ih =>
      obtain ⟨hresp, h⟩ := List.forall_mem_cons.mp h
      have hpos := List.length_pos_of_ne_nil hresp.bytes_ne_nil
      have := ih h
      rw [List.flatMap_cons, List.length_append, List.length_cons]
      omega

theorem readResponses_of_ne_nil (fuel : Nat) {w : Bytes} (hw : w ≠ []) :
    readResponses fold (fuel + 1) w = (readResponse fold w).bind fun (reply, rest) =>
      match rest with
      | none => some [reply]
      | some rest => (readResponses fold fuel rest).map (reply :: ·) := by
  cases w with
  | nil => exact absurd rfl hw
  | cons c cs => rfl

/-- The responses up to the end of the stream. -/
theorem readResponses_bytes (hfold : fold (ascii "Content-Length") ≠ fold (ascii "Connection"))
    {resps : List HttpResponse} (h : ∀ resp ∈ resps, resp.Framable fold)
    (hkept : ∀ resp ∈ resps.dropLast, resp.closeConnection = false) {fuel : Nat}
    (hfuel : resps.length ≤ fuel) :
    readResponses fold fuel (resps.flatMap HttpResponse.bytes) =
      some (resps.map HttpResponse.reply) := by
  induction resps generalizing fuel with
  | nil =>
      rw [List.flatMap_nil, List.map_nil]
      cases fuel <;> rfl
  | cons resp resps ih =>
      obtain ⟨hresp, h⟩ := List.forall_mem_cons.mp h
      obtain ⟨fuel, rfl⟩ : ∃ k, fuel = k + 1 := ⟨fuel - 1, by rw [List.length_cons] at hfuel; omega⟩
      have hlast : resp.closeConnection = true → resps = [] := by
        intro hclose
        cases resps with
        | nil => rfl
        | cons resp' resps =>
            rw [hkept resp (by simp)] at hclose
            cases hclose
      have hread := readResponse_bytes hfold hresp (resps.flatMap HttpResponse.bytes)
        fun hclose => by rw [hlast hclose]; rfl
      have hne : resp.bytes ++ resps.flatMap HttpResponse.bytes ≠ [] :=
        List.append_ne_nil_of_left_ne_nil hresp.bytes_ne_nil _
      rw [List.flatMap_cons, List.map_cons, readResponses_of_ne_nil _ hne, hread, Option.bind_some]
      cases hclose : resp.closeConnection with
      | true =>
          rw [hlast hclose]
          rfl
      | false =>
          have hkept' : ∀ resp ∈ resps.dropLast, resp.closeConnection = false := by
            cases resps with
            | nil => exact fun _ hmem => absurd hmem List.not_mem_nil
            | cons resp' resps => exact fun r hr => hkept r (List.mem_cons_of_mem _ hr)
          rw [List.length_cons] at hfuel
          have hrest := ih h hkept' (Nat.le_of_succ_le_succ hfuel)
          show (readResponses fold fuel (resps.flatMap HttpResponse.bytes)).map _ = _
          rw [hrest]
          rfl

end Reader

theorem transmit_eq_some (resps : List HttpResponse) :
    transmit resps = some (resps.flatMap HttpResponse.bytes) := by
  have hone : ∀ resp : HttpResponse,
      (resp.appendToBuffer (Buffer.new kInitialSize)).map Buffer.readable = some resp.bytes := by
    intro resp
    obtain ⟨output, houtput, hread⟩ := resp.appendToBuffer_eq_some (Buffer.new kInitialSize)
    rw [houtput, Option.map_some, hread, Buffer.readable_new, List.nil_append]
  have hall : resps.mapM (fun resp : HttpResponse =>
      (resp.appendToBuffer (Buffer.new kInitialSize)).map Buffer.readable) =
        some (resps.map HttpResponse.bytes) := by
    simp only [hone]
    induction resps with
    | nil => rfl
    | cons resp resps ih =>
        rw [List.mapM_cons, ih]
        rfl
  rw [transmit, hall]
  rfl

/-- What a client reads on a stream of responses, all but the last of them keep-alive, is the
responses. -/
theorem readStream_transmit {fold : Bytes → Bytes} {resps : List HttpResponse}
    (hfold : fold (ascii "Content-Length") ≠ fold (ascii "Connection"))
    (h : ∀ resp ∈ resps, resp.Framable fold)
    (hkept : ∀ resp ∈ resps.dropLast, resp.closeConnection = false) :
    ∃ w, transmit resps = some w ∧ readStream fold w = some (resps.map HttpResponse.reply) :=
  ⟨resps.flatMap HttpResponse.bytes, transmit_eq_some resps,
    readResponses_bytes hfold h hkept (length_le_bytes h)⟩

/-- A kept connection with an empty line and a NUL in the body, then a closed one. -/
def exampleResponses : List HttpResponse :=
  [{ closeConnection := false, statusCode := .k200Ok, statusMessage := ascii "OK",
     headers := (∅ : HeaderMap).insert (ascii "Server") (ascii "Dummy"),
     body := ascii "a\r\n\r\nHTTP/1.1 " ++ [0] },
   { closeConnection := true, statusCode := .k404NotFound, statusMessage := ascii "Not Found" }]

theorem framable_exampleResponses : ∀ resp ∈ exampleResponses, resp.Framable id := by
  refine List.forall_mem_cons.mpr ⟨⟨?_, ?_, ?_, ?_, ?_⟩,
    List.forall_mem_singleton.mpr ⟨?_, ?_, ?_, ?_, ?_⟩⟩ <;> decide +kernel

theorem readStream_transmit_exampleResponses :
    ∃ w, transmit exampleResponses = some w ∧
      readStream id w = some (exampleResponses.map HttpResponse.reply) :=
  readStream_transmit (by decide) framable_exampleResponses (by decide)

end Dummyload
