import Dummyload.Http.Termination

/-!
# Dummyload.Http.Pointers

The request parser once more, with its pointers: places in the storage of the buffer,
each checked where it is dereferenced or given to `std::find`, `std::search` or a string
constructor. `none` is a pointer outside of `[peek(), beginWrite()]`, or a failed
assertion.

The checks never fail where the assertions hold, so this parser does what
`parseRequest` does (`parseStepAt_eq`); and the assertions hold on every input of a
fresh context, however long the loop goes on (`parseRequestAt_safe`).
-/

namespace Dummyload

/-! ### Pointers into a buffer -/

namespace Buffer

def peek (b : Buffer) : Nat := b.readerIndex
def beginWrite (b : Buffer) : Nat := b.writerIndex

/-- The bytes of `[first, last)`, for an algorithm or a constructor that reads them. -/
def range (b : Buffer) (first last : Nat) : Option Bytes :=
  if b.peek ≤ first ∧ first ≤ last ∧ last ≤ b.beginWrite then some (slice b.storage first last)
  else none

/-- `*p`. -/
def deref (b : Buffer) (p : Nat) : Option Byte :=
  if b.peek ≤ p ∧ p < b.beginWrite then b.storage[p]? else none

/-- `std::find(first, last, c)`. -/
def findAt (b : Buffer) (first last : Nat) (c : Byte) : Option Nat :=
  (b.range first last).map fun l => first + l.idxOf c

/-- `findCRLF()`: the inner `none` is `NULL`. -/
def findCRLFAt (b : Buffer) : Option (Option Nat) :=
  (b.range b.peek b.beginWrite).map fun l =>
    let crlf := b.peek + Lib.Lines.search kCRLF l
    if crlf = b.beginWrite then none else some crlf

/-- `retrieveUntil(end)`. -/
def retrieveUntilAt (b : Buffer) (endp : Nat) : Option Buffer :=
  if b.peek ≤ endp ∧ endp ≤ b.beginWrite then b.retrieve (endp - b.peek) else none

/-- `retrieveAsString(len)`. -/
def retrieveAsStringAt (b : Buffer) (len : Nat) : Option (Bytes × Buffer) :=
  if len ≤ b.readableBytes then
    (b.range b.peek (b.peek + len)).bind fun result => (b.retrieve len).map fun b' => (result, b')
  else none

/-- `while (colon < end && isspace(*colon)) ++colon`, with fuel for the loop. -/
def skipSpaces (b : Buffer) (endp : Nat) : Nat → Nat → Option Nat
  | 0, colon => some colon
  | fuel + 1, colon =>
    if colon < endp then
      (b.deref colon).bind fun c =>
        if isspace c then skipSpaces b endp fuel (colon + 1) else some colon
    else some colon

end Buffer

/-! ### The parser -/

/-- The part of `processRequestLine` that sets path and query, from `[start, space)`. -/
def targetAt (b : Buffer) (request : HttpRequest) (start space : Nat) : Option HttpRequest :=
  (b.findAt start space (chr '?')).bind fun question =>
    if question ≠ space then
      (b.range start question).bind fun path =>
        (b.range question space).map fun query => { request with path := path, query := query }
    else (b.range start space).map fun path => { request with path := path }

/-- The part that sets the version, from `[start, end)`. -/
def versionAt (b : Buffer) (request : HttpRequest) (start endp : Nat) :
    Option (Bool × HttpRequest) :=
  if endp - start = 8 then
    (b.range start (endp - 1)).bind fun protocol =>
      if protocol = ascii "HTTP/1." then
        (b.deref (endp - 1)).map fun c =>
          if c = chr '1' then (true, { request with version := .kHttp11 })
          else if c = chr '0' then (true, { request with version := .kHttp10 })
          else (false, request)
      else some (false, request)
  else some (false, request)

/-- `processRequestLine(begin, end)`. -/
def processRequestLineAt (b : Buffer) (request : HttpRequest) (begin endp : Nat) :
    Option (Bool × HttpRequest) :=
  (b.findAt begin endp (chr ' ')).bind fun space =>
    if space ≠ endp then
      (b.range begin space).bind fun m =>
        match request.setMethod m with
        | none => none
        | some (false, request) => some (false, request)
        | some (true, request) =>
          let start := space + 1
          (b.findAt start endp (chr ' ')).bind fun space =>
            if space ≠ endp then
              (targetAt b request start space).bind fun request =>
                versionAt b request (space + 1) endp
            else some (false, request)
    else some (false, request)

/-- `setHeader(start, colon, end)`. -/
def setHeaderAt (b : Buffer) (request : HttpRequest) (start colon endp : Nat) :
    Option HttpRequest :=
  (b.range start colon).bind fun field =>
    let colon := colon + 1
    (b.skipSpaces endp (endp - colon) colon).bind fun colon =>
      (b.range colon endp).map fun value =>
        { request with headers := request.headers.insert field (value.rdropWhile isspace) }

/-- One iteration of `while (hasMore)`. -/
def parseStepAt (s : ParseLoop) : Option ParseLoop :=
  let request := s.context.request
  match s.context.state with
  | .kExpectRequestLine =>
    s.buf.findCRLFAt.bind fun
      | some crlf =>
        match processRequestLineAt s.buf request s.buf.peek crlf with
        | none => none
        | some (true, request) =>
          (s.buf.retrieveUntilAt (crlf + 2)).map fun buf =>
            { s with ok := true, context := ⟨.kExpectHeaders, request⟩, buf := buf }
        | some (false, request) =>
          some { s with
            ok := false
            hasMore := false
            context := { s.context with request := request } }
      | none => some { s with hasMore := false }
  | .kExpectHeaders =>
    s.buf.findCRLFAt.bind fun
      | some crlf =>
        (s.buf.findAt s.buf.peek crlf (chr ':')).bind fun colon =>
          let context :=
            if colon ≠ crlf then
              (setHeaderAt s.buf request s.buf.peek colon crlf).map fun request =>
                { s.context with request := request }
            else some { s.context with state := .kExpectBody }
          context.bind fun context =>
            (s.buf.retrieveUntilAt (crlf + 2)).map fun buf =>
              { s with context := context, buf := buf }
      | none => some { s with hasMore := false }
  | .kExpectBody =>
    let contentLength := request.header contentLengthField
    if contentLength = [] then
      some { s with hasMore := false, context := { s.context with state := .kGotAll } }
    else
      let bodyLen := atoi contentLength
      if toSize bodyLen ≤ s.buf.readableBytes then
        (s.buf.retrieveAsStringAt (toSize bodyLen)).map fun (body, buf) =>
          { s with
            hasMore := false
            context := ⟨.kGotAll, { request with body := body }⟩
            buf := buf }
      else some s
  | .kGotAll => some s

/-- `parseRequest(buf)`, with fuel for the loop. -/
def HttpContext.parseRequestAt (context : HttpContext) (buf : Buffer) (fuel : Nat) :
    Lib.While.Exit ParseLoop :=
  Lib.While.exec ParseLoop.hasMore parseStepAt fuel (enter context buf)

/-! ### Pointers that stay in a line -/

/-- The bytes of `l`, from the pointer `base` on, lie in the readable region. -/
structure Buffer.At (b : Buffer) (base : Nat) (l : Bytes) : Prop where
  lower : b.peek ≤ base
  upper : base + l.length ≤ b.beginWrite
  bytes : slice b.storage base (base + l.length) = l

theorem slice_eq_drop_take (l : Bytes) (i j : Nat) : slice l i j = (l.take j).drop i := by
  rw [slice, List.drop_take]

theorem slice_slice {l : Bytes} {i j k n : Nat} (hj : k + j ≤ n) :
    slice (slice l k n) i j = slice l (k + i) (k + j) := by
  rw [slice, slice, slice, List.drop_take, List.drop_drop, List.take_take]
  congr 1
  omega

theorem find_le_length {l : Bytes} {i : Nat} (h : i ≤ l.length) (c : Byte) :
    find l i c ≤ l.length := by
  have hle : (l.drop i).idxOf c ≤ (l.drop i).length := List.idxOf_le_length
  rw [List.length_drop] at hle
  rw [find]
  omega

theorem le_find (l : Bytes) (i : Nat) (c : Byte) : i ≤ find l i c := Nat.le_add_right _ _

namespace Buffer.At

variable {b : Buffer} {base i j : Nat} {l : Bytes}

theorem range (h : b.At base l) (hij : i ≤ j) (hj : j ≤ l.length) :
    b.range (base + i) (base + j) = some (slice l i j) := by
  have hlower := h.lower
  have hupper := h.upper
  rw [Buffer.range, if_pos (by omega)]
  conv_rhs => rw [← h.bytes]
  rw [slice_slice (by omega)]

theorem findAt (h : b.At base l) (hij : i ≤ j) (hj : j ≤ l.length) (c : Byte) :
    b.findAt (base + i) (base + j) c = some (base + find (l.take j) i c) := by
  rw [Buffer.findAt, h.range hij hj, Option.map_some, slice_eq_drop_take, find, Nat.add_assoc]

/-- To the end of the line. -/
theorem findAt_end (h : b.At base l) (hi : i ≤ l.length) (c : Byte) :
    b.findAt (base + i) (base + l.length) c = some (base + find l i c) := by
  rw [h.findAt hi le_rfl, List.take_length]

/-- From its start. -/
theorem findAt_line (h : b.At base l) (c : Byte) :
    b.findAt base (base + l.length) c = some (base + find l 0 c) :=
  h.findAt_end (Nat.zero_le _) c

theorem range_start (h : b.At base l) (hj : j ≤ l.length) :
    b.range base (base + j) = some (slice l 0 j) :=
  h.range (Nat.zero_le j) hj

theorem deref (h : b.At base l) (hi : i < l.length) : b.deref (base + i) = l[i]? := by
  have hlower := h.lower
  have hupper := h.upper
  rw [Buffer.deref, if_pos (by omega)]
  conv_rhs => rw [← h.bytes]
  rw [slice, List.getElem?_take_of_lt (by omega), List.getElem?_drop]

/-- Skipping the white space of what is left of the line. -/
theorem skipSpaces (h : b.At base l) {fuel : Nat} (hi : i + fuel = l.length) :
    b.skipSpaces (base + l.length) fuel (base + i) =
      some (base + (i + ((l.drop i).takeWhile isspace).length)) := by
  induction fuel generalizing i with
  | zero =>
      rw [List.drop_of_length_le (by omega)]
      rfl
  | succ fuel ih =>
      have hlt : i < l.length := by omega
      rw [Buffer.skipSpaces, if_pos (by omega), h.deref hlt, List.getElem?_eq_getElem hlt,
        Option.bind_some, List.drop_eq_getElem_cons hlt, List.takeWhile_cons]
      by_cases hspace : isspace l[i] = true
      · rw [if_pos hspace, if_pos hspace, Nat.add_assoc, ih (by omega), List.length_cons]
        congr 2
        omega
      · rw [if_neg hspace, if_neg hspace]
        rfl

end Buffer.At

/-- The readable bytes, and each beginning of them. -/
theorem Buffer.at_take (b : Buffer) {n : Nat} (hn : n ≤ b.readableBytes) :
    b.At b.peek (b.readable.take n) := by
  have hlen : (b.readable.take n).length = n := by
    rw [List.length_take, length_readable, min_eq_left hn]
  have hr := b.reader_le
  unfold readableBytes at hn
  refine ⟨le_rfl, ?_, ?_⟩
  · rw [hlen]
    unfold peek beginWrite
    omega
  · rw [hlen, readable, ← slice_eq_drop_take, peek, slice, slice, List.take_take]
    congr 1
    omega

theorem Buffer.at_readable (b : Buffer) : b.At b.peek b.readable := by
  have h := b.at_take le_rfl
  rwa [← length_readable, List.take_length] at h

/-! ### The two parsers agree -/

section Agree

variable {b : Buffer} {base : Nat} {line : Bytes}

theorem targetAt_eq (h : b.At base line) (request : HttpRequest) {start space : Nat}
    (hle : start ≤ space) (hspace : space ≤ line.length) :
    targetAt b request (base + start) (base + space) = some
      (if find (line.take space) start (chr '?') ≠ space then
        { request with
          path := slice line start (find (line.take space) start (chr '?'))
          query := slice line (find (line.take space) start (chr '?')) space }
      else { request with path := slice line start space }) := by
  have hlen : (line.take space).length = space := by rw [List.length_take, min_eq_left hspace]
  have hquestion := find_le_length (l := line.take space) (hlen.symm ▸ hle) (chr '?')
  have hstart := le_find (line.take space) start (chr '?')
  rw [hlen] at hquestion
  rw [targetAt, h.findAt hle hspace, Option.bind_some]
  by_cases hq : find (line.take space) start (chr '?') ≠ space
  · rw [if_pos (by omega), if_pos hq, h.range hstart (hquestion.trans hspace),
      h.range hquestion hspace]
    rfl
  · rw [if_neg (by omega), if_neg hq, h.range hle hspace]
    rfl

theorem versionAt_eq (h : b.At base line) (request : HttpRequest) {start : Nat} :
    versionAt b request (base + start) (base + line.length) = some
      (if line.length - start = 8 ∧ slice line start (line.length - 1) = ascii "HTTP/1." then
        if line.getLast? = some (chr '1') then (true, { request with version := .kHttp11 })
        else if line.getLast? = some (chr '0') then
          (true, { request with version := .kHttp10 })
        else (false, request)
      else (false, request)) := by
  rw [versionAt]
  by_cases hlen : line.length - start = 8
  · have hend : base + line.length - 1 = base + (line.length - 1) := by omega
    rw [if_pos (by omega), hend, h.range (by omega) (by omega), Option.bind_some]
    by_cases hprotocol : slice line start (line.length - 1) = ascii "HTTP/1."
    · have hlt : line.length - 1 < line.length := by omega
      rw [if_pos hprotocol, if_pos ⟨hlen, hprotocol⟩, h.deref hlt, List.getLast?_eq_getElem?,
        List.getElem?_eq_getElem hlt, Option.map_some]
      simp only [Option.some.injEq]
    · rw [if_neg hprotocol, if_neg (fun hand => hprotocol hand.2)]
  · rw [if_neg (by omega), if_neg (fun hand => hlen hand.1)]

/-- On the bytes of a line both do the same. -/
theorem processRequestLineAt_eq (h : b.At base line) (request : HttpRequest) :
    processRequestLineAt b request base (base + line.length) =
      processRequestLine request line := by
  have hfirst := find_le_length (Nat.zero_le line.length) (chr ' ')
  unfold processRequestLineAt processRequestLine
  dsimp only
  rw [h.findAt_line, Option.bind_some]
  by_cases hspace : find line 0 (chr ' ') ≠ line.length
  · rw [if_pos (by omega), if_pos hspace, h.range_start hfirst, Option.bind_some]
    cases request.setMethod (slice line 0 (find line 0 (chr ' '))) with
    | none => rfl
    | some r =>
        obtain ⟨ok, r⟩ := r
        cases ok with
        | false => rfl
        | true =>
            have hstart : find line 0 (chr ' ') + 1 ≤ line.length := by omega
            have hsecond := find_le_length hstart (chr ' ')
            have hle := le_find line (find line 0 (chr ' ') + 1) (chr ' ')
            dsimp only
            rw [Nat.add_assoc base, h.findAt_end hstart, Option.bind_some]
            by_cases hspace₂ : find line (find line 0 (chr ' ') + 1) (chr ' ') ≠ line.length
            · rw [if_pos (by omega), if_pos hspace₂, targetAt_eq h r hle hsecond,
                Option.bind_some, Nat.add_assoc base, versionAt_eq h]
              split_ifs <;> rfl
            · rw [if_neg (by omega), if_neg hspace₂]
  · rw [if_neg (by omega), if_neg hspace]

theorem setHeaderAt_eq (h : b.At base line) (request : HttpRequest) {colon : Nat}
    (hcolon : colon < line.length) :
    setHeaderAt b request base (base + colon) (base + line.length) =
      some (request.setHeader line colon) := by
  have hfuel : base + line.length - (base + colon + 1) = line.length - (colon + 1) := by omega
  have htake : ((line.drop (colon + 1)).takeWhile isspace).length ≤ line.length - (colon + 1) := by
    rw [← List.length_drop]
    exact (List.takeWhile_prefix _).length_le
  have hvalue : slice line (colon + 1 + ((line.drop (colon + 1)).takeWhile isspace).length)
      line.length = (line.drop (colon + 1)).dropWhile isspace := by
    rw [slice_eq_drop_take, List.take_length, ← List.drop_drop]
    generalize line.drop (colon + 1) = rest
    have hrest := List.takeWhile_append_dropWhile (p := isspace) (l := rest)
    exact (congrArg (List.drop _) hrest.symm).trans List.drop_left
  unfold setHeaderAt
  dsimp only
  rw [h.range_start hcolon.le, Option.bind_some, hfuel, Nat.add_assoc base,
    h.skipSpaces (by omega), Option.bind_some, h.range (by omega) le_rfl, Option.map_some, hvalue,
    slice, List.drop_zero, Nat.sub_zero]
  rfl

theorem findCRLFAt_eq (b : Buffer) : b.findCRLFAt = some (b.findCRLF.map (b.peek + ·)) := by
  have hrange := b.at_readable.range_start le_rfl
  have hend : b.peek + b.readable.length = b.beginWrite := by
    have hr := b.reader_le
    rw [Buffer.length_readable]
    unfold Buffer.readableBytes Buffer.peek Buffer.beginWrite
    omega
  rw [hend, slice_eq_drop_take, List.take_length, List.drop_zero] at hrange
  rw [Buffer.findCRLFAt, hrange, Option.map_some, Buffer.findCRLF, ← Buffer.length_readable,
    ← hend]
  dsimp only
  by_cases hcrlf : Lib.Lines.search kCRLF b.readable = b.readable.length
  · rw [if_pos (by rw [hcrlf]), if_pos hcrlf]
    rfl
  · rw [if_neg (fun h => hcrlf (Nat.add_left_cancel h)), if_neg hcrlf]
    rfl

/-- A CRLF that is found lies in the readable bytes. -/
theorem le_of_findCRLF {crlf : Nat} (h : b.findCRLF = some crlf) : crlf ≤ b.readableBytes := by
  have hin : kCRLF <:+: b.readable := by
    by_contra hnot
    rw [Buffer.findCRLF_eq_none.mpr hnot] at h
    cases h
  obtain ⟨line, rest, hsplit, hline⟩ := Lib.Lines.exists_line kCRLF_ne_nil hin
  rw [Buffer.findCRLF_line hline hsplit] at h
  obtain rfl := Option.some.inj h
  rw [← Buffer.length_readable, hsplit]
  simp [kCRLF]

theorem length_take_crlf {crlf : Nat} (h : b.findCRLF = some crlf) :
    (b.readable.take crlf).length = crlf := by
  rw [List.length_take, Buffer.length_readable, min_eq_left (le_of_findCRLF h)]

theorem retrieveUntilAt_eq {endp : Nat} (b : Buffer) :
    b.retrieveUntilAt (b.peek + endp) = b.retrieveUntil endp := by
  have hr := b.reader_le
  rw [Buffer.retrieveUntilAt, Buffer.retrieveUntil, Nat.add_sub_cancel_left]
  refine if_congr ?_ rfl rfl
  unfold Buffer.readableBytes Buffer.peek Buffer.beginWrite
  omega

theorem retrieveAsStringAt_eq (b : Buffer) (len : Nat) :
    b.retrieveAsStringAt len = b.retrieveAsString len := by
  rw [Buffer.retrieveAsStringAt, Buffer.retrieveAsString]
  split
  · rename_i hlen
    rw [b.at_readable.range_start (by rwa [Buffer.length_readable]), Option.bind_some, slice,
      List.drop_zero, Nat.sub_zero]
  · rfl

/-- **The pointers are in range.** An iteration that checks every pointer does what the
iteration does that has none: it fails only where an assertion does. -/
theorem parseStepAt_eq (s : ParseLoop) : parseStepAt s = parseStep s := by
  unfold parseStepAt parseStep
  cases s.context.state with
  | kExpectRequestLine =>
      dsimp only
      rw [findCRLFAt_eq, Option.bind_some]
      cases hcrlf : s.buf.findCRLF with
      | none => rfl
      | some crlf =>
          have hle := le_of_findCRLF hcrlf
          have hlen := length_take_crlf hcrlf
          have hline := processRequestLineAt_eq (s.buf.at_take hle) s.context.request
          rw [hlen] at hline
          rw [Option.map_some]
          dsimp only
          have hretrieve : s.buf.retrieveUntilAt (s.buf.peek + crlf + 2) =
              s.buf.retrieveUntil (crlf + 2) := by
            rw [Nat.add_assoc s.buf.peek, retrieveUntilAt_eq]
          rw [hline]
          cases processRequestLine s.context.request (s.buf.readable.take crlf) with
          | none => rfl
          | some r =>
              obtain ⟨ok, request⟩ := r
              cases ok with
              | false => rfl
              | true => exact congrArg (Option.map _) hretrieve
  | kExpectHeaders =>
      dsimp only
      rw [findCRLFAt_eq, Option.bind_some]
      cases hcrlf : s.buf.findCRLF with
      | none => rfl
      | some crlf =>
          have hle := le_of_findCRLF hcrlf
          have hlen := length_take_crlf hcrlf
          have hat := s.buf.at_take hle
          have hfind := hat.findAt_line (chr ':')
          have hcolon := find_le_length (Nat.zero_le (s.buf.readable.take crlf).length) (chr ':')
          rw [hlen] at hfind hcolon
          rw [Option.map_some]
          dsimp only
          rw [hfind, Option.bind_some, Nat.add_assoc s.buf.peek, retrieveUntilAt_eq]
          by_cases hc : find (s.buf.readable.take crlf) 0 (chr ':') ≠ crlf
          · have hlt : find (s.buf.readable.take crlf) 0 (chr ':') <
                (s.buf.readable.take crlf).length := by omega
            have hset := setHeaderAt_eq hat s.context.request hlt
            rw [hlen] at hset
            rw [if_pos (by omega), if_pos hc, hset]
            rfl
          · rw [if_neg (by omega), if_neg hc]
            rfl
  | kExpectBody =>
      dsimp only
      rw [retrieveAsStringAt_eq]
  | kGotAll => rfl

end Agree

namespace HttpContext

/-- **The parser is safe.** Whatever the bytes, a call on a fresh context never uses a
pointer outside of the readable region and never fails an assertion, in any number of
iterations; and it does what `parseRequest` does. -/
theorem parseRequestAt_safe (buf : Buffer) (fuel : Nat) :
    parseRequestAt {} buf fuel ≠ .aborted ∧
      parseRequestAt {} buf fuel = parseRequest {} buf fuel := by
  have hsame : parseRequestAt {} buf fuel = parseRequest {} buf fuel := by
    rw [parseRequestAt, parseRequest, funext parseStepAt_eq]
  refine ⟨?_, hsame⟩
  rw [hsame, parseRequest]
  by_cases hpending : BodyPending buf.readable
  · have hspins : Spins {} buf := spins_of_bodyPending hpending
    rw [hspins fuel]
    simp
  · obtain ⟨ok, context, buf', hret⟩ := returns_of_not_bodyPending hpending
    exact Lib.While.Finishes.not_aborted hret fuel

end HttpContext

end Dummyload
