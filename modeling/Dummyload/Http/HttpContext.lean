import Dummyload.Buffer
import Dummyload.Http.HttpRequest
import Dummyload.Lib.While

/-!
# Dummyload.Http.HttpContext

`HttpContext` (`http/HttpContext.h`, `http/HttpContext.cpp`): the request parser,
a `while (hasMore)` loop over four states that consumes the readable bytes of a
`Buffer`.

The loop body is `parseStep`; the loop itself is `Lib.While`, so that the call
returns (`Returns`) and that it never does (`Spins`) are both statable. What a
call on a fresh context does is read off the bytes alone: the request line, then
header lines up to the first line without a colon, then the body. The theorems
of the last section, one for each way the bytes can be, are all that the rest of
the development uses.
-/

namespace Dummyload

open Lib.Lines (Clear unlines)

/-- `HttpRequestParseState`. -/
inductive ParseState
  | kExpectRequestLine | kExpectHeaders | kExpectBody | kGotAll
  deriving DecidableEq, Repr

structure HttpContext where
  state : ParseState := .kExpectRequestLine
  request : HttpRequest := {}
  deriving DecidableEq

/-- `processRequestLine(begin, end)`, where `line` is `[begin, end)` and pointers
are offsets into it: whether it succeeded, and what it wrote to the request.
`none` is the failed assertion of `setMethod`. -/
def processRequestLine (request : HttpRequest) (line : Bytes) : Option (Bool × HttpRequest) :=
  let endp := line.length
  let start := 0
  let space := find line start (chr ' ')
  if space ≠ endp then
    match request.setMethod (slice line start space) with
    | none => none
    | some (false, request) => some (false, request)
    | some (true, request) =>
      let start := space + 1
      let space := find line start (chr ' ')
      if space ≠ endp then
        let question := find (line.take space) start (chr '?')
        let request :=
          if question ≠ space then
            { request with path := slice line start question, query := slice line question space }
          else { request with path := slice line start space }
        let start := space + 1
        if endp - start = 8 ∧ slice line start (endp - 1) = ascii "HTTP/1." then
          if line.getLast? = some (chr '1') then some (true, { request with version := .kHttp11 })
          else if line.getLast? = some (chr '0') then
            some (true, { request with version := .kHttp10 })
          else some (false, request)
        else some (false, request)
      else some (false, request)
  else some (false, request)

/-- The variables of `parseRequest`: its two flags, the context it is called on
and the buffer. -/
structure ParseLoop where
  ok : Bool
  hasMore : Bool
  context : HttpContext
  buf : Buffer
  deriving DecidableEq

/-- `"Content-Length"`. -/
def contentLengthField : Bytes := ascii "Content-Length"

/-- One iteration of `while (hasMore)`; `none` is a failed assertion. -/
def parseStep (s : ParseLoop) : Option ParseLoop :=
  let request := s.context.request
  match s.context.state with
  | .kExpectRequestLine =>
    match s.buf.findCRLF with
    | some crlf =>
      match processRequestLine request (s.buf.readable.take crlf) with
      | none => none
      | some (true, request) =>
        (s.buf.retrieveUntil (crlf + 2)).map fun buf =>
          { s with ok := true, context := ⟨.kExpectHeaders, request⟩, buf := buf }
      | some (false, request) =>
        some { s with
          ok := false
          hasMore := false
          context := { s.context with request := request } }
    | none => some { s with hasMore := false }
  | .kExpectHeaders =>
    match s.buf.findCRLF with
    | some crlf =>
      let line := s.buf.readable.take crlf
      let colon := find line 0 (chr ':')
      let context : HttpContext :=
        if colon ≠ crlf then { s.context with request := request.setHeader line colon }
        else { s.context with state := .kExpectBody }
      (s.buf.retrieveUntil (crlf + 2)).map fun buf => { s with context := context, buf := buf }
    | none => some { s with hasMore := false }
  | .kExpectBody =>
    let contentLength := request.header contentLengthField
    if contentLength = [] then
      some { s with hasMore := false, context := { s.context with state := .kGotAll } }
    else
      let bodyLen := atoi contentLength
      -- the comparison converts `bodyLen` to `size_t`; there is no other branch
      if toSize bodyLen ≤ s.buf.readableBytes then
        (s.buf.retrieveAsString (toSize bodyLen)).map fun (body, buf) =>
          { s with
            hasMore := false
            context := ⟨.kGotAll, { request with body := body }⟩
            buf := buf }
      else some s
  | .kGotAll => some s

namespace HttpContext

/-- The state in which `parseRequest` enters its loop. -/
def enter (context : HttpContext) (buf : Buffer) : ParseLoop := ⟨true, true, context, buf⟩

/-- `parseRequest(buf)`, with fuel for the loop. -/
def parseRequest (context : HttpContext) (buf : Buffer) (fuel : Nat) : Lib.While.Exit ParseLoop :=
  Lib.While.exec ParseLoop.hasMore parseStep fuel (enter context buf)

/-- `parseRequest(buf)` returns `ok`, leaving this context and this buffer. -/
def Returns (context : HttpContext) (buf : Buffer) (ok : Bool) (context' : HttpContext)
    (buf' : Buffer) : Prop :=
  Lib.While.Finishes ParseLoop.hasMore parseStep (enter context buf) ⟨ok, false, context', buf'⟩

/-- `parseRequest(buf)` never returns. -/
def Spins (context : HttpContext) (buf : Buffer) : Prop :=
  Lib.While.Spins ParseLoop.hasMore parseStep (enter context buf)

def gotAll (context : HttpContext) : Bool := context.state = .kGotAll

end HttpContext

/-! ### Searches within a line -/

theorem find_eq_length_iff {line : Bytes} {c : Byte} :
    find line 0 c = line.length ↔ c ∉ line := by
  simp [find, List.idxOf_eq_length_iff]

/-- Does the line hold a `':'`? This is what `kExpectHeaders` takes for a header. -/
def hasColon (line : Bytes) : Bool := decide (chr ':' ∈ line)

/-- `setHeader` on a whole header line, cut at its first `':'`. -/
def setHeaderLine (req : HttpRequest) (line : Bytes) : HttpRequest :=
  req.setHeader line (find line 0 (chr ':'))

/-- The header lines entered one after the other. -/
def setHeaderLines (req : HttpRequest) (hs : List Bytes) : HttpRequest := hs.foldl setHeaderLine req

@[simp] theorem setHeaderLines_nil (req : HttpRequest) : setHeaderLines req [] = req := rfl

@[simp] theorem setHeaderLines_cons (req : HttpRequest) (h : Bytes) (hs : List Bytes) :
    setHeaderLines req (h :: hs) = setHeaderLines (setHeaderLine req h) hs := rfl

/-- Header lines change the header map only. -/
theorem setHeaderLines_eq (req : HttpRequest) (hs : List Bytes) :
    setHeaderLines req hs =
      { req with headers := (setHeaderLines { headers := req.headers } hs).headers } := by
  induction hs generalizing req with
  | nil => rfl
  | cons h hs ih =>
      rw [setHeaderLines_cons, ih]
      rfl

/-! ### The request line in parts

`processRequestLine` walks over the line with pointers; cut at its first two
spaces the line is a method, a target and a version, and the walk is a function
of these. -/

theorem find_append (a l : Bytes) (c : Byte) :
    find (a ++ l) a.length c = a.length + l.idxOf c := by
  simp [find]

theorem find_part {a b rest : Bytes} {c : Byte} (h : c ∉ b) :
    find (a ++ (b ++ c :: rest)) a.length c = a.length + b.length := by
  rw [find_append, List.idxOf_append_of_notMem h]
  simp

theorem slice_within (a rest : Bytes) {b : Bytes} {i j : Nat} (hij : i ≤ j) (hj : j ≤ b.length) :
    slice (a ++ (b ++ rest)) (a.length + i) (a.length + j) = (b.drop i).take (j - i) := by
  rw [slice, ← List.drop_drop, List.drop_left, List.drop_append_of_le_length (by omega),
    Nat.add_sub_add_left, List.take_append_of_le_length (by rw [List.length_drop]; omega)]

theorem slice_part (a b rest : Bytes) :
    slice (a ++ (b ++ rest)) a.length (a.length + b.length) = b := by
  have h := slice_within a rest (b := b) (Nat.zero_le _) le_rfl
  rwa [Nat.add_zero, List.drop_zero, Nat.sub_zero, List.take_length] at h

theorem take_part (a b rest : Bytes) : (a ++ (b ++ rest)).take (a.length + b.length) = a ++ b := by
  rw [← List.append_assoc, ← List.length_append, List.take_left]

/-- The assignments to path and query: the target is cut before its first `'?'`. -/
def setTarget (req : HttpRequest) (t : Bytes) : HttpRequest :=
  if chr '?' ∈ t then
    { req with path := t.take (t.idxOf (chr '?')), query := t.drop (t.idxOf (chr '?')) }
  else { req with path := t }

/-- The version that the end of a request line names. -/
def versionOf (v : Bytes) : Option Version :=
  if v.length = 8 ∧ slice v 0 7 = ascii "HTTP/1." then
    if v.getLast? = some (chr '1') then some .kHttp11
    else if v.getLast? = some (chr '0') then some .kHttp10
    else none
  else none

section Parts

variable {m t v : Bytes}

/-- The line, cut after its first space. -/
theorem line_first (m t v : Bytes) : m ++ (chr ' ' :: (t ++ (chr ' ' :: v))) =
    (m ++ [chr ' ']) ++ (t ++ (chr ' ' :: v)) := by
  simp

/-- The line, cut after its second space. -/
theorem line_second (m t v : Bytes) : m ++ (chr ' ' :: (t ++ (chr ' ' :: v))) =
    (m ++ [chr ' '] ++ t ++ [chr ' ']) ++ v := by
  simp

theorem length_first (m : Bytes) : (m ++ [chr ' ']).length = m.length + 1 := by
  simp

theorem length_second (m t : Bytes) :
    (m ++ [chr ' '] ++ t ++ [chr ' ']).length = m.length + 1 + t.length + 1 := by
  simp only [List.length_append, List.length_singleton]

theorem length_parts (m t v : Bytes) : (m ++ (chr ' ' :: (t ++ (chr ' ' :: v)))).length =
    m.length + 1 + t.length + 1 + v.length := by
  rw [line_second, List.length_append, length_second]

theorem find_firstSpace (hm : chr ' ' ∉ m) :
    find (m ++ (chr ' ' :: (t ++ (chr ' ' :: v)))) 0 (chr ' ') = m.length := by
  have h : find ([] ++ (m ++ (chr ' ' :: (t ++ (chr ' ' :: v))))) 0 (chr ' ') = 0 + m.length :=
    find_part hm
  rwa [List.nil_append, Nat.zero_add] at h

theorem find_secondSpace (ht : chr ' ' ∉ t) :
    find (m ++ (chr ' ' :: (t ++ (chr ' ' :: v)))) (m.length + 1) (chr ' ') =
      m.length + 1 + t.length := by
  rw [line_first, ← length_first]
  exact find_part ht

theorem find_question (m t v : Bytes) :
    find ((m ++ (chr ' ' :: (t ++ (chr ' ' :: v)))).take (m.length + 1 + t.length))
      (m.length + 1) (chr '?') = m.length + 1 + t.idxOf (chr '?') := by
  rw [line_first, ← length_first, take_part, find_append]

theorem slice_method (m t v : Bytes) :
    slice (m ++ (chr ' ' :: (t ++ (chr ' ' :: v)))) 0 m.length = m := by
  have h := slice_part [] m (chr ' ' :: (t ++ (chr ' ' :: v)))
  rwa [List.nil_append, List.length_nil, Nat.zero_add] at h

/-- A piece of the target. -/
theorem slice_target {i j : Nat} (hij : i ≤ j) (hj : j ≤ t.length) :
    slice (m ++ (chr ' ' :: (t ++ (chr ' ' :: v)))) (m.length + 1 + i) (m.length + 1 + j) =
      (t.drop i).take (j - i) := by
  rw [line_first, ← length_first, slice_within _ _ hij hj]

theorem slice_target_zero {j : Nat} (hj : j ≤ t.length) :
    slice (m ++ (chr ' ' :: (t ++ (chr ' ' :: v)))) (m.length + 1) (m.length + 1 + j) =
      t.take j := by
  have h : slice (m ++ (chr ' ' :: (t ++ (chr ' ' :: v)))) (m.length + 1 + 0) (m.length + 1 + j) =
      (t.drop 0).take (j - 0) := slice_target (Nat.zero_le j) hj
  rwa [Nat.add_zero, List.drop_zero, Nat.sub_zero] at h

theorem slice_version (m t v : Bytes) :
    slice (m ++ (chr ' ' :: (t ++ (chr ' ' :: v)))) (m.length + 1 + t.length + 1)
      (m.length + 1 + t.length + 1 + v.length - 1) = slice v 0 (v.length - 1) := by
  rw [line_second, slice, ← length_second, List.drop_left, slice, List.drop_zero, Nat.sub_zero]
  congr 1
  omega

/-- The assignments to path and query, as `processRequestLine` makes them. -/
theorem setTarget_slices (req : HttpRequest) (m t v : Bytes) :
    (if m.length + 1 + t.idxOf (chr '?') ≠ m.length + 1 + t.length then
      { req with
        path := slice (m ++ (chr ' ' :: (t ++ (chr ' ' :: v)))) (m.length + 1)
          (m.length + 1 + t.idxOf (chr '?')),
        query := slice (m ++ (chr ' ' :: (t ++ (chr ' ' :: v))))
          (m.length + 1 + t.idxOf (chr '?')) (m.length + 1 + t.length) }
    else
      { req with
        path := slice (m ++ (chr ' ' :: (t ++ (chr ' ' :: v)))) (m.length + 1)
          (m.length + 1 + t.length) }) = setTarget req t := by
  by_cases hq : chr '?' ∈ t
  · have hidx : t.idxOf (chr '?') < t.length := List.idxOf_lt_length_iff.mpr hq
    have hrest : (t.drop (t.idxOf (chr '?'))).take (t.length - t.idxOf (chr '?')) =
        t.drop (t.idxOf (chr '?')) := List.take_of_length_le (by rw [List.length_drop])
    rw [if_pos (by omega), slice_target_zero hidx.le, slice_target hidx.le le_rfl, setTarget,
      if_pos hq, hrest]
  · rw [List.idxOf_eq_length hq, if_neg (fun h => h rfl), slice_target_zero le_rfl, setTarget,
      if_neg hq, List.take_length]

theorem processRequestLine_parts (hm : chr ' ' ∉ m) (ht : chr ' ' ∉ t) (req : HttpRequest) :
    processRequestLine req (m ++ (chr ' ' :: (t ++ (chr ' ' :: v)))) =
      match req.setMethod m with
      | none => none
      | some (false, req) => some (false, req)
      | some (true, req) =>
        match versionOf v with
        | some version => some (true, { setTarget req t with version := version })
        | none => some (false, setTarget req t) := by
  have hlen := length_parts m t v
  unfold processRequestLine
  dsimp only
  rw [find_firstSpace hm, if_pos (by omega), slice_method]
  cases req.setMethod m with
  | none => rfl
  | some r =>
      obtain ⟨ok, req⟩ := r
      cases ok with
      | false => rfl
      | true =>
          dsimp only
          rw [find_secondSpace ht, if_pos (by omega), find_question, hlen, slice_version,
            setTarget_slices]
          by_cases hv : v.length = 8
          · have hlast : (m ++ (chr ' ' :: (t ++ (chr ' ' :: v)))).getLast? = v.getLast? := by
              rw [line_second,
                List.getLast?_append_of_ne_nil _ (List.ne_nil_of_length_pos (by omega))]
            have hsub :
                m.length + 1 + t.length + 1 + v.length - (m.length + 1 + t.length + 1) = 8 := by
              omega
            have hpred : 8 - 1 = 7 := rfl
            rw [hlast, hsub, versionOf, hv, hpred]
            split_ifs <;> rfl
          · rw [if_neg (fun h => hv (by omega)), versionOf, if_neg (fun h => hv h.1)]

end Parts

@[simp] theorem setHeaderLines_body (req : HttpRequest) (hs : List Bytes) :
    (setHeaderLines req hs).body = req.body := by
  induction hs generalizing req with
  | nil => rfl
  | cons h hs ih => rw [setHeaderLines_cons, ih]; rfl

/-- The Content-Length the parser goes by, empty when there is none. -/
def contentLength (req : HttpRequest) : Bytes := req.header contentLengthField

/-- The number of bytes after the header section that the parser asks for: none
without a Content-Length, otherwise the `int` of `atoi` as a `size_t`. -/
def bodyTaken (req : HttpRequest) : Nat :=
  if contentLength req = [] then 0 else toSize (atoi (contentLength req))

theorem bodyTaken_congr {req req' : HttpRequest} (h : req.headers = req'.headers) :
    bodyTaken req = bodyTaken req' := by
  have hc : contentLength req = contentLength req' := by
    rw [contentLength, contentLength, HttpRequest.header, HttpRequest.header, h]
  rw [bodyTaken, bodyTaken, hc]

/-- On a request whose method is not set yet no assertion fails. -/
theorem processRequestLine_fresh (line : Bytes) :
    ∃ ok req, processRequestLine {} line = some (ok, req) := by
  unfold processRequestLine
  dsimp only
  split
  · obtain ⟨ok, req, h⟩ :=
      HttpRequest.setMethod_fresh (slice line 0 (find line 0 (chr ' ')))
    rw [h]
    cases ok with
    | false => exact ⟨_, _, rfl⟩
    | true =>
        dsimp only
        split_ifs <;> exact ⟨_, _, rfl⟩
  · exact ⟨_, _, rfl⟩

/-- The request line leaves header map and body alone. -/
theorem processRequestLine_frame {req req' : HttpRequest} {line : Bytes} {ok : Bool}
    (h : processRequestLine req line = some (ok, req')) :
    req'.headers = req.headers ∧ req'.body = req.body := by
  have hset : ∀ {m : Bytes} {b : Bool} {r : HttpRequest}, req.setMethod m = some (b, r) →
      r.headers = req.headers ∧ r.body = req.body := by
    intro m b r hr
    rw [HttpRequest.setMethod] at hr
    split at hr
    · simp only [Option.some.injEq, Prod.mk.injEq] at hr
      rw [← hr.2]
      exact ⟨rfl, rfl⟩
    · cases hr
  unfold processRequestLine at h
  dsimp only at h
  by_cases hspace : find line 0 (chr ' ') ≠ line.length
  · rw [if_pos hspace] at h
    cases hm : req.setMethod (slice line 0 (find line 0 (chr ' '))) with
    | none => rw [hm] at h; cases h
    | some r =>
        obtain ⟨b, r⟩ := r
        rw [hm] at h
        cases b with
        | false =>
            simp only [Option.some.injEq, Prod.mk.injEq] at h
            rw [← h.2]
            exact hset hm
        | true =>
            have hm' := hset hm
            dsimp only at h
            split_ifs at h <;>
              (simp only [Option.some.injEq, Prod.mk.injEq] at h; rw [← h.2]; exact hm')
  · rw [if_neg hspace] at h
    simp only [Option.some.injEq, Prod.mk.injEq] at h
    rw [← h.2]
    exact ⟨rfl, rfl⟩

/-! ### One iteration -/

section Step

variable {ok : Bool} {req req' : HttpRequest} {buf : Buffer} {line rest : Bytes}

theorem take_line (hb : buf.readable = line ++ kCRLF ++ rest) :
    buf.readable.take line.length = line := by
  rw [hb, List.append_assoc, List.take_left]

theorem retrieve_line (hb : buf.readable = line ++ kCRLF ++ rest) :
    ∃ buf', buf.retrieveUntil (line.length + 2) = some buf' ∧ buf'.readable = rest := by
  have hlen := congrArg List.length hb
  simp only [Buffer.length_readable, List.length_append, kCRLF, List.length_cons] at hlen
  have hle : line.length + 2 ≤ buf.readableBytes := by omega
  obtain ⟨buf', hbuf', hread⟩ := Buffer.retrieveUntil_eq_some hle
  refine ⟨buf', hbuf', ?_⟩
  rw [hread, hb]
  exact List.drop_left' (by simp [kCRLF])

theorem parseStep_requestLine (ok : Bool) (hc : Clear kCRLF line)
    (hb : buf.readable = line ++ kCRLF ++ rest)
    (hp : processRequestLine req line = some (true, req')) :
    ∃ buf', parseStep ⟨ok, true, ⟨.kExpectRequestLine, req⟩, buf⟩ =
        some ⟨true, true, ⟨.kExpectHeaders, req'⟩, buf'⟩ ∧ buf'.readable = rest := by
  obtain ⟨buf', hbuf', hread⟩ := retrieve_line hb
  refine ⟨buf', ?_, hread⟩
  simp [parseStep, Buffer.findCRLF_line hc hb, take_line hb, hp, hbuf']

theorem parseStep_rejected (hc : Clear kCRLF line) (hb : buf.readable = line ++ kCRLF ++ rest)
    (hp : processRequestLine req line = some (false, req')) :
    parseStep ⟨ok, true, ⟨.kExpectRequestLine, req⟩, buf⟩ =
      some ⟨false, false, ⟨.kExpectRequestLine, req'⟩, buf⟩ := by
  simp [parseStep, Buffer.findCRLF_line hc hb, take_line hb, hp]

theorem parseStep_noRequestLine (hb : ¬ kCRLF <:+: buf.readable) :
    parseStep ⟨ok, true, ⟨.kExpectRequestLine, req⟩, buf⟩ =
      some ⟨ok, false, ⟨.kExpectRequestLine, req⟩, buf⟩ := by
  simp [parseStep, Buffer.findCRLF_eq_none.mpr hb]

theorem parseStep_header (ok : Bool) (req : HttpRequest) (hc : Clear kCRLF line)
    (hb : buf.readable = line ++ kCRLF ++ rest) (hcolon : hasColon line = true) :
    ∃ buf', parseStep ⟨ok, true, ⟨.kExpectHeaders, req⟩, buf⟩ =
        some ⟨ok, true, ⟨.kExpectHeaders, setHeaderLine req line⟩, buf'⟩ ∧
      buf'.readable = rest := by
  obtain ⟨buf', hbuf', hread⟩ := retrieve_line hb
  have hfind : find line 0 (chr ':') ≠ line.length := by
    rw [Ne, find_eq_length_iff, not_not]
    simpa [hasColon] using hcolon
  refine ⟨buf', ?_, hread⟩
  simp [parseStep, Buffer.findCRLF_line hc hb, take_line hb, hbuf', hfind, setHeaderLine]

theorem parseStep_endOfHeaders (ok : Bool) (req : HttpRequest) (hc : Clear kCRLF line)
    (hb : buf.readable = line ++ kCRLF ++ rest) (hcolon : hasColon line = false) :
    ∃ buf', parseStep ⟨ok, true, ⟨.kExpectHeaders, req⟩, buf⟩ =
        some ⟨ok, true, ⟨.kExpectBody, req⟩, buf'⟩ ∧ buf'.readable = rest := by
  obtain ⟨buf', hbuf', hread⟩ := retrieve_line hb
  have hfind : find line 0 (chr ':') = line.length := by
    rw [find_eq_length_iff]
    simpa [hasColon] using hcolon
  refine ⟨buf', ?_, hread⟩
  simp [parseStep, Buffer.findCRLF_line hc hb, take_line hb, hbuf', hfind]

theorem parseStep_noHeader (hb : ¬ kCRLF <:+: buf.readable) :
    parseStep ⟨ok, true, ⟨.kExpectHeaders, req⟩, buf⟩ =
      some ⟨ok, false, ⟨.kExpectHeaders, req⟩, buf⟩ := by
  simp [parseStep, Buffer.findCRLF_eq_none.mpr hb]

theorem parseStep_body (ok : Bool) (hbody : req.body = [])
    (hlen : bodyTaken req ≤ buf.readable.length) :
    ∃ buf', parseStep ⟨ok, true, ⟨.kExpectBody, req⟩, buf⟩ =
        some ⟨ok, false, ⟨.kGotAll, { req with body := buf.readable.take (bodyTaken req) }⟩, buf'⟩ ∧
      buf'.readable = buf.readable.drop (bodyTaken req) := by
  by_cases h : contentLength req = []
  · have htaken : bodyTaken req = 0 := by rw [bodyTaken, if_pos h]
    rw [htaken, List.take_zero, ← hbody, List.drop_zero]
    rw [contentLength] at h
    exact ⟨buf, by simp [parseStep, h], rfl⟩
  · have htaken : bodyTaken req = toSize (atoi (contentLength req)) := by rw [bodyTaken, if_neg h]
    rw [htaken] at hlen ⊢
    rw [contentLength] at h hlen ⊢
    rw [Buffer.length_readable] at hlen
    obtain ⟨buf', hbuf', hread⟩ := Buffer.retrieveAsString_eq_some hlen
    exact ⟨buf', by simp [parseStep, h, hlen, hbuf'], hread⟩

/-- A body that has not arrived whole: the iteration changes nothing. -/
theorem parseStep_bodyPending (hlen : buf.readable.length < bodyTaken req) :
    parseStep ⟨ok, true, ⟨.kExpectBody, req⟩, buf⟩ =
      some ⟨ok, true, ⟨.kExpectBody, req⟩, buf⟩ := by
  have h : contentLength req ≠ [] := by
    intro h
    rw [bodyTaken, if_pos h] at hlen
    exact Nat.not_lt_zero _ hlen
  rw [bodyTaken, if_neg h, Buffer.length_readable] at hlen
  rw [contentLength] at h hlen
  simp [parseStep, h, Nat.not_le.mpr hlen]

end Step

/-! ### What a call on a fresh context does

Either no line of the readable bytes is complete, or the first line is no request
line, or the bytes end within the header section, or the header section is
complete; then the body has arrived or is pending. -/

/-- `w` starts with a line that `processRequestLine` rejects. -/
structure RejectedLine (w line rest : Bytes) : Prop where
  clear : Clear kCRLF line
  rejected : ∃ req, processRequestLine {} line = some (false, req)
  split : w = line ++ kCRLF ++ rest

/-- `w` is a request line, header lines, and a `part` without a complete line. -/
structure PartialHead (w line : Bytes) (req : HttpRequest) (hs : List Bytes) (part : Bytes) :
    Prop where
  clear : Clear kCRLF line
  accepted : processRequestLine {} line = some (true, req)
  headers : ∀ h ∈ hs, hasColon h = true ∧ Clear kCRLF h
  unfinished : ¬ kCRLF <:+: part
  split : w = line ++ kCRLF ++ (unlines kCRLF hs ++ part)

/-- `w` starts with a request line, header lines and the line `last` that ends
the header section for the parser, the first one without a colon. -/
structure HeadSection (w line : Bytes) (req : HttpRequest) (hs : List Bytes) (last rest : Bytes) :
    Prop where
  clear : Clear kCRLF line
  accepted : processRequestLine {} line = some (true, req)
  headers : ∀ h ∈ hs, hasColon h = true ∧ Clear kCRLF h
  last_noColon : hasColon last = false
  last_clear : Clear kCRLF last
  split : w = line ++ kCRLF ++ (unlines kCRLF hs ++ (last ++ kCRLF ++ rest))

/-- The four ways the readable bytes can be. -/
theorem head_cases (w : Bytes) :
    ¬ kCRLF <:+: w ∨ (∃ line rest, RejectedLine w line rest) ∨
      (∃ line req hs part, PartialHead w line req hs part) ∨
      ∃ line req hs last rest, HeadSection w line req hs last rest := by
  by_cases hw : kCRLF <:+: w
  · obtain ⟨line, rest, rfl, hline⟩ := Lib.Lines.exists_line kCRLF_ne_nil hw
    obtain ⟨ok, req, hreq⟩ := processRequestLine_fresh line
    cases ok with
    | false => exact Or.inr (Or.inl ⟨line, rest, hline, ⟨req, hreq⟩, rfl⟩)
    | true =>
        refine Or.inr (Or.inr ?_)
        rcases Lib.Lines.scan kCRLF_ne_nil hasColon rest with
          ⟨hs, part, rfl, hhs, hpart⟩ | ⟨hs, last, rest, rfl, hhs, hlast, hclear⟩
        · exact Or.inl ⟨line, req, hs, part, hline, hreq, hhs, hpart, rfl⟩
        · exact Or.inr ⟨line, req, hs, last, rest, hline, hreq, hhs, hlast, hclear, rfl⟩
  · exact Or.inl hw

/-- A header section is delimited in one way only. -/
theorem HeadSection.unique {w line line' last last' rest rest' : Bytes} {req req' : HttpRequest}
    {hs hs' : List Bytes} (h : HeadSection w line req hs last rest)
    (h' : HeadSection w line' req' hs' last' rest') :
    line = line' ∧ req = req' ∧ hs = hs' ∧ last = last' ∧ rest = rest' := by
  obtain ⟨rfl, htail⟩ := Lib.Lines.line_unique h.clear h'.clear (h.split.symm.trans h'.split)
  obtain ⟨rfl, rfl, rfl⟩ := Lib.Lines.scan_unique h.headers h'.headers h.last_noColon
    h'.last_noColon h.last_clear h'.last_clear htail
  have hreq := h.accepted.symm.trans h'.accepted
  simp only [Option.some.injEq, Prod.mk.injEq, true_and] at hreq
  exact ⟨rfl, hreq, rfl, rfl, rfl⟩

namespace HttpContext

open Lib.While (Steps)

variable {buf : Buffer} {line last part rest : Bytes} {hs : List Bytes} {req : HttpRequest}

/-- The iterations over complete header lines. -/
theorem steps_headers (ok : Bool) (req : HttpRequest)
    (hhs : ∀ h ∈ hs, hasColon h = true ∧ Clear kCRLF h)
    (hb : buf.readable = unlines kCRLF hs ++ rest) :
    ∃ buf', Steps ParseLoop.hasMore parseStep ⟨ok, true, ⟨.kExpectHeaders, req⟩, buf⟩
        ⟨ok, true, ⟨.kExpectHeaders, setHeaderLines req hs⟩, buf'⟩ ∧ buf'.readable = rest := by
  induction hs generalizing buf req with
  | nil => exact ⟨buf, .refl, by simpa using hb⟩
  | cons h hs ih =>
      obtain ⟨hh, hhs⟩ := List.forall_mem_cons.mp hhs
      have hb' : buf.readable = h ++ kCRLF ++ (unlines kCRLF hs ++ rest) := by simpa using hb
      obtain ⟨buf₁, h₁, hread₁⟩ := parseStep_header ok req hh.2 hb' hh.1
      obtain ⟨buf₂, h₂, hread₂⟩ := ih (setHeaderLine req h) hhs hread₁
      exact ⟨buf₂, Steps.head rfl h₁ h₂, hread₂⟩

/-- The iterations over the request line and complete header lines. -/
theorem steps_head (hline : Clear kCRLF line) (hreq : processRequestLine {} line = some (true, req))
    (hhs : ∀ h ∈ hs, hasColon h = true ∧ Clear kCRLF h)
    (hb : buf.readable = line ++ kCRLF ++ (unlines kCRLF hs ++ rest)) :
    ∃ buf', Steps ParseLoop.hasMore parseStep (enter {} buf)
        ⟨true, true, ⟨.kExpectHeaders, setHeaderLines req hs⟩, buf'⟩ ∧ buf'.readable = rest := by
  obtain ⟨buf₁, h₁, hread₁⟩ := parseStep_requestLine true hline hb hreq
  obtain ⟨buf₂, h₂, hread₂⟩ := steps_headers true req hhs hread₁
  exact ⟨buf₂, Steps.head rfl h₁ h₂, hread₂⟩

/-- The iterations over a complete header section. -/
theorem steps_headSection (h : HeadSection buf.readable line req hs last rest) :
    ∃ buf', Steps ParseLoop.hasMore parseStep (enter {} buf)
        ⟨true, true, ⟨.kExpectBody, setHeaderLines req hs⟩, buf'⟩ ∧ buf'.readable = rest := by
  obtain ⟨buf₁, h₁, hread₁⟩ := steps_head h.clear h.accepted h.headers h.split
  obtain ⟨buf₂, h₂, hread₂⟩ := parseStep_endOfHeaders true (setHeaderLines req hs)
    h.last_clear hread₁ h.last_noColon
  exact ⟨buf₂, h₁.tail rfl h₂, hread₂⟩

/-- No complete line: the call returns and changes nothing. -/
theorem returns_noLine (hb : ¬ kCRLF <:+: buf.readable) : Returns {} buf true {} buf :=
  Steps.exit .refl rfl (parseStep_noRequestLine hb) rfl

/-- A first line that is no request line is rejected and stays unread. -/
theorem returns_rejected (hc : Clear kCRLF line) (hb : buf.readable = line ++ kCRLF ++ rest)
    (hreq : processRequestLine {} line = some (false, req)) :
    Returns {} buf false ⟨.kExpectRequestLine, req⟩ buf :=
  Steps.exit .refl rfl (parseStep_rejected hc hb hreq) rfl

/-- An unfinished header section: the call consumes the complete lines. -/
theorem returns_partial (h : PartialHead buf.readable line req hs part) :
    ∃ buf', Returns {} buf true ⟨.kExpectHeaders, setHeaderLines req hs⟩ buf' ∧
      buf'.readable = part := by
  obtain ⟨buf', hsteps, hread⟩ := steps_head h.clear h.accepted h.headers h.split
  refine ⟨buf', hsteps.exit rfl (parseStep_noHeader ?_) rfl, hread⟩
  rw [hread]
  exact h.unfinished

/-- The request whose header section was read. -/
theorem HeadSection.body_eq_nil {w : Bytes} (h : HeadSection w line req hs last rest) :
    (setHeaderLines req hs).body = [] := by
  rw [setHeaderLines_body, (processRequestLine_frame h.accepted).2]

/-- A complete header section whose body has arrived: the call gets all. -/
theorem returns_complete (h : HeadSection buf.readable line req hs last rest)
    (hlen : bodyTaken (setHeaderLines req hs) ≤ rest.length) :
    ∃ buf', Returns {} buf true ⟨.kGotAll, { setHeaderLines req hs with
        body := rest.take (bodyTaken (setHeaderLines req hs)) }⟩ buf' ∧
      buf'.readable = rest.drop (bodyTaken (setHeaderLines req hs)) := by
  obtain ⟨buf₁, h₁, hread₁⟩ := steps_headSection h
  obtain ⟨buf₂, h₂, hread₂⟩ := parseStep_body true (HeadSection.body_eq_nil h)
    (show _ ≤ buf₁.readable.length by rwa [hread₁])
  rw [hread₁] at h₂ hread₂
  exact ⟨buf₂, h₁.exit rfl h₂ rfl, hread₂⟩

/-- A complete header section whose body has not arrived: the call spins. -/
theorem spins_bodyPending (h : HeadSection buf.readable line req hs last rest)
    (hlen : rest.length < bodyTaken (setHeaderLines req hs)) : Spins {} buf := by
  obtain ⟨buf₁, h₁, hread₁⟩ := steps_headSection h
  refine h₁.spins_iff.mpr (Lib.While.spins_of_stuck rfl (parseStep_bodyPending ?_))
  rwa [hread₁]

theorem Returns.unique {context context₁ context₂ : HttpContext} {buf buf₁ buf₂ : Buffer}
    {ok₁ ok₂ : Bool} (h₁ : Returns context buf ok₁ context₁ buf₁)
    (h₂ : Returns context buf ok₂ context₂ buf₂) :
    ok₁ = ok₂ ∧ context₁ = context₂ ∧ buf₁ = buf₂ := by
  have h := Lib.While.Finishes.unique h₁ h₂
  simp only [ParseLoop.mk.injEq, true_and] at h
  exact h

/-- **Inverting `gotAll()`.** A call on a fresh context that got all of a request
read a complete header section and took `bodyTaken` of the bytes after it. -/
theorem returns_gotAll {ok : Bool} {context : HttpContext} {buf' : Buffer}
    (hret : Returns {} buf ok context buf') (hall : context.gotAll = true) :
    ∃ line req hs last rest, HeadSection buf.readable line req hs last rest ∧
      bodyTaken (setHeaderLines req hs) ≤ rest.length ∧
      buf'.readable = rest.drop (bodyTaken (setHeaderLines req hs)) := by
  rcases head_cases buf.readable with hno | ⟨line, rest, hrej⟩ | ⟨line, req, hs, part, hpart⟩ |
    ⟨line, req, hs, last, rest, hhead⟩
  · obtain ⟨-, rfl, -⟩ := hret.unique (returns_noLine hno)
    cases hall
  · obtain ⟨req, hreq⟩ := hrej.rejected
    obtain ⟨-, rfl, -⟩ := hret.unique (returns_rejected hrej.clear hrej.split hreq)
    cases hall
  · obtain ⟨buf'', hpart, -⟩ := returns_partial hpart
    obtain ⟨-, rfl, -⟩ := hret.unique hpart
    cases hall
  · by_cases hlen : bodyTaken (setHeaderLines req hs) ≤ rest.length
    · obtain ⟨buf'', hgot, hread⟩ := returns_complete hhead hlen
      obtain ⟨-, -, rfl⟩ := hret.unique hgot
      exact ⟨line, req, hs, last, rest, hhead, hlen, hread⟩
    · exact absurd hret (spins_bodyPending hhead (Nat.not_le.mp hlen)).not_finishes

end HttpContext

end Dummyload
