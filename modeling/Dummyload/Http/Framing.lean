import Dummyload.Http.HttpContext

/-!
# Dummyload.Http.Framing

What `parseRequest` accepts as a complete request, over arbitrary bytes.

`WellFramed` is the shape a complete request should have. The parser is laxer in
two places: *any* line without a colon ends the header section, and the
Content-Length is whatever `atoi` makes of the last such field.
`gotAll_wellFramed_iff` says exactly which accepted inputs are well framed.
-/

namespace Dummyload

open Lib.Lines (Clear unlines)

/-- The name and the value `setHeader` reads off a header line. -/
def fieldName (h : Bytes) : Bytes := h.take (find h 0 (chr ':'))
def fieldValue (h : Bytes) : Bytes := HttpRequest.trim (h.drop (find h 0 (chr ':') + 1))

/-- A non-empty string of decimal digits. -/
def IsDecimal (v : Bytes) : Prop := v ≠ [] ∧ ∀ d ∈ v, isdigit d = true

/-- Is the header line a Content-Length field? -/
def IsLength (h : Bytes) : Prop := fieldName h = contentLengthField

instance : DecidablePred IsLength := fun h =>
  inferInstanceAs (Decidable (fieldName h = contentLengthField))

instance : DecidablePred IsDecimal := fun v =>
  inferInstanceAs (Decidable (v ≠ [] ∧ ∀ d ∈ v, isdigit d = true))

/-- `consumed` is an accepted request line, header lines with a colon, an empty
line, and a body as long as its Content-Length says. -/
def WellFramed (consumed : Bytes) : Prop :=
  ∃ line req hs body, Clear kCRLF line ∧ processRequestLine {} line = some (true, req) ∧
    (∀ h ∈ hs, hasColon h = true ∧ Clear kCRLF h) ∧
    consumed = line ++ kCRLF ++ (unlines kCRLF hs ++ (kCRLF ++ body)) ∧
    ((∀ h ∈ hs, ¬ IsLength h) → body = []) ∧
    ((∃ h ∈ hs, IsLength h) →
      ∃ h ∈ hs, IsLength h ∧ IsDecimal (fieldValue h) ∧ decimal (fieldValue h) = body.length)

namespace HttpContext

/-- A Content-Length field is only there when a decimal one names the number of
bytes that `atoi` takes from the last one. -/
def LengthAgrees (req : HttpRequest) (hs : List Bytes) : Prop :=
  (∃ h ∈ hs, IsLength h) →
    ∃ h ∈ hs, IsLength h ∧ IsDecimal (fieldValue h) ∧ decimal (fieldValue h) =
      bodyTaken (setHeaderLines req hs)

/-- The header section of `w` ends with an empty line, and its Content-Length
fields agree with what `atoi` reads. -/
def ProperHead (w : Bytes) : Prop :=
  ∃ line req hs rest, HeadSection w line req hs [] rest ∧ LengthAgrees req hs

/-! ### The Content-Length in force -/

theorem setHeaderLine_eq (req : HttpRequest) (h : Bytes) :
    setHeaderLine req h =
      { req with headers := req.headers.insert (fieldName h) (fieldValue h) } := rfl

theorem header_setHeaderLine (req : HttpRequest) (h field : Bytes) :
    (setHeaderLine req h).header field =
      if fieldName h = field then fieldValue h else req.header field := by
  simp only [HttpRequest.header, setHeaderLine_eq, Std.ExtTreeMap.getElem?_insert,
    Std.compare_eq_iff_eq]
  by_cases hf : fieldName h = field
  · simp [hf]
  · simp [hf]

theorem header_setHeaderLines {req : HttpRequest} {field : Bytes} {hs : List Bytes}
    (h : ∀ x ∈ hs, fieldName x ≠ field) :
    (setHeaderLines req hs).header field = req.header field := by
  induction hs generalizing req with
  | nil => rfl
  | cons x hs ih =>
      obtain ⟨hx, hhs⟩ := List.forall_mem_cons.mp h
      rw [setHeaderLines_cons, ih hhs, header_setHeaderLine, if_neg hx]

theorem contentLength_concat (req : HttpRequest) (hs : List Bytes) (h : Bytes) :
    contentLength (setHeaderLines req (hs ++ [h])) =
      if IsLength h then fieldValue h else contentLength (setHeaderLines req hs) := by
  have hfold : setHeaderLines req (hs ++ [h]) = setHeaderLine (setHeaderLines req hs) h := by
    simp [setHeaderLines]
  rw [contentLength, hfold, header_setHeaderLine]
  rfl

/-- Without a Content-Length field no body is taken. -/
theorem bodyTaken_eq_zero {w line last rest : Bytes} {req : HttpRequest} {hs : List Bytes}
    (hhead : HeadSection w line req hs last rest) (h : ∀ x ∈ hs, ¬ IsLength x) :
    bodyTaken (setHeaderLines req hs) = 0 := by
  have hempty : req.header contentLengthField = [] := by
    rw [HttpRequest.header, (processRequestLine_frame hhead.accepted).1]
    simp
  rw [bodyTaken, contentLength, header_setHeaderLines h, hempty, if_pos rfl]

/-- A decimal Content-Length below 2³¹, when it is the last, is taken literally. -/
theorem lengthAgrees_of_decimal {req : HttpRequest} {hs : List Bytes} {h : Bytes}
    (hlen : IsLength h) (hdec : IsDecimal (fieldValue h)) (hlt : decimal (fieldValue h) < 2 ^ 31) :
    LengthAgrees req (hs ++ [h]) := by
  intro _
  refine ⟨h, by simp, hlen, hdec, ?_⟩
  rw [bodyTaken, contentLength_concat, if_pos hlen, if_neg hdec.1, atoi_digits hdec.1 hdec.2 hlt,
    toSize_natCast (by omega)]

/-! ### The shape of what was consumed -/

/-- A well-framed prefix of the input delimits its header section. -/
theorem headSection_of_wellFramed (tail : Bytes) {consumed line : Bytes} {req : HttpRequest}
    {hs : List Bytes} {body : Bytes} (hline : Clear kCRLF line)
    (hreq : processRequestLine {} line = some (true, req))
    (hhs : ∀ h ∈ hs, hasColon h = true ∧ Clear kCRLF h)
    (hc : consumed = line ++ kCRLF ++ (unlines kCRLF hs ++ (kCRLF ++ body))) :
    HeadSection (consumed ++ tail) line req hs [] (body ++ tail) where
  clear := hline
  accepted := hreq
  headers := hhs
  last_noColon := rfl
  last_clear := by decide
  split := by simp [hc]

/-- **Framing.** When `parseRequest` on a fresh context got all of a request, the
bytes it consumed are well framed if and only if the header section is proper. -/
theorem gotAll_wellFramed_iff (buf : Buffer) (ok : Bool) (context : HttpContext) (buf' : Buffer)
    (hret : Returns {} buf ok context buf') (hall : context.gotAll = true) :
    (∃ consumed, buf.readable = consumed ++ buf'.readable ∧ WellFramed consumed) ↔
      ProperHead buf.readable := by
  obtain ⟨line, req, hs, last, rest, hhead, hle, hread⟩ := returns_gotAll hret hall
  constructor
  · intro hex
    obtain ⟨consumed, hsplit, line', req', hs', body, hline, hreq, hhs, hc, -, hlen⟩ := hex
    have hhead' := headSection_of_wellFramed buf'.readable hline hreq hhs hc
    rw [← hsplit] at hhead'
    obtain ⟨rfl, rfl, rfl, rfl, rfl⟩ := hhead.unique hhead'
    -- the body is what was taken
    have hbody : body.length = bodyTaken (setHeaderLines req hs) := by
      have hlenEq := congrArg List.length hread
      rw [List.length_drop] at hlenEq
      rw [List.length_append] at hlenEq hle
      omega
    refine ⟨line, req, hs, _, hhead, fun h => ?_⟩
    rw [← hbody]
    exact hlen h
  · intro hex
    obtain ⟨line', req', hs', rest', hhead', hagrees⟩ := hex
    obtain ⟨rfl, rfl, rfl, rfl, rfl⟩ := hhead.unique hhead'
    have htake : (rest.take (bodyTaken (setHeaderLines req hs))).length =
        bodyTaken (setHeaderLines req hs) := by
      rw [List.length_take, min_eq_left hle]
    refine ⟨line ++ kCRLF ++
      (unlines kCRLF hs ++ (kCRLF ++ rest.take (bodyTaken (setHeaderLines req hs)))),
      ?_, line, req, hs, _, hhead.clear, hhead.accepted, hhead.headers, rfl, fun hno => ?_, ?_⟩
    · conv =>
        lhs
        rw [hhead.split, ← List.take_append_drop (bodyTaken (setHeaderLines req hs)) rest, ← hread]
      simp
    · rw [bodyTaken_eq_zero hhead hno, List.take_zero]
    · rw [htake]
      exact hagrees

/-- A request whose header section ends at a line that is not empty. -/
def laxRequest : Bytes := ascii "GET / HTTP/1.1\r\nfoo\r\n"

theorem headSection_laxRequest :
    HeadSection laxRequest (ascii "GET / HTTP/1.1")
      { method := .kGet, version := .kHttp11, path := ascii "/" } [] (ascii "foo") [] where
  clear := by decide
  accepted := rfl
  headers := by simp
  last_noColon := by decide
  last_clear := by decide
  split := by decide

/-- The parser accepts inputs that are not well framed. -/
theorem gotAll_not_always_wellFramed :
    ¬ ∀ (buf : Buffer) (ok : Bool) (context : HttpContext) (buf' : Buffer),
      Returns {} buf ok context buf' → context.gotAll = true →
        ∃ consumed, buf.readable = consumed ++ buf'.readable ∧ WellFramed consumed := by
  intro h
  have hhead := headSection_laxRequest
  rw [← Buffer.readable_holding laxRequest] at hhead
  obtain ⟨buf', hret, -⟩ := returns_complete hhead (by decide +kernel)
  obtain ⟨consumed, hsplit, line, req, hs, body, hline, hreq, hhs, hc, -⟩ := h _ _ _ _ hret rfl
  have hhead' := headSection_of_wellFramed buf'.readable hline hreq hhs hc
  rw [← hsplit] at hhead'
  obtain ⟨-, -, -, hlast, -⟩ := hhead.unique hhead'
  revert hlast
  decide

/-- A request whose Content-Length is decimal. -/
def properRequest : Bytes := ascii "POST / HTTP/1.1\r\nContent-Length: 2\r\n\r\nok"

theorem headSection_properRequest :
    HeadSection properRequest (ascii "POST / HTTP/1.1")
      { method := .kPost, version := .kHttp11, path := ascii "/" } [ascii "Content-Length: 2"] []
      (ascii "ok") where
  clear := by decide
  accepted := rfl
  headers := by decide
  last_noColon := by decide
  last_clear := by decide
  split := by decide

theorem gotAll_wellFramed_properRequest :
    ∃ context buf', Returns {} (Buffer.holding properRequest) true context buf' ∧
      ∃ consumed, (Buffer.holding properRequest).readable = consumed ++ buf'.readable ∧
        WellFramed consumed := by
  have hhead := headSection_properRequest
  rw [← Buffer.readable_holding properRequest] at hhead
  obtain ⟨buf', hret, -⟩ := returns_complete hhead (by decide +kernel)
  refine ⟨_, buf', hret, (gotAll_wellFramed_iff _ _ _ _ hret rfl).mpr ?_⟩
  exact ⟨_, _, _, _, hhead, by unfold LengthAgrees; decide +kernel⟩

end HttpContext

end Dummyload
