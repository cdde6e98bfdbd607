import Dummyload.Http.HttpContext

/-!
# Dummyload.Http.RequestText

Well-formed requests, as their sender writes them: a `RequestText` is a method,
a path, a query, a version, header fields and a body whose length agrees with
the Content-Length header, and `render` is its bytes. The side conditions are
fields, so every `RequestText` is one the parser is meant to understand.

`parseRequest_render` is the decoding theorem: on the rendered bytes, followed by
anything, the parser returns exactly the request that was written and leaves
exactly what follows.
-/

namespace Dummyload

open Lib.Lines (Clear unlines)

/-! ### Header fields -/

/-- A space or a tab. -/
def isBlank (c : Byte) : Bool := c == 32 || c == 9

/-- A header field as written: `name ':' before value after`. -/
structure HeaderText where
  name : Bytes
  before : Bytes
  value : Bytes
  after : Bytes
  name_noColon : chr ':' ∉ name
  name_noCRLF : ¬ kCRLF <:+: name
  before_blank : ∀ c ∈ before, isBlank c = true
  value_noCRLF : ¬ kCRLF <:+: value
  value_head : ∀ c ∈ value.head?, isspace c = false
  value_last : ∀ c ∈ value.getLast?, isspace c = false
  after_blank : ∀ c ∈ after, isBlank c = true

theorem isspace_of_isBlank {c : Byte} (h : isBlank c = true) : isspace c = true := by
  simp only [isBlank, Bool.or_eq_true, beq_iff_eq] at h
  rcases h with rfl | rfl <;> decide

theorem noCRLF_of_blank {l : Bytes} (h : ∀ c ∈ l, isBlank c = true) : ¬ kCRLF <:+: l :=
  noCRLF_of_notMem fun hmem => absurd (h 13 hmem) (by decide)

/-- Trimming removes the blanks around a value and nothing of the value. -/
theorem trim_blank {before value after : Bytes} (hb : ∀ c ∈ before, isBlank c = true)
    (hh : ∀ c ∈ value.head?, isspace c = false)
    (hl : ∀ c ∈ value.getLast?, isspace c = false)
    (ha : ∀ c ∈ after, isBlank c = true) :
    HttpRequest.trim (before ++ (value ++ after)) = value := by
  have hspace : ∀ {l : Bytes}, (∀ c ∈ l, isBlank c = true) → ∀ c ∈ l, isspace c = true :=
    fun h c hc => isspace_of_isBlank (h c hc)
  have hafter : ∀ c ∈ after.reverse, isspace c = true := fun c hc =>
    hspace ha c (List.mem_reverse.mp hc)
  rw [HttpRequest.trim, List.dropWhile_append_of_pos (hspace hb), List.rdropWhile]
  cases value with
  | nil =>
      rw [List.nil_append, List.dropWhile_eq_nil_iff.mpr (hspace ha)]
      rfl
  | cons c value =>
      have hdrop : (c :: value ++ after).dropWhile isspace = c :: value ++ after := by
        rw [List.cons_append, List.dropWhile_cons, hh c rfl, if_neg Bool.false_ne_true]
      rw [hdrop, List.reverse_append, List.dropWhile_append_of_pos hafter]
      cases hrev : (c :: value).reverse with
      | nil => simp at hrev
      | cons d rest =>
          have hd : isspace d = false := hl d (by
            rw [← List.head?_reverse, hrev]; rfl)
          rw [List.dropWhile_cons, hd, if_neg Bool.false_ne_true, ← hrev, List.reverse_reverse]

namespace HeaderText

/-- The line of a header field, without its CRLF. -/
def line (h : HeaderText) : Bytes := h.name ++ (chr ':' :: (h.before ++ (h.value ++ h.after)))

theorem hasColon_line (h : HeaderText) : hasColon h.line = true := by
  simp [hasColon, line]

theorem clear_line (h : HeaderText) : Clear kCRLF h.line := by
  rw [clear_kCRLF_iff]
  have hva : ¬ kCRLF <:+: h.value ++ h.after := by
    refine noCRLF_append h.value_noCRLF (noCRLF_of_blank h.after_blank) (Or.inl fun hlast => ?_)
    exact absurd (h.value_last 13 hlast) (by decide)
  have hbva : ¬ kCRLF <:+: h.before ++ (h.value ++ h.after) := by
    refine noCRLF_append (noCRLF_of_blank h.before_blank) hva (Or.inl fun hlast => ?_)
    exact absurd (h.before_blank 13 (List.mem_of_getLast? hlast)) (by decide)
  have hcolon : ¬ kCRLF <:+: [chr ':'] ++ (h.before ++ (h.value ++ h.after)) :=
    noCRLF_append (by decide) hbva (Or.inl (by decide))
  exact noCRLF_append h.name_noCRLF hcolon (Or.inr (by simp [chr]))

theorem setHeaderLine_line (req : HttpRequest) (h : HeaderText) :
    setHeaderLine req h.line = { req with headers := req.headers.insert h.name h.value } := by
  have hfind : find h.line 0 (chr ':') = h.name.length := by
    have hpart :
        find ([] ++ (h.name ++ (chr ':' :: (h.before ++ (h.value ++ h.after))))) 0 (chr ':') =
          0 + h.name.length := find_part h.name_noColon
    simpa [line] using hpart
  have htake : h.line.take h.name.length = h.name := by rw [line, List.take_left]
  have hdrop : h.line.drop (h.name.length + 1) = h.before ++ (h.value ++ h.after) := by
    rw [line, ← List.drop_drop, List.drop_left]
    rfl
  rw [setHeaderLine, hfind, HttpRequest.setHeader, htake, hdrop,
    trim_blank h.before_blank h.value_head h.value_last h.after_blank]

end HeaderText

/-- The header map of a list of fields: the last occurrence of a name wins. -/
def headerMap (headers : List HeaderText) : HeaderMap :=
  headers.foldl (fun m h => m.insert h.name h.value) ∅

theorem setHeaderLines_lines (req : HttpRequest) (headers : List HeaderText) :
    setHeaderLines req (headers.map HeaderText.line) =
      { req with headers := headers.foldl (fun m h => m.insert h.name h.value) req.headers } := by
  induction headers generalizing req with
  | nil => rfl
  | cons h headers ih =>
      rw [List.map_cons, setHeaderLines_cons, HeaderText.setHeaderLine_line, ih]
      rfl

/-- The value of the last field of that name. -/
def lastValue (name : Bytes) (headers : List HeaderText) : Option Bytes :=
  ((headers.filter fun h => h.name = name).getLast?).map HeaderText.value

theorem headerMap_concat (headers : List HeaderText) (h : HeaderText) :
    headerMap (headers ++ [h]) = (headerMap headers).insert h.name h.value := by
  simp [headerMap]

theorem getElem?_headerMap (name : Bytes) (headers : List HeaderText) :
    (headerMap headers)[name]? = lastValue name headers := by
  induction headers using List.reverseRecOn with
  | nil => simp [headerMap, lastValue]
  | append_singleton headers h ih =>
      rw [headerMap_concat, Std.ExtTreeMap.getElem?_insert, ih, lastValue, lastValue]
      by_cases hname : h.name = name
      · simp [hname]
      · have : compare h.name name ≠ .eq := by simpa using hname
        simp [hname]

/-! ### Requests -/

/-- The byte of a version that differs. -/
def Version.digit : Version → Byte
  | .kHttp11 => chr '1'
  | .kHttp10 => chr '0'
  | .kUnknown => chr '?'

/-- The two ways a body can be announced: not at all, or by its decimal length. -/
def Announced (headers : List HeaderText) (body : Bytes) : Prop :=
  ((∀ h ∈ headers, h.name = contentLengthField → h.value = []) ∧ body = []) ∨
    (lastValue contentLengthField headers = some (toDecimal body.length) ∧
      body.length ≤ 2 ^ 31 - 1)

theorem kHttp11_known : Version.kHttp11 ≠ .kUnknown := by decide

/-- A well-formed request as written. -/
structure RequestText where
  method : Method
  path : Bytes
  query : Bytes
  version : Version
  headers : List HeaderText
  body : Bytes
  method_valid : method ≠ .kInvalid
  path_noSpace : chr ' ' ∉ path
  path_noQuestion : chr '?' ∉ path
  path_noCRLF : ¬ kCRLF <:+: path
  query_question : query ≠ [] → query.head? = some (chr '?')
  query_noSpace : chr ' ' ∉ query
  query_noCRLF : ¬ kCRLF <:+: query
  version_known : version ≠ .kUnknown
  announced : Announced headers body

namespace RequestText

/-- The request line, without its CRLF. -/
def requestLine (r : RequestText) : Bytes :=
  r.method.text ++ (chr ' ' :: (r.path ++ r.query ++ (chr ' ' ::
    (ascii "HTTP/1." ++ [r.version.digit]))))

/-- The bytes of the request. -/
def render (r : RequestText) : Bytes :=
  r.requestLine ++ kCRLF ++ (unlines kCRLF (r.headers.map HeaderText.line) ++ (kCRLF ++ r.body))

/-- The `HttpRequest` that was written. -/
def toRequest (r : RequestText) : HttpRequest where
  method := r.method
  version := r.version
  path := r.path
  query := r.query
  body := r.body
  headers := headerMap r.headers

/-- The fields that the request line decides. -/
def lineRequest (r : RequestText) : HttpRequest where
  method := r.method
  version := r.version
  path := r.path
  query := r.query

theorem target_noSpace (r : RequestText) : chr ' ' ∉ r.path ++ r.query := by
  rw [List.mem_append, not_or]
  exact ⟨r.path_noSpace, r.query_noSpace⟩

theorem text_noSpace (m : Method) : chr ' ' ∉ m.text := by
  cases m <;> decide

theorem text_noCRLF (m : Method) : ¬ kCRLF <:+: m.text := by
  cases m <;> decide

theorem clear_requestLine (r : RequestText) : Clear kCRLF r.requestLine := by
  rw [clear_kCRLF_iff]
  have hdigit : (13 : Byte) ∉ ascii "HTTP/1." ++ [r.version.digit] := by
    cases r.version <;> decide
  have hversion : ¬ kCRLF <:+: [chr ' '] ++ (ascii "HTTP/1." ++ [r.version.digit]) :=
    noCRLF_append (by decide) (noCRLF_of_notMem hdigit) (Or.inl (by decide))
  have htarget : ¬ kCRLF <:+: r.path ++ r.query := by
    refine noCRLF_append r.path_noCRLF r.query_noCRLF (Or.inr ?_)
    by_cases hq : r.query = []
    · simp [hq]
    · rw [r.query_question hq]
      decide
  have htail := noCRLF_append htarget hversion (Or.inr (by simp [chr]))
  have htail' : ¬ kCRLF <:+: [chr ' '] ++
      (r.path ++ r.query ++ ([chr ' '] ++ (ascii "HTTP/1." ++ [r.version.digit]))) :=
    noCRLF_append (by decide) htail (Or.inl (by decide))
  exact noCRLF_append (text_noCRLF _) htail' (Or.inr (by simp [chr]))

/-- The target of the request line comes apart into path and query. -/
theorem setTarget_target (r : RequestText) (req : HttpRequest) (hq : req.query = []) :
    setTarget req (r.path ++ r.query) = { req with path := r.path, query := r.query } := by
  have hnot : chr '?' ∉ r.path := r.path_noQuestion
  cases hcase : r.query with
  | nil =>
      rw [List.append_nil, setTarget, if_neg hnot, ← hq]
  | cons c q =>
      have hc : c = chr '?' := by
        have hhead := r.query_question (by simp [hcase])
        rw [hcase, List.head?_cons] at hhead
        exact Option.some.inj hhead
      have hidx : (r.path ++ c :: q).idxOf (chr '?') = r.path.length := by
        rw [List.idxOf_append_of_notMem hnot, hc, List.idxOf_cons_self, Nat.add_zero]
      rw [setTarget, if_pos (by simp [hc]), hidx, List.take_left, List.drop_left]

/-- `processRequestLine` reads the request line back. -/
theorem processRequestLine_requestLine (r : RequestText) :
    processRequestLine {} r.requestLine = some (true, r.lineRequest) := by
  have hversion : versionOf (ascii "HTTP/1." ++ [r.version.digit]) = some r.version := by
    cases hv : r.version with
    | kUnknown => exact absurd hv r.version_known
    | kHttp10 => rfl
    | kHttp11 => rfl
  rw [requestLine, processRequestLine_parts (text_noSpace r.method) r.target_noSpace,
    HttpRequest.setMethod_text rfl r.method_valid]
  dsimp only
  rw [hversion, setTarget_target r _ rfl]
  rfl

theorem headSection_render (r : RequestText) (t : Bytes) :
    HeadSection (r.render ++ t) r.requestLine r.lineRequest (r.headers.map HeaderText.line) []
      (r.body ++ t) where
  clear := r.clear_requestLine
  accepted := r.processRequestLine_requestLine
  headers := by
    intro l hl
    obtain ⟨h, -, rfl⟩ := List.mem_map.mp hl
    exact ⟨h.hasColon_line, h.clear_line⟩
  last_noColon := rfl
  last_clear := by decide
  split := by simp [render]

/-- What the announcement means to the parser: it takes exactly the body. -/
theorem bodyTaken_toRequest (r : RequestText) : bodyTaken r.toRequest = r.body.length := by
  have hlen : contentLength r.toRequest = (lastValue contentLengthField r.headers).getD [] := by
    rw [← getElem?_headerMap, contentLength, HttpRequest.header_eq_getD]
    rfl
  rw [bodyTaken, hlen]
  rcases r.announced with ⟨hnone, hbody⟩ | ⟨hlast, hle⟩
  · rw [if_pos, hbody, List.length_nil]
    rw [lastValue]
    cases hl : (r.headers.filter fun h => h.name = contentLengthField).getLast? with
    | none => rfl
    | some h =>
        have hmem := List.mem_filter.mp (List.mem_of_getLast? hl)
        exact hnone h hmem.1 (by simpa using hmem.2)
  · rw [hlast, Option.getD_some, if_neg (toDecimal_ne_nil _), atoi_toDecimal (by omega)]
    exact toSize_natCast (by omega)

theorem setHeaderLines_lineRequest (r : RequestText) :
    { setHeaderLines r.lineRequest (r.headers.map HeaderText.line) with body := r.body } =
      r.toRequest := by
  rw [setHeaderLines_lines]
  rfl

open HttpContext in
/-- The parser's side of `render`. -/
theorem returns_render (r : RequestText) {t : Bytes} {buf : Buffer}
    (hbuf : buf.readable = r.render ++ t) :
    ∃ buf', Returns {} buf true ⟨.kGotAll, r.toRequest⟩ buf' ∧ buf'.readable = t := by
  have hhead := r.headSection_render t
  rw [← hbuf] at hhead
  have htaken : bodyTaken (setHeaderLines r.lineRequest (r.headers.map HeaderText.line)) =
      r.body.length := by
    rw [← r.bodyTaken_toRequest, ← r.setHeaderLines_lineRequest]
    exact bodyTaken_congr rfl
  obtain ⟨buf', hret, hread⟩ := returns_complete hhead (by rw [htaken]; simp)
  rw [htaken, List.take_left, r.setHeaderLines_lineRequest] at hret
  rw [htaken, List.drop_left] at hread
  exact ⟨buf', hret, hread⟩

end RequestText

open HttpContext in
/-- **Decoding undoes encoding.** On a rendered request followed by any bytes `t`,
`parseRequest` returns true having got all, with exactly the request that was
written, and leaves exactly `t`. -/
theorem parseRequest_render (r : RequestText) (t : Bytes) (buf : Buffer)
    (hbuf : buf.readable = r.render ++ t) :
    ∃ context buf', Returns {} buf true context buf' ∧ context.gotAll = true ∧
      context.request.method = r.method ∧ context.request.path = r.path ∧
      context.request.query = r.query ∧ context.request.version = r.version ∧
      context.request.headers = headerMap r.headers ∧ context.request.body = r.body ∧
      buf'.readable = t := by
  obtain ⟨buf', hret, hread⟩ := r.returns_render hbuf
  exact ⟨_, buf', hret, rfl, rfl, rfl, rfl, rfl, rfl, rfl, hread⟩

/-- A keep-alive request with a header field and a body. -/
def postHello : RequestText where
  method := .kPost
  path := ascii "/greet"
  query := ascii "?to=all"
  version := .kHttp11
  headers := [{
    name := contentLengthField, before := ascii " ", value := ascii "5", after := []
    name_noColon := by decide +kernel, name_noCRLF := by decide +kernel
    before_blank := by decide +kernel
    value_noCRLF := by decide +kernel
    value_head := by decide +kernel
    value_last := by decide +kernel
    after_blank := by decide +kernel }]
  body := ascii "hello"
  method_valid := by decide +kernel
  path_noSpace := by decide +kernel
  path_noQuestion := by decide +kernel
  path_noCRLF := by decide +kernel
  query_question := fun _ => by decide +kernel
  query_noSpace := by decide +kernel
  query_noCRLF := by decide +kernel
  version_known := kHttp11_known
  announced := Or.inr (by decide +kernel)

open HttpContext in
theorem parseRequest_render_postHello :
    ∃ context buf',
      Returns {} (Buffer.holding (postHello.render ++ ascii "GET")) true context buf' ∧
      context.gotAll = true ∧ context.request.method = .kPost ∧
      context.request.path = ascii "/greet" ∧ context.request.query = ascii "?to=all" ∧
      context.request.version = .kHttp11 ∧
      context.request.headers = headerMap postHello.headers ∧
      context.request.body = ascii "hello" ∧ buf'.readable = ascii "GET" :=
  parseRequest_render postHello (ascii "GET") (Buffer.holding (postHello.render ++ ascii "GET"))
    (Buffer.readable_holding _)

end Dummyload
