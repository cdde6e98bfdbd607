import Dummyload.Http.Framing
import Dummyload.Http.Pipelining

/-!
# Dummyload.Http.FieldNames

The letter case of header field names. `headers_` is a `std::map` over the bytes of the
names, so `header("Content-Length")` and `header("Connection")` find these spellings and
no others. Two requests that differ in the case of other names only are treated alike
(`recased_alike`).

Both requests are cut into the same request line, header lines in pairs, and the same
rest; then the parser ends in the same way on both, with the two looked-up values equal.
-/

namespace Dummyload

open Lib.Lines (Clear unlines)

/-- `"Connection"`. -/
def connectionField : Bytes := ascii "Connection"

/-- `tolower` in the C locale. -/
def tolower (c : Byte) : Byte := if 65 ≤ c && c ≤ 90 then c + 32 else c

/-- Two header lines that differ in the case of the field name only. -/
def RecasedLine (h h' : Bytes) : Prop :=
  ∃ n n' v, chr ':' ∉ n ∧ n.map tolower = n'.map tolower ∧
    h = n ++ chr ':' :: v ∧ h' = n' ++ chr ':' :: v

/-- The name is spelled exactly `field` in both lines or in neither. -/
def SpelledAlike (field h h' : Bytes) : Prop := fieldName h = field ↔ fieldName h' = field

/-- Two such lines, alike in the two names that the server looks up. -/
def RecasedElsewhere (h h' : Bytes) : Prop :=
  RecasedLine h h' ∧ SpelledAlike contentLengthField h h' ∧ SpelledAlike connectionField h h'

/-- Two byte strings that differ in header lines only, and there as `line` says. -/
def Recased (same : Bytes → Bytes → Prop) (w w' : Bytes) : Prop :=
  ∃ line hs hs' tail, Clear kCRLF line ∧ (∀ h ∈ hs, Clear kCRLF h) ∧ List.Forall₂ same hs hs' ∧
    w = line ++ kCRLF ++ (unlines kCRLF hs ++ tail) ∧
    w' = line ++ kCRLF ++ (unlines kCRLF hs' ++ tail)

/-- Requests that the callback cannot tell apart but for the header map, and that ask the
same of the connection. -/
structure SameRequest (req req' : HttpRequest) : Prop where
  method : req.method = req'.method
  path : req.path = req'.path
  query : req.query = req'.query
  version : req.version = req'.version
  body : req.body = req'.body
  close : wantsClose req = wantsClose req'

/-- After reading `w` and `w'`: as many bytes consumed, and the callback invoked with the same
requests. -/
structure SameService {α : Type*} (w w' : Bytes) (conn conn' : HttpConnection α) : Prop where
  consumed : w.length - conn.inputBuffer.readableBytes =
    w'.length - conn'.inputBuffer.readableBytes
  requests : List.Forall₂ SameRequest (callbacks conn.actions) (callbacks conn'.actions)

/-- The server reads `w` to the end exactly if it does `w'`, with the same service. -/
def ServedAlike {α : Type*} (httpCallback : HttpCallback α) (app : α) (w w' : Bytes) : Prop :=
  ((∃ conn, Delivers httpCallback (.fresh app) w conn) ↔
    ∃ conn, Delivers httpCallback (.fresh app) w' conn) ∧
  ∀ conn conn', Delivers httpCallback (.fresh app) w conn →
    Delivers httpCallback (.fresh app) w' conn' → SameService w w' conn conn'

/-! ### Lines -/

/-- Bytes below the letters are nobody's lower case. -/
theorem eq_of_tolower_eq {c d : Byte} (h : tolower c = d) (hd : d < 65) : c = d := by
  rw [tolower] at h
  split at h
  · rename_i hupper
    simp only [Bool.and_eq_true, decide_eq_true_eq, UInt8.le_iff_toNat_le] at hupper
    rw [← h, UInt8.lt_iff_toNat_lt, UInt8.toNat_add] at hd
    have h₁ : (65 : UInt8).toNat = 65 := rfl
    have h₂ : (90 : UInt8).toNat = 90 := rfl
    have h₃ : (32 : UInt8).toNat = 32 := rfl
    omega
  · exact h

theorem notMem_of_map_tolower {n n' : Bytes} (h : n.map tolower = n'.map tolower) {c : Byte}
    (hc : c < 65) (hn : c ∉ n) : c ∉ n' := by
  intro hmem
  have hlower : tolower c = c := by
    rw [tolower, if_neg]
    simp only [Bool.and_eq_true, decide_eq_true_eq, not_and, UInt8.le_iff_toNat_le]
    rw [UInt8.lt_iff_toNat_lt] at hc
    omega
  have hin : c ∈ n.map tolower := by
    rw [h]
    exact List.mem_map.mpr ⟨c, hmem, hlower⟩
  obtain ⟨d, hd, heq⟩ := List.mem_map.mp hin
  rw [eq_of_tolower_eq heq hc] at hd
  exact hn hd

/-- A CRLF is one whatever the case. -/
theorem clear_of_map_tolower {l l' : Bytes} (h : l.map tolower = l'.map tolower)
    (hl : Clear kCRLF l) : Clear kCRLF l' := by
  rw [clear_kCRLF_iff] at hl ⊢
  intro hex
  obtain ⟨before, after, hsplit⟩ := hex
  have hmap : l.map tolower =
      (before.map tolower ++ kCRLF.map tolower) ++ after.map tolower := by
    rw [h, ← hsplit, List.map_append, List.map_append]
  obtain ⟨front, back, rfl, hfront, -⟩ := List.map_eq_append_iff.mp hmap
  obtain ⟨start, crlf, rfl, -, hcrlf⟩ := List.map_eq_append_iff.mp hfront
  have heq : crlf = kCRLF := by
    rw [show kCRLF.map tolower = [13, 10] by decide] at hcrlf
    obtain ⟨c, rest, rfl, hc, hrest⟩ := List.map_eq_cons_iff.mp hcrlf
    obtain ⟨d, rest, rfl, hd, hnil⟩ := List.map_eq_cons_iff.mp hrest
    rw [eq_of_tolower_eq hc (by decide), eq_of_tolower_eq hd (by decide),
      List.map_eq_nil_iff.mp hnil]
    rfl
  exact hl ⟨start, back, by rw [heq]⟩

theorem fieldValue_append {n v : Bytes} (hn : chr ':' ∉ n) :
    fieldValue (n ++ chr ':' :: v) = HttpRequest.trim v := by
  have hfind : find (n ++ chr ':' :: v) 0 (chr ':') = n.length := by
    rw [find, List.drop_zero, List.idxOf_append_of_notMem hn, List.idxOf_cons_self]
    omega
  rw [fieldValue, hfind, ← List.drop_drop, List.drop_left]
  rfl

namespace RecasedLine

variable {h h' : Bytes}

theorem hasColon_left (hr : RecasedLine h h') : hasColon h = true := by
  obtain ⟨n, n', v, hn, hmap, rfl, rfl⟩ := hr
  simp [hasColon]

theorem hasColon_right (hr : RecasedLine h h') : hasColon h' = true := by
  obtain ⟨n, n', v, hn, hmap, rfl, rfl⟩ := hr
  simp [hasColon]

theorem clear_right (hr : RecasedLine h h') (hclear : Clear kCRLF h) : Clear kCRLF h' := by
  obtain ⟨n, n', v, hn, hmap, rfl, rfl⟩ := hr
  exact clear_of_map_tolower (by rw [List.map_append, List.map_append, hmap]) hclear

theorem length_eq (hr : RecasedLine h h') : h.length = h'.length := by
  obtain ⟨n, n', v, hn, hmap, rfl, rfl⟩ := hr
  have hlen := congrArg List.length hmap
  rw [List.length_map, List.length_map] at hlen
  rw [List.length_append, List.length_append, hlen]

theorem fieldValue_eq (hr : RecasedLine h h') : fieldValue h = fieldValue h' := by
  obtain ⟨n, n', v, hn, hmap, rfl, rfl⟩ := hr
  rw [fieldValue_append hn,
    fieldValue_append (notMem_of_map_tolower hmap (by decide) hn)]

end RecasedLine

/-- Header lines that set the field `field` alike. -/
def SetsAlike (field h h' : Bytes) : Prop :=
  SpelledAlike field h h' ∧ fieldValue h = fieldValue h'

theorem header_setHeaderLines_congr {field : Bytes} {hs hs' : List Bytes} {req req' : HttpRequest}
    (h : List.Forall₂ (SetsAlike field) hs hs') (hreq : req.header field = req'.header field) :
    (setHeaderLines req hs).header field = (setHeaderLines req' hs').header field := by
  induction h generalizing req req' with
  | nil => exact hreq
  | @cons l l' _ _ hsame _ ih =>
      rw [setHeaderLines_cons, setHeaderLines_cons]
      refine ih ?_
      rw [HttpContext.header_setHeaderLine, HttpContext.header_setHeaderLine, hsame.2]
      by_cases hname : fieldName l = field
      · rw [if_pos hname, if_pos (hsame.1.mp hname)]
      · rw [if_neg hname, if_neg (fun heq => hname (hsame.1.mpr heq)), hreq]

/-- The header lines of two requests, pair by pair. -/
theorem forall₂_setsAlike {field : Bytes} {hs hs' : List Bytes}
    (h : List.Forall₂ RecasedElsewhere hs hs')
    (hfield : ∀ l l', RecasedElsewhere l l' → SpelledAlike field l l') (more : List Bytes) :
    List.Forall₂ (SetsAlike field) (hs ++ more) (hs' ++ more) := by
  refine List.rel_append (h.imp fun l l' hl => ⟨hfield l l' hl, hl.1.fieldValue_eq⟩) ?_
  exact List.forall₂_same.mpr fun l _ => ⟨Iff.rfl, rfl⟩

theorem length_unlines_congr {hs hs' : List Bytes} (h : List.Forall₂ RecasedElsewhere hs hs') :
    (unlines kCRLF hs).length = (unlines kCRLF hs').length := by
  induction h with
  | nil => rfl
  | cons hl _ ih =>
      rw [Lib.Lines.unlines_cons, Lib.Lines.unlines_cons, List.length_append, List.length_append,
        List.length_append, List.length_append, hl.1.length_eq, ih]

/-- On both sides the lines are header lines to the parser. -/
theorem headers_of_recased {hs hs' : List Bytes} (h : List.Forall₂ RecasedElsewhere hs hs')
    (hclear : ∀ l ∈ hs, Clear kCRLF l) :
    (∀ l ∈ hs, hasColon l = true ∧ Clear kCRLF l) ∧
      ∀ l ∈ hs', hasColon l = true ∧ Clear kCRLF l := by
  induction h with
  | nil => exact ⟨by simp, by simp⟩
  | cons hl _ ih =>
      obtain ⟨hclear₁, hclear⟩ := List.forall_mem_cons.mp hclear
      obtain ⟨ih, ih'⟩ := ih hclear
      exact ⟨List.forall_mem_cons.mpr ⟨⟨hl.1.hasColon_left, hclear₁⟩, ih⟩,
        List.forall_mem_cons.mpr ⟨⟨hl.1.hasColon_right, hl.1.clear_right hclear₁⟩, ih'⟩⟩

/-! ### How the parser ends on both -/

open HttpContext (Returns Spins)

/-- The parser ends in the same way on both byte strings: it spins; or it returns, with the
same number of bytes left, and, if it got all, with the same request. -/
inductive ParsedAlike (w w' : Bytes) : Prop
  | spins (h : ∀ buf : Buffer, buf.readable = w → Spins {} buf)
      (h' : ∀ buf : Buffer, buf.readable = w' → Spins {} buf)
  | returns {ok : Bool} {context context' : HttpContext} {rest rest' : Bytes}
      (h : ∀ buf : Buffer, buf.readable = w →
        ∃ buf', Returns {} buf ok context buf' ∧ buf'.readable = rest)
      (h' : ∀ buf : Buffer, buf.readable = w' →
        ∃ buf', Returns {} buf ok context' buf' ∧ buf'.readable = rest')
      (hrest : rest.length = rest'.length) (hall : context.gotAll = context'.gotAll)
      (hrequest : context.gotAll = true → SameRequest context.request context'.request)

theorem wantsClose_congr {req req' : HttpRequest} (hversion : req.version = req'.version)
    (hconnection : req.header connectionField = req'.header connectionField) :
    wantsClose req = wantsClose req' := by
  rw [connectionField] at hconnection
  rw [wantsClose, wantsClose, hconnection, hversion]

theorem bodyTaken_congr_header {req req' : HttpRequest}
    (h : req.header contentLengthField = req'.header contentLengthField) :
    bodyTaken req = bodyTaken req' := by
  rw [bodyTaken, bodyTaken, contentLength, contentLength, h]

theorem sameRequest_setHeaderLines {req : HttpRequest} {hs hs' : List Bytes}
    (h : List.Forall₂ (SetsAlike connectionField) hs hs') (body : Bytes) :
    SameRequest { setHeaderLines req hs with body := body }
      { setHeaderLines req hs' with body := body } := by
  have hframe := setHeaderLines_eq req hs
  have hframe' := setHeaderLines_eq req hs'
  have hversion : (setHeaderLines req hs).version = (setHeaderLines req hs').version := by
    rw [hframe, hframe']
  exact {
    method := by rw [hframe, hframe']
    path := by rw [hframe, hframe']
    query := by rw [hframe, hframe']
    version := hversion
    body := rfl
    close := wantsClose_congr hversion (header_setHeaderLines_congr h rfl) }

theorem length_eq_of_recased {w w' : Bytes} (h : Recased RecasedElsewhere w w') :
    w.length = w'.length := by
  obtain ⟨line, hs, hs', tail, -, -, hall, rfl, rfl⟩ := h
  simp only [List.length_append, length_unlines_congr hall]

theorem parsedAlike_of_recased {w w' : Bytes} (h : Recased RecasedElsewhere w w') :
    ParsedAlike w w' := by
  have hlength := length_eq_of_recased h
  obtain ⟨line, hs, hs', tail, hline, hclear, hall, hw, hw'⟩ := h
  obtain ⟨hhs, hhs'⟩ := headers_of_recased hall hclear
  obtain ⟨ok, req, hreq⟩ := processRequestLine_fresh line
  cases ok with
  | false =>
      exact .returns
        (fun buf hbuf => ⟨buf, HttpContext.returns_rejected hline (hbuf.trans hw) hreq, hbuf⟩)
        (fun buf hbuf => ⟨buf, HttpContext.returns_rejected hline (hbuf.trans hw') hreq, hbuf⟩)
        hlength rfl fun hgot => (by cases hgot)
  | true =>
      rcases Lib.Lines.scan kCRLF_ne_nil hasColon tail with
        ⟨more, part, rfl, hmore, hpart⟩ | ⟨more, last, rest, rfl, hmore, hlast, hlastClear⟩
      · -- the header section is unfinished on both sides
        have hpartial : PartialHead w line req (hs ++ more) part := by
          refine ⟨hline, hreq, fun h hh => ?_, hpart, by rw [hw]; simp⟩
          exact (List.mem_append.mp hh).elim (hhs h) (hmore h)
        have hpartial' : PartialHead w' line req (hs' ++ more) part := by
          refine ⟨hline, hreq, fun h hh => ?_, hpart, by rw [hw']; simp⟩
          exact (List.mem_append.mp hh).elim (hhs' h) (hmore h)
        have hret : ∀ buf : Buffer, buf.readable = w → ∃ buf', Returns {} buf true
            ⟨.kExpectHeaders, setHeaderLines req (hs ++ more)⟩ buf' ∧ buf'.readable = part :=
          fun buf hbuf => HttpContext.returns_partial (hbuf ▸ hpartial)
        have hret' : ∀ buf : Buffer, buf.readable = w' → ∃ buf', Returns {} buf true
            ⟨.kExpectHeaders, setHeaderLines req (hs' ++ more)⟩ buf' ∧ buf'.readable = part :=
          fun buf hbuf => HttpContext.returns_partial (hbuf ▸ hpartial')
        exact .returns hret hret' rfl rfl fun hgot => (by cases hgot)
      · have hhead : HeadSection w line req (hs ++ more) last rest := by
          refine ⟨hline, hreq, fun h hh => ?_, hlast, hlastClear, by rw [hw]; simp⟩
          exact (List.mem_append.mp hh).elim (hhs h) (hmore h)
        have hhead' : HeadSection w' line req (hs' ++ more) last rest := by
          refine ⟨hline, hreq, fun h hh => ?_, hlast, hlastClear, by rw [hw']; simp⟩
          exact (List.mem_append.mp hh).elim (hhs' h) (hmore h)
        -- the same Content-Length is found on both sides
        have htaken : bodyTaken (setHeaderLines req (hs ++ more)) =
            bodyTaken (setHeaderLines req (hs' ++ more)) :=
          bodyTaken_congr_header (header_setHeaderLines_congr
            (forall₂_setsAlike hall (fun _ _ hl => hl.2.1) more) rfl)
        have hsame : SameRequest
            { setHeaderLines req (hs ++ more) with
              body := rest.take (bodyTaken (setHeaderLines req (hs' ++ more))) }
            { setHeaderLines req (hs' ++ more) with
              body := rest.take (bodyTaken (setHeaderLines req (hs' ++ more))) } :=
          sameRequest_setHeaderLines (forall₂_setsAlike hall (fun _ _ hl => hl.2.2) more) _
        by_cases hlen : bodyTaken (setHeaderLines req (hs' ++ more)) ≤ rest.length
        · have hret : ∀ buf : Buffer, buf.readable = w → ∃ buf', Returns {} buf true
              ⟨.kGotAll, { setHeaderLines req (hs ++ more) with
                body := rest.take (bodyTaken (setHeaderLines req (hs' ++ more))) }⟩ buf' ∧
              buf'.readable = rest.drop (bodyTaken (setHeaderLines req (hs' ++ more))) := by
            intro buf hbuf
            have hgot := HttpContext.returns_complete (hbuf ▸ hhead) (by rwa [htaken])
            rwa [htaken] at hgot
          exact .returns hret
            (fun buf hbuf => HttpContext.returns_complete (hbuf ▸ hhead') hlen)
            rfl rfl fun _ => hsame
        · exact .spins
            (fun buf hbuf => HttpContext.spins_bodyPending (hbuf ▸ hhead)
              (by rw [htaken]; exact Nat.not_le.mp hlen))
            (fun buf hbuf =>
              HttpContext.spins_bodyPending (hbuf ▸ hhead') (Nat.not_le.mp hlen))

/-! ### What the server does -/

section Server

variable {α : Type*} (httpCallback : HttpCallback α) (app : α)

theorem ne_nil_of_recased {w w' : Bytes} {same : Bytes → Bytes → Prop} (h : Recased same w w') :
    w ≠ [] ∧ w' ≠ [] := by
  obtain ⟨line, hs, hs', tail, -, -, -, rfl, rfl⟩ := h
  exact ⟨by simp, by simp⟩

theorem callbacks_afterParse (ok : Bool) (context : HttpContext) (buf : Buffer) :
    callbacks (afterParse httpCallback (.fresh app) ok context buf).actions =
      if context.gotAll then [context.request] else [] := by
  rw [actions_afterParse, callbacks_append, callbacks_append]
  have hrefused : callbacks (if ok then [] else [.send badRequest, .shutdown]) = [] := by
    cases ok <;> rfl
  rw [hrefused]
  split
  · rw [callbacks_answer]
    rfl
  · rfl

/-- **Header field names other than the two that are looked up may be written in any case.**
On two byte strings that differ only in the case of header field names, each of them
spelled Content-Length in both or neither, and Connection in both or neither, the server
consumes as many bytes, invokes the callback with the same method, path, query, version
and body, and decides the same about closing; or it reads neither to its end. -/
theorem recased_alike (w w' : Bytes) (h : Recased RecasedElsewhere w w') :
    ServedAlike httpCallback app w w' := by
  obtain ⟨hne, hne'⟩ := ne_nil_of_recased h
  have hlength := length_eq_of_recased h
  have hfresh : ∀ {chunk : Bytes} {buf : Buffer},
      buf.readable = (HttpConnection.fresh app).inputBuffer.readable ++ chunk →
        buf.readable = chunk := by
    intro chunk buf hbuf
    rwa [HttpConnection.fresh, Buffer.readable_new, List.nil_append] at hbuf
  cases parsedAlike_of_recased h with
  | spins hspins hspins' =>
      have hnot : ∀ conn, ¬ Delivers httpCallback (.fresh app) w conn := fun conn =>
        not_delivers_of_spins httpCallback hne fun buf hbuf => hspins buf (hfresh hbuf)
      have hnot' : ∀ conn, ¬ Delivers httpCallback (.fresh app) w' conn := fun conn =>
        not_delivers_of_spins httpCallback hne' fun buf hbuf => hspins' buf (hfresh hbuf)
      refine ⟨iff_of_false (fun hex => ?_) (fun hex => ?_), fun conn conn' hd _ => ?_⟩
      · exact hex.elim hnot
      · exact hex.elim hnot'
      · exact absurd hd (hnot conn)
  | @returns ok context context' rest rest' hret hret' hrest hall hrequest =>
      have hreturns : ∀ buf : Buffer,
          buf.readable = (HttpConnection.fresh app).inputBuffer.readable ++ w →
            ∃ buf', HttpContext.Returns {} buf ok context buf' ∧ buf'.readable = rest :=
        fun buf hbuf => hret buf (hfresh hbuf)
      have hreturns' : ∀ buf : Buffer,
          buf.readable = (HttpConnection.fresh app).inputBuffer.readable ++ w' →
            ∃ buf', HttpContext.Returns {} buf ok context' buf' ∧ buf'.readable = rest' :=
        fun buf hbuf => hret' buf (hfresh hbuf)
      obtain ⟨buf, hread, hiff⟩ := delivers_of_returns httpCallback hne hreturns
      obtain ⟨buf', hread', hiff'⟩ := delivers_of_returns httpCallback hne' hreturns'
      refine ⟨iff_of_true ⟨_, (hiff _).mpr rfl⟩ ⟨_, (hiff' _).mpr rfl⟩, ?_⟩
      intro conn conn' hd hd'
      obtain rfl := (hiff conn).mp hd
      obtain rfl := (hiff' conn').mp hd'
      have hbuf : ∀ (context : HttpContext) (buf : Buffer),
          (afterParse httpCallback (.fresh app) ok context buf).inputBuffer = buf := by
        intro context buf
        rw [afterParse]
        split <;> rfl
      constructor
      · rw [hbuf, hbuf, ← Buffer.length_readable, ← Buffer.length_readable, hread, hread', hrest,
          hlength]
      · rw [callbacks_afterParse, callbacks_afterParse, ← hall]
        by_cases hgot : context.gotAll = true
        · rw [if_pos hgot, if_pos hgot]
          exact .cons (hrequest hgot) .nil
        · rw [if_neg hgot, if_neg hgot]
          exact .nil

/-- A request in two spellings of a name that is not looked up. -/
def hostUpper : Bytes := ascii "GET / HTTP/1.0\r\nHOST: a\r\n\r\n"
def hostLower : Bytes := ascii "GET / HTTP/1.0\r\nhost: a\r\n\r\n"

theorem recased_alike_host : ServedAlike defaultHttpCallback () hostUpper hostLower := by
  refine recased_alike defaultHttpCallback () hostUpper hostLower
    ⟨ascii "GET / HTTP/1.0", [ascii "HOST: a"], [ascii "host: a"], kCRLF, by decide, by decide,
      .cons ⟨?_, by unfold SpelledAlike; decide, by unfold SpelledAlike; decide⟩ .nil,
      by decide, by decide⟩
  exact ⟨ascii "HOST", ascii "host", ascii " a", by decide, by decide, by decide, by decide⟩

end Server

/-- A request with a body, in two spellings of Content-Length. -/
def lengthUpper : Bytes := ascii "POST / HTTP/1.1\r\nContent-Length: 2\r\n\r\nok"
def lengthLower : Bytes := ascii "POST / HTTP/1.1\r\ncontent-length: 2\r\n\r\nok"

theorem recased_lengthLower : Recased RecasedLine lengthUpper lengthLower := by
  refine ⟨ascii "POST / HTTP/1.1", [ascii "Content-Length: 2"], [ascii "content-length: 2"],
    kCRLF ++ ascii "ok", by decide, by decide, .cons ?_ .nil, by decide, by decide⟩
  exact ⟨ascii "Content-Length", ascii "content-length", ascii " 2", by decide, by decide,
    by decide, by decide⟩

/-- How many bytes a read leaves, if it is handled to its end. -/
def unread {α : Type*} : Lib.While.Exit (HttpConnection α) → Option Nat
  | .finished conn => some conn.inputBuffer.readableBytes
  | _ => none

theorem delivers_of_unread {w : Bytes} {fuel n : Nat}
    (h : unread (handleRead defaultHttpCallback fuel (.fresh ()) (.bytes w)) = some n) :
    ∃ conn, Delivers defaultHttpCallback (.fresh ()) w conn ∧
      conn.inputBuffer.readableBytes = n := by
  cases hread : handleRead defaultHttpCallback fuel (.fresh ()) (.bytes w) with
  | finished conn =>
      rw [hread] at h
      exact ⟨conn, ⟨fuel, hread⟩, Option.some.inj h⟩
  | aborted => rw [hread] at h; cases h
  | outOfFuel => rw [hread] at h; cases h

/-- With the other spelling the body is left in the buffer. -/
theorem not_always_recased_alike :
    ¬ ∀ w w' : Bytes, Recased RecasedLine w w' → ServedAlike defaultHttpCallback () w w' := by
  intro h
  have hupper : unread (handleRead defaultHttpCallback 5 (.fresh ()) (.bytes lengthUpper)) =
      some 0 := by decide +kernel
  have hlower : unread (handleRead defaultHttpCallback 5 (.fresh ()) (.bytes lengthLower)) =
      some 2 := by decide +kernel
  obtain ⟨conn, hconn, hunread⟩ := delivers_of_unread hupper
  obtain ⟨conn', hconn', hunread'⟩ := delivers_of_unread hlower
  have hsame := (h lengthUpper lengthLower recased_lengthLower).2 conn conn' hconn hconn'
  have hconsumed := hsame.consumed
  rw [hunread, hunread'] at hconsumed
  revert hconsumed
  decide

end Dummyload
