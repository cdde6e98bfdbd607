import Dummyload.Http.HttpContext

/-!
# Dummyload.Http.Resume

A request may arrive in pieces. A call of `parseRequest` that ran out of input leaves
no complete line unread, and it has read what a call on the whole input reads first.
So a second call, after more bytes were appended, does what one call on all of the
bytes would have done.

The two calls see different buffers that hold the same bytes, and a buffer can be told
from another by its readable bytes only: `parseStep_sameBytes`.
-/

namespace Dummyload

/-! ### Buffers that hold the same bytes -/

namespace Buffer

variable {b b' c : Buffer}

theorem findCRLF_congr (h : b.readable = b'.readable) : b.findCRLF = b'.findCRLF := by
  rw [findCRLF, findCRLF, ← length_readable, ← length_readable, h]

theorem readableBytes_congr (h : b.readable = b'.readable) :
    b.readableBytes = b'.readableBytes := by
  rw [← length_readable, ← length_readable, h]

theorem retrieveUntil_congr (h : b.readable = b'.readable) {endp : Nat}
    (hc : b.retrieveUntil endp = some c) :
    ∃ c', b'.retrieveUntil endp = some c' ∧ c.readable = c'.readable := by
  have hle : endp ≤ b.readableBytes := by
    by_contra hlt
    rw [retrieveUntil, if_neg hlt] at hc
    cases hc
  obtain ⟨d, hd, hread⟩ := retrieveUntil_eq_some hle
  obtain ⟨c', hc', hread'⟩ := retrieveUntil_eq_some (readableBytes_congr h ▸ hle)
  obtain rfl := Option.some.inj (hc.symm.trans hd)
  exact ⟨c', hc', by rw [hread, hread', h]⟩

theorem retrieveAsString_congr (h : b.readable = b'.readable) {len : Nat} {w : Bytes}
    (hc : b.retrieveAsString len = some (w, c)) :
    ∃ c', b'.retrieveAsString len = some (w, c') ∧ c.readable = c'.readable := by
  have hle : len ≤ b.readableBytes := by
    by_contra hlt
    rw [retrieveAsString, if_neg hlt] at hc
    cases hc
  obtain ⟨d, hd, hread⟩ := retrieveAsString_eq_some hle
  obtain ⟨c', hc', hread'⟩ := retrieveAsString_eq_some (readableBytes_congr h ▸ hle)
  have heq := hc.symm.trans hd
  simp only [Option.some.injEq, Prod.mk.injEq] at heq
  obtain ⟨rfl, rfl⟩ := heq
  exact ⟨c', by rw [hc', h], by rw [hread, hread', h]⟩

end Buffer

/-- The variables of two calls agree, up to how the buffers store their bytes. -/
structure SameBytes (s s' : ParseLoop) : Prop where
  ok : s.ok = s'.ok
  hasMore : s.hasMore = s'.hasMore
  context : s.context = s'.context
  readable : s.buf.readable = s'.buf.readable

theorem SameBytes.symm {s s' : ParseLoop} (h : SameBytes s s') : SameBytes s' s :=
  ⟨h.ok.symm, h.hasMore.symm, h.context.symm, h.readable.symm⟩

/-- An iteration looks at the readable bytes only. -/
theorem parseStep_sameBytes {s s' t : ParseLoop} (h : SameBytes s s')
    (ht : parseStep s = some t) : ∃ t', parseStep s' = some t' ∧ SameBytes t t' := by
  obtain ⟨ok, hasMore, ⟨state, request⟩, buf⟩ := s
  obtain ⟨ok', hasMore', context', buf'⟩ := s'
  obtain ⟨rfl, rfl, rfl, hb⟩ := h
  have hfind := Buffer.findCRLF_congr hb
  cases state with
  | kExpectRequestLine =>
      simp only [parseStep] at ht ⊢
      rw [hfind, hb] at ht
      cases hcrlf : buf'.findCRLF with
      | none =>
          rw [hcrlf] at ht
          obtain rfl := Option.some.inj ht
          exact ⟨_, rfl, rfl, rfl, rfl, hb⟩
      | some crlf =>
          rw [hcrlf] at ht
          cases hline : processRequestLine request (buf'.readable.take crlf) with
          | none => simp only [hline] at ht; cases ht
          | some r =>
              obtain ⟨accepted, req⟩ := r
              simp only [hline] at ht ⊢
              cases accepted with
              | true =>
                  obtain ⟨c, hc, rfl⟩ := Option.map_eq_some_iff.mp ht
                  obtain ⟨c', hc', hread⟩ := Buffer.retrieveUntil_congr hb hc
                  exact ⟨_, Option.map_eq_some_iff.mpr ⟨_, hc', rfl⟩, rfl, rfl, rfl, hread⟩
              | false =>
                  obtain rfl := Option.some.inj ht
                  exact ⟨_, rfl, rfl, rfl, rfl, hb⟩
  | kExpectHeaders =>
      simp only [parseStep] at ht ⊢
      rw [hfind, hb] at ht
      cases hcrlf : buf'.findCRLF with
      | none =>
          rw [hcrlf] at ht
          obtain rfl := Option.some.inj ht
          exact ⟨_, rfl, rfl, rfl, rfl, hb⟩
      | some crlf =>
          rw [hcrlf] at ht
          obtain ⟨c, hc, rfl⟩ := Option.map_eq_some_iff.mp ht
          obtain ⟨c', hc', hread⟩ := Buffer.retrieveUntil_congr hb hc
          exact ⟨_, Option.map_eq_some_iff.mpr ⟨_, hc', rfl⟩, rfl, rfl, rfl, hread⟩
  | kExpectBody =>
      simp only [parseStep] at ht ⊢
      rw [Buffer.readableBytes_congr hb] at ht
      split_ifs at ht ⊢
      · obtain rfl := Option.some.inj ht
        exact ⟨_, rfl, rfl, rfl, rfl, hb⟩
      · obtain ⟨⟨body, c⟩, hc, rfl⟩ := Option.map_eq_some_iff.mp ht
        obtain ⟨c', hc', hread⟩ := Buffer.retrieveAsString_congr hb hc
        exact ⟨_, Option.map_eq_some_iff.mpr ⟨_, hc', rfl⟩, rfl, rfl, rfl, hread⟩
      · obtain rfl := Option.some.inj ht
        exact ⟨_, rfl, rfl, rfl, rfl, hb⟩
  | kGotAll =>
      obtain rfl := Option.some.inj ht
      exact ⟨_, rfl, rfl, rfl, rfl, hb⟩

theorem inStep_sameBytes :
    Lib.While.InStep ParseLoop.hasMore parseStep ParseLoop.hasMore parseStep SameBytes :=
  ⟨fun h => h.hasMore, fun h ht => parseStep_sameBytes h ht⟩

namespace HttpContext

/-- `parseRequest(buf)` returns `ok` and leaves this context and these readable bytes. -/
def ReturnsBytes (context : HttpContext) (buf : Buffer) (ok : Bool) (context' : HttpContext)
    (w : Bytes) : Prop :=
  ∃ buf', Returns context buf ok context' buf' ∧ buf'.readable = w

/-- Loops whose variables agree return alike and spin alike. -/
theorem finishes_congr {s s' : ParseLoop} (h : SameBytes s s') {ok : Bool} {context : HttpContext}
    {buf : Buffer}
    (hf : Lib.While.Finishes ParseLoop.hasMore parseStep s ⟨ok, false, context, buf⟩) :
    ∃ buf', Lib.While.Finishes ParseLoop.hasMore parseStep s' ⟨ok, false, context, buf'⟩ ∧
      buf'.readable = buf.readable := by
  obtain ⟨⟨ok', more', context', buf'⟩, hf', hs⟩ := inStep_sameBytes.finishes h hf
  obtain ⟨rfl, rfl, rfl, hread⟩ := hs
  exact ⟨buf', hf', hread.symm⟩

theorem spins_congr {s s' : ParseLoop} (h : SameBytes s s') :
    Lib.While.Spins ParseLoop.hasMore parseStep s ↔
      Lib.While.Spins ParseLoop.hasMore parseStep s' :=
  ⟨inStep_sameBytes.spins h, inStep_sameBytes.spins h.symm⟩

/-- A call that returned `true` and has not got all has read the complete lines: none, or the
request line and some headers. Another complete line is not there. -/
theorem returns_unfinished {context : HttpContext} {buf buf' : Buffer}
    (hret : Returns {} buf true context buf') (hmore : context.gotAll = false) :
    (context = {} ∧ buf' = buf) ∨ ∃ line req hs part, PartialHead buf.readable line req hs part ∧
      context = ⟨.kExpectHeaders, setHeaderLines req hs⟩ ∧ buf'.readable = part := by
  rcases head_cases buf.readable with hno | ⟨line, rest, hrej⟩ | ⟨line, req, hs, part, hpart⟩ |
    ⟨line, req, hs, last, rest, hhead⟩
  · obtain ⟨-, hcontext, hbuf⟩ := hret.unique (returns_noLine hno)
    exact Or.inl ⟨hcontext, hbuf⟩
  · obtain ⟨req, hreq⟩ := hrej.rejected
    obtain ⟨hok, -, -⟩ := hret.unique (returns_rejected hrej.clear hrej.split hreq)
    cases hok
  · obtain ⟨buf'', hret', hread⟩ := returns_partial hpart
    obtain ⟨-, hcontext, rfl⟩ := hret.unique hret'
    exact Or.inr ⟨line, req, hs, part, hpart, hcontext, hread⟩
  · by_cases hlen : bodyTaken (setHeaderLines req hs) ≤ rest.length
    · obtain ⟨buf'', hgot, -⟩ := returns_complete hhead hlen
      obtain ⟨-, rfl, -⟩ := hret.unique hgot
      cases hmore
    · exact absurd hret (spins_bodyPending hhead (Nat.not_le.mp hlen)).not_finishes

/-- A call on all of the bytes comes to where the first of two calls stopped. -/
theorem steps_resume {context : HttpContext} {bufU bufU' bufV bufUV : Buffer} {v : Bytes}
    (hret : Returns {} bufU true context bufU') (hmore : context.gotAll = false)
    (happ : bufU'.append v = some bufV) (huv : bufUV.readable = bufU.readable ++ v) :
    ∃ s, Lib.While.Steps ParseLoop.hasMore parseStep (enter {} bufUV) s ∧
      SameBytes (enter context bufV) s := by
  obtain ⟨b, hb, hreadV⟩ := bufU'.append_eq_some v
  obtain rfl := Option.some.inj (happ.symm.trans hb)
  rcases returns_unfinished hret hmore with ⟨rfl, rfl⟩ | ⟨line, req, hs, part, hpart, rfl, hread⟩
  · exact ⟨enter {} bufUV, .refl, rfl, rfl, rfl, by rw [enter, enter, hreadV, huv]⟩
  · have hsplit : bufUV.readable =
        line ++ kCRLF ++ (Lib.Lines.unlines kCRLF hs ++ (part ++ v)) := by
      rw [huv, hpart.split]
      simp only [List.append_assoc]
    obtain ⟨buf', hsteps, hread'⟩ := steps_head hpart.clear hpart.accepted hpart.headers hsplit
    exact ⟨_, hsteps, rfl, rfl, rfl, by rw [enter, hreadV, hread, hread']⟩

/-- After a call on `u` that returned `true` and has not got all, and after `v` was appended,
a second call returns as one call on `u ++ v` does, and spins as that does. -/
theorem parseRequest_resumes {context : HttpContext} {bufU bufU' bufV bufUV : Buffer} {v : Bytes}
    (hret : Returns {} bufU true context bufU') (hmore : context.gotAll = false)
    (happ : bufU'.append v = some bufV) (huv : bufUV.readable = bufU.readable ++ v) :
    (∀ ok context' w,
      ReturnsBytes context bufV ok context' w ↔ ReturnsBytes {} bufUV ok context' w) ∧
    (Spins context bufV ↔ Spins {} bufUV) := by
  obtain ⟨s, hsteps, hsame⟩ := steps_resume hret hmore happ huv
  refine ⟨fun ok context' w => ⟨?_, ?_⟩, (spins_congr hsame).trans hsteps.spins_iff.symm⟩
  · intro hfirst
    obtain ⟨buf', hbuf', hread⟩ := hfirst
    obtain ⟨buf'', hbuf'', hread'⟩ := finishes_congr hsame hbuf'
    exact ⟨buf'', hsteps.finishes_iff.mpr hbuf'', hread'.trans hread⟩
  · intro hwhole
    obtain ⟨buf', hbuf', hread⟩ := hwhole
    obtain ⟨buf'', hbuf'', hread'⟩ := finishes_congr hsame.symm (hsteps.finishes_iff.mp hbuf')
    exact ⟨buf'', hbuf'', hread'.trans hread⟩

/-- The beginning of a request, cut between the CR and the LF of its first header. -/
def cutRequest : Bytes := ascii "GET / HTTP/1.1\r\nHost: a\r"

theorem partialHead_cutRequest :
    PartialHead cutRequest (ascii "GET / HTTP/1.1")
      { method := .kGet, version := .kHttp11, path := ascii "/" } [] (ascii "Host: a\r") where
  clear := by decide
  accepted := rfl
  headers := by simp
  unfinished := by decide
  split := by decide

theorem parseRequest_resumes_cutRequest :
    ∃ context bufU' bufV, Returns {} (Buffer.holding cutRequest) true context bufU' ∧
      bufU'.append (ascii "\n\r\n") = some bufV ∧
      (∀ ok context' w, ReturnsBytes context bufV ok context' w ↔
        ReturnsBytes {} (Buffer.holding (cutRequest ++ ascii "\n\r\n")) ok context' w) ∧
      (Spins context bufV ↔ Spins {} (Buffer.holding (cutRequest ++ ascii "\n\r\n"))) := by
  have hhead := partialHead_cutRequest
  rw [← Buffer.readable_holding cutRequest] at hhead
  obtain ⟨bufU', hret, -⟩ := returns_partial hhead
  obtain ⟨bufV, happ, -⟩ := bufU'.append_eq_some (ascii "\n\r\n")
  exact ⟨_, bufU', bufV, hret, happ, parseRequest_resumes hret rfl happ (by simp)⟩

end HttpContext

end Dummyload
