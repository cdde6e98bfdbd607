import Dummyload.Http.HttpContext

/-!
# Dummyload.Http.Termination

When `parseRequest` returns. In `kExpectBody` a body that has not arrived whole
matches no branch of the loop body, so the iteration repeats unchanged: the call
spins exactly on the inputs whose header section is complete and asks for more
bytes than follow it. A negative Content-Length always does, being converted to
a `size_t` no buffer can hold.
-/

namespace Dummyload

namespace HttpContext

/-- The header section of `w` is complete and its Content-Length asks for more
bytes than follow it. -/
def BodyPending (w : Bytes) : Prop :=
  ∃ line req hs last rest, HeadSection w line req hs last rest ∧
    rest.length < bodyTaken (setHeaderLines req hs)

/-- A call on bytes without a pending body returns. -/
theorem returns_of_not_bodyPending {buf : Buffer} (h : ¬ BodyPending buf.readable) :
    ∃ ok context buf', Returns {} buf ok context buf' := by
  rcases head_cases buf.readable with hno | ⟨line, rest, hrej⟩ | ⟨line, req, hs, part, hpart⟩ |
    ⟨line, req, hs, last, rest, hhead⟩
  · exact ⟨_, _, _, returns_noLine hno⟩
  · obtain ⟨req, hreq⟩ := hrej.rejected
    exact ⟨_, _, _, returns_rejected hrej.clear hrej.split hreq⟩
  · obtain ⟨buf', hret, -⟩ := returns_partial hpart
    exact ⟨_, _, _, hret⟩
  · have hlen : bodyTaken (setHeaderLines req hs) ≤ rest.length := by
      by_contra hlt
      exact h ⟨line, req, hs, last, rest, hhead, Nat.not_le.mp hlt⟩
    obtain ⟨buf', hret, -⟩ := returns_complete hhead hlen
    exact ⟨_, _, _, hret⟩

theorem spins_of_bodyPending {buf : Buffer} (h : BodyPending buf.readable) : Spins {} buf := by
  obtain ⟨line, req, hs, last, rest, hhead, hlt⟩ := h
  exact spins_bodyPending hhead hlt

theorem not_returns_of_bodyPending {buf : Buffer} (h : BodyPending buf.readable) {ok : Bool}
    {context : HttpContext} {buf' : Buffer} : ¬ Returns {} buf ok context buf' :=
  (spins_of_bodyPending h).not_finishes

/-- **`parseRequest` on a fresh context returns if and only if no body is pending.** -/
theorem parseRequest_returns_iff (buf : Buffer) :
    (∃ ok context buf', Returns {} buf ok context buf') ↔ ¬ BodyPending buf.readable := by
  constructor
  · intro hex h
    obtain ⟨ok, context, buf', hret⟩ := hex
    exact not_returns_of_bodyPending h hret
  · exact returns_of_not_bodyPending

/-- A `POST` whose five body bytes have not arrived yet. -/
def pendingPost : Bytes := ascii "POST / HTTP/1.1\r\nContent-Length: 5\r\n\r\n"

theorem bodyPending_pendingPost : BodyPending pendingPost := by
  refine ⟨ascii "POST / HTTP/1.1", _, [ascii "Content-Length: 5"], [], [],
    { clear := by decide, accepted := rfl, headers := by decide, last_noColon := by decide,
      last_clear := by decide, split := by decide }, ?_⟩
  decide +kernel

/-- It is not the case that `parseRequest` returns on every input. -/
theorem parseRequest_not_always_returns :
    ¬ ∀ buf : Buffer, ∃ ok context buf', Returns {} buf ok context buf' := by
  intro h
  obtain ⟨ok, context, buf', hret⟩ := h (Buffer.holding pendingPost)
  refine not_returns_of_bodyPending ?_ hret
  rw [Buffer.readable_holding]
  exact bodyPending_pendingPost

end HttpContext

end Dummyload
