import Dummyload.Http.Chunking

/-!
# Dummyload.Http.Stopping

What arrives after the server has decided to close the connection. `onMessage`
keeps no state and does not look at the connection's, and the input stays read
after `shutdown()`: every later read is parsed again, so that the server stops
only if nothing more is sent to it (`stops_iff`). A rejected line stays in the
input buffer and is rejected again by every read (`badRequests_rejected`).
-/

namespace Dummyload

open HttpContext

variable {α : Type*} (httpCallback : HttpCallback α)

/-- The read has `onMessage` invoked, which parses. -/
def Parses (conn : HttpConnection α) (chunk : Bytes) : Prop :=
  ∃ n savedErrno buf, conn.inputBuffer.readFd 0 (.bytes chunk) = some (n, savedErrno, buf) ∧ 0 < n

/-- The server has sent a 400, or a response with `closeConnection()`: it has called
`conn->shutdown()`. -/
def Decided (conn : HttpConnection α) : Prop := .shutdown ∈ conn.actions

/-- The read causes no parse, no call of `httpCallback_` and no response. -/
def Ignored (conn : HttpConnection α) (chunk : Bytes) : Prop :=
  ¬ Parses conn chunk ∧ ∀ conn', Delivers httpCallback conn chunk conn' →
    callbacks conn'.actions = callbacks conn.actions ∧ sent conn'.actions = sent conn.actions

/-- The connection `conn₁` after some of the reads, when `chunk` is the next. -/
def Before (conn : HttpConnection α) (chunks : List Bytes) (conn₁ : HttpConnection α)
    (chunk : Bytes) : Prop :=
  ∃ earlier later, chunks = earlier ++ chunk :: later ∧ DeliversAll httpCallback conn earlier conn₁

/-- Once the server has decided to close, it ignores all reads, and it has sent one 400 at
most. -/
def Stops (conn : HttpConnection α) (chunks : List Bytes) : Prop :=
  (∀ conn₁ chunk, Before httpCallback conn chunks conn₁ chunk → Decided conn₁ →
    Ignored httpCallback conn₁ chunk) ∧
  ∀ earlier conn₁, earlier <+: chunks → DeliversAll httpCallback conn earlier conn₁ →
    (sent conn₁.actions).count badRequest ≤ 1

/-- No bytes arrive after the read in which the server decides to close. -/
def LastWord (conn : HttpConnection α) (chunks : List Bytes) : Prop :=
  ∀ conn₁ chunk, Before httpCallback conn chunks conn₁ chunk → chunk ≠ [] → ¬ Decided conn₁

/-! ### One read -/

section OneRead

variable {conn conn' : HttpConnection α} {chunk : Bytes}

theorem parses_iff : Parses conn chunk ↔ chunk ≠ [] := by
  obtain ⟨buf, hbuf, -⟩ := conn.inputBuffer.readFd_bytes 0 chunk
  constructor
  · intro hex hnil
    obtain ⟨n, savedErrno, buf', hread, hpos⟩ := hex
    rw [hbuf, hnil] at hread
    simp at hread
    omega
  · intro hne
    refine ⟨_, _, _, hbuf, ?_⟩
    have := List.length_pos_of_ne_nil hne
    omega

/-- The end of the stream closes the connection. -/
theorem actions_delivers_nil (h : Delivers httpCallback conn [] conn') :
    conn'.actions = conn.actions ++ [.handleClose] := by
  obtain ⟨buf, hbuf, -⟩ := conn.inputBuffer.readFd_bytes 0 []
  obtain ⟨fuel, h⟩ := h
  rw [handleRead, hbuf] at h
  dsimp only at h
  rw [if_neg (by simp), if_pos (by simp)] at h
  obtain rfl := Lib.While.Exit.finished.inj h
  rfl

/-- A response is not the 400 of `onMessage`: with its Connection field it is longer. -/
theorem HttpResponse.bytes_ne_badRequest (resp : HttpResponse) : resp.bytes ≠ badRequest := by
  have h400 : badRequest.length = 28 := by decide
  have hstatus : 10 ≤ (snprintf32 (ascii "HTTP/1.1 " ++ toDecimal resp.statusCode.value ++
      ascii " ")).length := by
    rw [snprintf32, List.length_take, List.length_append, List.length_append]
    have : (ascii "HTTP/1.1 ").length = 9 := by decide
    have : (ascii " ").length = 1 := by decide
    omega
  have hfield : 19 ≤ (if resp.closeConnection then [ascii "Connection: close\r\n"]
      else [snprintf32 (ascii "Content-Length: " ++ toDecimal resp.body.length ++ ascii "\r\n"),
        ascii "Connection: Keep-Alive\r\n"]).flatten.length := by
    split
    · decide
    · rw [List.flatten_cons, List.flatten_singleton, List.length_append]
      exact le_add_left (by decide)
  intro heq
  have hlen := congrArg List.length heq
  rw [bytes, pieces, List.flatten_append, List.flatten_append, List.flatten_append,
    List.length_append, List.length_append, List.length_append, h400] at hlen
  simp only [List.flatten_cons, List.length_append] at hlen
  omega

/-- How many 400s were sent. -/
def badRequests (conn : HttpConnection α) : Nat := (sent conn.actions).count badRequest

/-- Of a connection on which the server has not decided to close, a read is answered with
one 400, and then this is the decision, or with none. -/
theorem badRequests_delivers (hne : chunk ≠ []) (h : Delivers httpCallback conn chunk conn') :
    badRequests conn' = badRequests conn ∨
      (badRequests conn' = badRequests conn + 1 ∧ Decided conn') := by
  obtain ⟨buf, ok, context, buf', -, -, -, rfl⟩ := (delivers_iff httpCallback hne).mp h
  have hanswer : (sent (if context.gotAll then
      answer httpCallback conn.app context.request else [])).count badRequest = 0 := by
    split
    · rw [sent_answer, List.count_singleton,
        if_neg (by simpa using HttpResponse.bytes_ne_badRequest _)]
    · rfl
  rw [badRequests, Decided, actions_afterParse, sent_append, sent_append, List.count_append,
    List.count_append, hanswer]
  cases ok with
  | true => exact Or.inl rfl
  | false => exact Or.inr ⟨rfl, by simp⟩

end OneRead

/-! ### All reads -/

theorem Before.cons {conn conn₁ conn₂ : HttpConnection α} {c chunk : Bytes} {cs : List Bytes}
    (h₁ : Delivers httpCallback conn c conn₁) (h : Before httpCallback conn₁ cs conn₂ chunk) :
    Before httpCallback conn (c :: cs) conn₂ chunk := by
  obtain ⟨earlier, later, rfl, hall⟩ := h
  exact ⟨c :: earlier, later, rfl, conn₁, h₁, hall⟩

/-- As long as nothing arrives after the decision, there is one 400 at most. -/
theorem badRequests_le_one {conn conn' : HttpConnection α} {chunks earlier : List Bytes}
    (hlast : LastWord httpCallback conn chunks) (hearlier : earlier <+: chunks)
    (hall : DeliversAll httpCallback conn earlier conn') (hle : badRequests conn ≤ 1)
    (hzero : ¬ Decided conn → badRequests conn = 0) : badRequests conn' ≤ 1 := by
  induction earlier generalizing conn chunks with
  | nil =>
      obtain rfl : conn = conn' := hall
      exact hle
  | cons c earlier ih =>
      obtain ⟨later, rfl⟩ := hearlier
      obtain ⟨conn₁, h₁, hall⟩ := hall
      have hlast₁ : LastWord httpCallback conn₁ (earlier ++ later) :=
        fun conn₂ chunk h => hlast conn₂ chunk (h.cons httpCallback h₁)
      by_cases hc : c = []
      · rw [hc] at h₁
        have hactions := actions_delivers_nil httpCallback h₁
        have hsame : badRequests conn₁ = badRequests conn := by
          rw [badRequests, hactions, sent_append]
          exact congrArg _ (List.append_nil _)
        refine ih hlast₁ (List.prefix_append _ _) hall (hsame.trans_le hle) fun hnot => ?_
        rw [hsame]
        refine hzero fun hdecided => hnot ?_
        rw [Decided, hactions]
        exact List.mem_append_left _ hdecided
      · have hnot := hlast conn c ⟨[], earlier ++ later, rfl, rfl⟩ hc
        have hcases := badRequests_delivers httpCallback hc h₁
        rw [hzero hnot] at hcases
        rcases hcases with hnone | ⟨hone, hdecided⟩
        · exact ih hlast₁ (List.prefix_append _ _) hall (by omega) fun _ => hnone
        · exact ih hlast₁ (List.prefix_append _ _) hall hone.le fun h => absurd hdecided h

/-- Once a line was rejected, every read is answered with another 400. -/
theorem badRequests_rejected {conn : HttpConnection α} {chunk line rest : Bytes}
    (chunks : List Bytes) (hne : ∀ c ∈ chunk :: chunks, c ≠ [])
    (hrej : RejectedLine (conn.inputBuffer.readable ++ chunk) line rest) :
    ∃ conn', DeliversAll httpCallback conn (chunk :: chunks) conn' ∧
      badRequests conn' = badRequests conn + (chunks.length + 1) := by
  obtain ⟨buf, hiff⟩ := deliversAll_rejected httpCallback hne hrej
  refine ⟨_, (hiff _).mpr rfl, ?_⟩
  have hcount : ∀ n : Nat, (sent (List.replicate n
      [Action.send badRequest, Action.shutdown]).flatten).count badRequest = n := by
    intro n
    induction n with
    | zero => rfl
    | succ n ih =>
        rw [List.replicate_succ, List.flatten_cons, sent_append, List.count_append, ih, add_comm]
        exact congrArg _ List.count_singleton_self
  rw [badRequests, sent_append, List.count_append, hcount]
  rfl

/-- **The last word.** The server stops talking once it has decided to close the connection
if and only if no bytes arrive after the read in which it decides. -/
theorem stops_iff (app : α) (chunks : List Bytes) :
    Stops httpCallback (.fresh app) chunks ↔ LastWord httpCallback (.fresh app) chunks := by
  constructor
  · intro h conn₁ chunk hbefore hne hdecided
    exact (h.1 conn₁ chunk hbefore hdecided).1 (parses_iff.mpr hne)
  · intro h
    refine ⟨fun conn₁ chunk hbefore hdecided => ?_, fun earlier conn₁ hearlier hall => ?_⟩
    · -- only the end of the stream is left
      have hnil : chunk = [] := by
        by_contra hne
        exact h conn₁ chunk hbefore hne hdecided
      rw [Ignored, parses_iff]
      refine ⟨fun hne => hne hnil, fun conn' hdelivers => ?_⟩
      rw [hnil] at hdelivers
      rw [actions_delivers_nil httpCallback hdelivers, callbacks_append, sent_append]
      exact ⟨List.append_nil _, List.append_nil _⟩
    · exact badRequests_le_one httpCallback h hearlier hall (Nat.zero_le 1) fun _ => rfl

/-- Two lines that are no request line, in two reads, are answered with two 400s. -/
theorem not_always_stops :
    ¬ ∀ (httpCallback : HttpCallback Unit) (chunks : List Bytes),
      Stops httpCallback (.fresh ()) chunks := by
  intro h
  have hrej : RejectedLine ((HttpConnection.fresh ()).inputBuffer.readable ++ ascii "x\r\n")
      (ascii "x") [] := by
    refine ⟨by decide, ⟨{}, by decide +kernel⟩, ?_⟩
    rw [HttpConnection.fresh, Buffer.readable_new]
    decide
  obtain ⟨conn', hall, htwo⟩ := badRequests_rejected defaultHttpCallback
    [ascii "y\r\n"] (by decide) hrej
  have hle := (h defaultHttpCallback _).2 _ conn' List.prefix_rfl hall
  rw [badRequests] at htwo
  rw [htwo] at hle
  exact absurd hle (by decide)

end Dummyload
