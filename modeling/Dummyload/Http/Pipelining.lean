import Dummyload.Http.HttpServer
import Dummyload.Http.RequestText

/-!
# Dummyload.Http.Pipelining

Several requests in one read. `onMessage` parses once per read, so of `k`
requests that arrive together exactly the first is answered; the others stay in
the input buffer, where nothing looks at them until more bytes arrive.
-/

namespace Dummyload

open HttpContext

variable {α : Type*}

/-- The bytes of the requests one after the other. -/
def renderAll (rs : List RequestText) : Bytes := rs.flatMap RequestText.render

/-- The messages that answer the requests in order, each in the state of the
application that the one before left. -/
def answers (httpCallback : HttpCallback α) : α → List RequestText → List Bytes
  | _, [] => []
  | app, r :: rs =>
    sent (answer httpCallback app r.toRequest) ++
      answers httpCallback (answered httpCallback app r.toRequest) rs

/-- The request keeps the connection alive. -/
def KeepAlive (r : RequestText) : Prop := wantsClose r.toRequest = false

/-- The read of `rs` is handled to its end with the callback invoked once per
request and in order, the answers sent in that order, and no complete request
left in the input buffer. -/
def Served (httpCallback : HttpCallback α) (conn : HttpConnection α) (rs : List RequestText) :
    Prop :=
  ∃ conn' as, Delivers httpCallback conn (renderAll rs) conn' ∧
    conn'.actions = conn.actions ++ as ∧
    callbacks as = rs.map RequestText.toRequest ∧
    sent as = answers httpCallback conn.app rs ∧
    ¬ ∃ (r : RequestText) (t : Bytes), conn'.inputBuffer.readable = r.render ++ t

theorem render_ne_nil (r : RequestText) : r.render ≠ [] := by
  simp [RequestText.render, RequestText.requestLine]

/-- One read of pipelined requests: the first is answered, the others stay. -/
theorem delivers_renderAll (httpCallback : HttpCallback α) {conn : HttpConnection α}
    (hempty : conn.inputBuffer.readable = []) (r : RequestText) (rs : List RequestText) :
    ∃ conn', Delivers httpCallback conn (renderAll (r :: rs)) conn' ∧
      conn'.actions = conn.actions ++ answer httpCallback conn.app r.toRequest ∧
      conn'.inputBuffer.readable = renderAll rs ∧
      ∀ conn'', Delivers httpCallback conn (renderAll (r :: rs)) conn'' → conn'' = conn' := by
  have hne : renderAll (r :: rs) ≠ [] := by
    rw [renderAll, List.flatMap_cons]
    exact List.append_ne_nil_of_left_ne_nil (render_ne_nil r) _
  have hparse : ∀ buf : Buffer,
      buf.readable = conn.inputBuffer.readable ++ renderAll (r :: rs) →
      ∃ buf', Returns {} buf true ⟨.kGotAll, r.toRequest⟩ buf' ∧ buf'.readable = renderAll rs := by
    intro buf hbuf
    rw [hempty, List.nil_append, renderAll, List.flatMap_cons] at hbuf
    exact r.returns_render hbuf
  obtain ⟨buf', hrest, hiff⟩ := delivers_of_returns httpCallback hne hparse
  exact ⟨_, (hiff _).mpr rfl, rfl, hrest, fun conn' h => (hiff conn').mp h⟩

/-- Nothing readable is no request. -/
theorem not_request_of_empty {buf : Buffer} (h : buf.readable = []) :
    ¬ ∃ (r : RequestText) (t : Bytes), buf.readable = r.render ++ t := by
  intro hex
  obtain ⟨r, t, hr⟩ := hex
  rw [h] at hr
  exact render_ne_nil r (List.append_eq_nil_iff.mp hr.symm).1

/-- **Pipelining.** Requests that arrive in one read on a connection whose input
buffer is empty are all served if and only if there is just one of them. -/
theorem pipelined_served_iff (httpCallback : HttpCallback α) (conn : HttpConnection α)
    (hempty : conn.inputBuffer.readable = []) (rs : List RequestText) (hne : rs ≠ []) :
    Served httpCallback conn rs ↔ rs.length = 1 := by
  obtain ⟨r, rs, rfl⟩ := List.exists_cons_of_ne_nil hne
  obtain ⟨conn₁, hconn₁, hactions₁, hread, huniq⟩ :=
    delivers_renderAll httpCallback hempty r rs
  constructor
  · intro hex
    obtain ⟨conn', as, hconn', hactions, hcalls, -, -⟩ := hex
    rw [huniq conn' hconn', hactions₁] at hactions
    rw [← List.append_cancel_left hactions, callbacks_answer] at hcalls
    simpa using (congrArg List.length hcalls).symm
  · intro hlen
    obtain rfl : rs = [] := by simpa using hlen
    refine ⟨conn₁, _, hconn₁, hactions₁, ?_, ?_, not_request_of_empty hread⟩
    · rw [callbacks_answer]
      rfl
    · rw [answers, answers, List.append_nil]

/-- A keep-alive request without header fields. -/
def getRoot : RequestText where
  method := .kGet
  path := ascii "/"
  query := []
  version := .kHttp11
  headers := []
  body := []
  method_valid := by decide
  path_noSpace := by decide
  path_noQuestion := by decide
  path_noCRLF := by decide
  query_question := fun h => absurd rfl h
  query_noSpace := by decide
  query_noCRLF := by decide
  version_known := kHttp11_known
  announced := Or.inl (by simp)

/-- `defaultHttpCallback`. -/
def defaultHttpCallback : HttpCallback Unit := fun app _ resp =>
  (app, { resp with
    statusCode := .k404NotFound
    statusMessage := ascii "Not Found"
    body := ascii "404 Not Found"
    closeConnection := true })

theorem keepAlive_getRoot : KeepAlive getRoot := by
  unfold KeepAlive
  decide +kernel

theorem pipelined_served_getRoot : Served defaultHttpCallback (.fresh ()) [getRoot] :=
  (pipelined_served_iff defaultHttpCallback (.fresh ()) (Buffer.readable_new _) [getRoot]
    (by simp)).mpr rfl

/-- Two keep-alive requests in one read are not both served. -/
theorem pipelined_not_always_served :
    ¬ ∀ (httpCallback : HttpCallback Unit) (conn : HttpConnection Unit) (rs : List RequestText),
      conn.inputBuffer.readable = [] → rs ≠ [] → (∀ r ∈ rs, KeepAlive r) →
        Served httpCallback conn rs := by
  intro h
  have hempty : (HttpConnection.fresh ()).inputBuffer.readable = [] := Buffer.readable_new _
  obtain ⟨conn', as, hconn', hactions, hcalls, -⟩ :=
    h defaultHttpCallback (.fresh ()) [getRoot, getRoot] hempty (by simp)
      (by simpa using keepAlive_getRoot)
  obtain ⟨conn, -, hactions₁, -, huniq⟩ :=
    delivers_renderAll defaultHttpCallback hempty getRoot [getRoot]
  rw [huniq conn' hconn', hactions₁] at hactions
  rw [← List.append_cancel_left hactions, callbacks_answer] at hcalls
  simpa using congrArg List.length hcalls

end Dummyload
