import Dummyload.Http.HttpContext
import Dummyload.Http.HttpResponse

/-!
# Dummyload.Http.HttpServer

`HttpServer::onMessage` and `onRequest` (`http/HttpServer.cpp`) on one
connection, driven by `TcpConnection::handleRead`: each read appends what
arrived to `inputBuffer_` and parses it with a *new* `HttpContext`.

The calls the server makes on the connection and on the application are recorded
in order as `Action`s. `httpCallback_` is a parameter that reads and writes a
state of its own (`α`), so it may be any function, and answer the same request
differently from one call to the next.
-/

namespace Dummyload

/-- What the server does while it handles a read. -/
inductive Action
  /-- `httpCallback_(req, &response)`. -/
  | httpCallback (req : HttpRequest)
  /-- `conn->send(message)`. -/
  | send (message : Bytes)
  /-- `conn->shutdown()`. -/
  | shutdown
  /-- `handleClose()`, the peer having closed. -/
  | handleClose
  deriving DecidableEq

/-- `HttpCallback`, with the state it keeps. -/
abbrev HttpCallback (α : Type*) := α → HttpRequest → HttpResponse → α × HttpResponse

/-- A connection as the HTTP server sees it. -/
structure HttpConnection (α : Type*) where
  inputBuffer : Buffer
  app : α
  actions : List Action

variable {α : Type*}

/-- A connection that was just accepted. -/
def HttpConnection.fresh (app : α) : HttpConnection α := ⟨Buffer.new kInitialSize, app, []⟩

/-- The 400 that `onMessage` sends. -/
def badRequest : Bytes := ascii "HTTP/1.1 400 Bad Request\r\n\r\n"

/-- `close` in `onRequest`. -/
def wantsClose (req : HttpRequest) : Bool :=
  let connection := req.header (ascii "Connection")
  connection = ascii "close" || (req.version = .kHttp10 && connection ≠ ascii "Keep-Alive")

/-- `onRequest(conn, req)`. -/
def onRequest (httpCallback : HttpCallback α) (conn : HttpConnection α) (req : HttpRequest) :
    Option (HttpConnection α) :=
  let (app, response) := httpCallback conn.app req { closeConnection := wantsClose req }
  (response.appendToBuffer (Buffer.new kInitialSize)).bind fun buf =>
    buf.retrieveAllAsString.map fun (message, _) =>
      { conn with
        app := app
        actions := conn.actions ++ [.httpCallback req, .send message] ++
          if response.closeConnection then [.shutdown] else [] }

/-- `onMessage(conn, &inputBuffer_)`, with fuel for the loop of `parseRequest`. -/
def onMessage (httpCallback : HttpCallback α) (fuel : Nat) (conn : HttpConnection α) :
    Lib.While.Exit (HttpConnection α) :=
  match HttpContext.parseRequest {} conn.inputBuffer fuel with
  | .outOfFuel => .outOfFuel
  | .aborted => .aborted
  | .finished p =>
    let conn : HttpConnection α :=
      { conn with
        inputBuffer := p.buf
        actions := if p.ok then conn.actions else conn.actions ++ [.send badRequest, .shutdown] }
    if p.context.gotAll then
      match onRequest httpCallback conn p.context.request with
      | none => .aborted
      | some conn => .finished conn
    else .finished conn

/-- `TcpConnection::handleRead()` on a read with this result. -/
def handleRead (httpCallback : HttpCallback α) (fuel : Nat) (conn : HttpConnection α)
    (r : Buffer.Readv) : Lib.While.Exit (HttpConnection α) :=
  match conn.inputBuffer.readFd 0 r with
  | none => .aborted
  | some (n, _, buf) =>
    if n > 0 then onMessage httpCallback fuel { conn with inputBuffer := buf }
    else if n = 0 then
      .finished { conn with inputBuffer := buf, actions := conn.actions ++ [.handleClose] }
    else .finished { conn with inputBuffer := buf }

/-- A read of `chunk` is handled to its end. -/
def Delivers (httpCallback : HttpCallback α) (conn : HttpConnection α) (chunk : Bytes)
    (conn' : HttpConnection α) : Prop :=
  ∃ fuel, handleRead httpCallback fuel conn (.bytes chunk) = .finished conn'

/-- Successive reads, each handled to its end. -/
def DeliversAll (httpCallback : HttpCallback α) :
    HttpConnection α → List Bytes → HttpConnection α → Prop
  | conn, [], conn' => conn = conn'
  | conn, c :: cs, conn' =>
    ∃ conn₁, Delivers httpCallback conn c conn₁ ∧ DeliversAll httpCallback conn₁ cs conn'

/-- The requests the callback was invoked with, in order. -/
def callbacks (as : List Action) : List HttpRequest :=
  as.filterMap fun | .httpCallback req => some req | _ => none

/-- The messages sent, in order. -/
def sent (as : List Action) : List Bytes :=
  as.filterMap fun | .send message => some message | _ => none

@[simp] theorem callbacks_append (as bs : List Action) :
    callbacks (as ++ bs) = callbacks as ++ callbacks bs := by simp [callbacks]

@[simp] theorem sent_append (as bs : List Action) : sent (as ++ bs) = sent as ++ sent bs := by
  simp [sent]

/-! ### One read -/

variable (httpCallback : HttpCallback α)

/-- What a complete request makes the server do. -/
def answer (app : α) (req : HttpRequest) : List Action :=
  let response := (httpCallback app req { closeConnection := wantsClose req }).2
  [.httpCallback req, .send response.bytes] ++ if response.closeConnection then [.shutdown] else []

/-- The state of the application after answering. -/
def answered (app : α) (req : HttpRequest) : α :=
  (httpCallback app req { closeConnection := wantsClose req }).1

theorem onRequest_eq_some (conn : HttpConnection α) (req : HttpRequest) :
    onRequest httpCallback conn req = some
      ⟨conn.inputBuffer, answered httpCallback conn.app req,
        conn.actions ++ answer httpCallback conn.app req⟩ := by
  unfold onRequest answer answered
  generalize httpCallback conn.app req { closeConnection := wantsClose req } = res
  obtain ⟨app, response⟩ := res
  obtain ⟨b₁, h₁, hread₁⟩ := response.appendToBuffer_eq_some (Buffer.new kInitialSize)
  obtain ⟨b₂, h₂, -⟩ := b₁.retrieveAllAsString_eq_some
  rw [hread₁, Buffer.readable_new, List.nil_append] at h₂
  simp [h₁, h₂]

@[simp] theorem callbacks_answer (app : α) (req : HttpRequest) :
    callbacks (answer httpCallback app req) = [req] := by
  unfold answer
  dsimp only
  split <;> rfl

theorem sent_answer (app : α) (req : HttpRequest) : sent (answer httpCallback app req) =
    [(httpCallback app req { closeConnection := wantsClose req }).2.bytes] := by
  unfold answer
  dsimp only
  split <;> rfl

/-- The connection after `onMessage`, given what `parseRequest` returned. -/
def afterParse (conn : HttpConnection α) (ok : Bool)
    (context : HttpContext) (buf : Buffer) : HttpConnection α :=
  let as := if ok then conn.actions else conn.actions ++ [.send badRequest, .shutdown]
  if context.gotAll then
    ⟨buf, answered httpCallback conn.app context.request,
      as ++ answer httpCallback conn.app context.request⟩
  else ⟨buf, conn.app, as⟩

theorem actions_afterParse (conn : HttpConnection α) (ok : Bool) (context : HttpContext)
    (buf : Buffer) : (afterParse httpCallback conn ok context buf).actions =
      conn.actions ++ (if ok then [] else [.send badRequest, .shutdown]) ++
        if context.gotAll then answer httpCallback conn.app context.request else [] := by
  rw [afterParse]
  cases ok <;> cases context.gotAll <;> simp

/-- **One read.** Its bytes are appended to the input buffer, and what follows is
decided by what `parseRequest` returns on that buffer. -/
theorem delivers_iff {conn conn' : HttpConnection α} {chunk : Bytes} (hne : chunk ≠ []) :
    Delivers httpCallback conn chunk conn' ↔
      ∃ buf ok context buf', buf.readable = conn.inputBuffer.readable ++ chunk ∧
        conn.inputBuffer.readFd 0 (.bytes chunk) = some ((chunk.length : Int), 0, buf) ∧
        HttpContext.Returns {} buf ok context buf' ∧
        conn' = afterParse httpCallback conn ok context buf' := by
  obtain ⟨buf, hbuf, hread⟩ := conn.inputBuffer.readFd_bytes 0 chunk
  have hpos : ((chunk.length : Int)) > 0 := by
    have := List.length_pos_of_ne_nil hne
    omega
  have hstep : ∀ fuel, handleRead httpCallback fuel conn (.bytes chunk) =
      onMessage httpCallback fuel { conn with inputBuffer := buf } := fun fuel => by
    rw [handleRead, hbuf]
    dsimp only
    rw [if_pos hpos]
  have hafter : ∀ {fuel : Nat} {p : ParseLoop},
      HttpContext.parseRequest {} buf fuel = .finished p →
      onMessage httpCallback fuel { conn with inputBuffer := buf } =
        .finished (afterParse httpCallback conn p.ok p.context p.buf) := by
    intro fuel p hp
    rw [onMessage, hp]
    dsimp only [afterParse]
    by_cases hall : p.context.gotAll = true
    · rw [if_pos hall, if_pos hall, onRequest_eq_some]
    · rw [if_neg hall, if_neg hall]
  constructor
  · intro hex
    obtain ⟨fuel, h⟩ := hex
    rw [hstep] at h
    cases hp : HttpContext.parseRequest {} buf fuel with
    | outOfFuel => simp [onMessage, hp] at h
    | aborted => simp [onMessage, hp] at h
    | finished p =>
        rw [hafter hp] at h
        have hexit : p.hasMore = false := Lib.While.Finishes.cond_eq_false ⟨fuel, hp⟩
        refine ⟨buf, p.ok, p.context, p.buf, hread, hbuf, ⟨fuel, ?_⟩,
          (Lib.While.Exit.finished.inj h).symm⟩
        rw [← hexit]
        exact hp
  · intro hex
    obtain ⟨buf₁, ok, context, buf', -, hbuf₁, ⟨fuel, hp⟩, rfl⟩ := hex
    obtain rfl : buf = buf₁ := by
      rw [hbuf] at hbuf₁
      simpa using hbuf₁
    exact ⟨fuel, by rw [hstep, hafter hp]⟩

/-- A read after which the parser returns on the bytes that are then readable. -/
theorem delivers_of_returns {conn : HttpConnection α} {chunk rest : Bytes} {ok : Bool}
    {context : HttpContext} (hne : chunk ≠ [])
    (h : ∀ buf : Buffer, buf.readable = conn.inputBuffer.readable ++ chunk →
      ∃ buf', HttpContext.Returns {} buf ok context buf' ∧ buf'.readable = rest) :
    ∃ buf', buf'.readable = rest ∧ ∀ conn', Delivers httpCallback conn chunk conn' ↔
      conn' = afterParse httpCallback conn ok context buf' := by
  obtain ⟨buf, hbuf, hread⟩ := conn.inputBuffer.readFd_bytes 0 chunk
  obtain ⟨buf', hret, hrest⟩ := h buf hread
  refine ⟨buf', hrest, fun conn' => ?_⟩
  rw [delivers_iff httpCallback hne]
  constructor
  · intro hex
    obtain ⟨buf₁, ok₁, context₁, buf₁', -, hbuf₁, hret₁, rfl⟩ := hex
    obtain rfl : buf = buf₁ := by
      rw [hbuf] at hbuf₁
      simpa using hbuf₁
    obtain ⟨rfl, rfl, rfl⟩ := hret₁.unique hret
    rfl
  · intro heq
    obtain rfl := heq
    exact ⟨buf, ok, context, buf', hread, hbuf, hret, rfl⟩

/-- A read after which the parser spins is never handled to its end. -/
theorem not_delivers_of_spins {conn conn' : HttpConnection α} {chunk : Bytes} (hne : chunk ≠ [])
    (h : ∀ buf : Buffer, buf.readable = conn.inputBuffer.readable ++ chunk →
      HttpContext.Spins {} buf) : ¬ Delivers httpCallback conn chunk conn' := by
  rw [delivers_iff httpCallback hne]
  intro hex
  obtain ⟨buf, ok, context, buf', hread, -, hret, -⟩ := hex
  exact (h buf hread).not_finishes hret

end Dummyload
