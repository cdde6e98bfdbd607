import Dummyload.CString

/-!
# Dummyload.Http.HttpRequest

`HttpRequest` (`http/HttpRequest.h`, `http/HttpRequest.cpp`): the fields a
request is parsed into, one at a time. `std::map<string, string>` is the
ordered map of the standard library, so two requests are equal exactly when all
fields and all header lookups agree.
-/

namespace Dummyload

inductive Method
  | kInvalid | kGet | kPost | kHead | kPut | kDelete
  deriving DecidableEq, Repr

inductive Version
  | kUnknown | kHttp10 | kHttp11
  deriving DecidableEq, Repr

/-- `std::map<std::string, std::string>`. -/
abbrev HeaderMap := Std.ExtTreeMap Bytes Bytes

structure HttpRequest where
  method : Method := .kInvalid
  version : Version := .kUnknown
  path : Bytes := []
  query : Bytes := []
  body : Bytes := []
  headers : HeaderMap := ∅
  deriving DecidableEq

/-- The text of a method in a request line (`methodString`). -/
def Method.text : Method → Bytes
  | .kInvalid => ascii "UNKNOWN"
  | .kGet => ascii "GET"
  | .kPost => ascii "POST"
  | .kHead => ascii "HEAD"
  | .kPut => ascii "PUT"
  | .kDelete => ascii "DELETE"

namespace HttpRequest

/-- `setMethod(start, end)` on the bytes between the pointers. `none` is the
failure of `assert(method_ == kInvalid)`. -/
def setMethod (req : HttpRequest) (m : Bytes) : Option (Bool × HttpRequest) :=
  if req.method = .kInvalid then
    let method : Method :=
      if m = ascii "GET" then .kGet
      else if m = ascii "POST" then .kPost
      else if m = ascii "HEAD" then .kHead
      else if m = ascii "PUT" then .kPut
      else if m = ascii "DELETE" then .kDelete
      else .kInvalid
    some (decide (method ≠ .kInvalid), { req with method := method })
  else none

/-- The value `setHeader` stores for the bytes between the colon and the end of
the line: what is left after trimming white space on both sides. -/
def trim (s : Bytes) : Bytes := (s.dropWhile isspace).rdropWhile isspace

/-- `setHeader(start, colon, end)`, where `line` is `[start, end)` and `colon`
an offset into it. -/
def setHeader (req : HttpRequest) (line : Bytes) (colon : Nat) : HttpRequest :=
  let field := line.take colon
  let value := trim (line.drop (colon + 1))
  { req with headers := req.headers.insert field value }

/-- `header(field)`: empty when there is no such field. -/
def header (req : HttpRequest) (field : Bytes) : Bytes :=
  match req.headers[field]? with
  | some value => value
  | none => []

theorem header_eq_getD (req : HttpRequest) (field : Bytes) :
    req.header field = (req.headers[field]?).getD [] := by
  rw [header]
  cases req.headers[field]? <;> rfl

/-! ### What the setters leave alone -/

theorem setMethod_fresh (m : Bytes) :
    ∃ ok req, ({} : HttpRequest).setMethod m = some (ok, req) := by
  rw [setMethod, if_pos rfl]
  exact ⟨_, _, rfl⟩

theorem setMethod_text {req : HttpRequest} (h : req.method = .kInvalid) {m : Method}
    (hm : m ≠ .kInvalid) : req.setMethod m.text = some (true, { req with method := m }) := by
  rw [setMethod, if_pos h]
  cases m with
  | kInvalid => exact absurd rfl hm
  | kGet => rfl
  | kPost => rfl
  | kHead => rfl
  | kPut => rfl
  | kDelete => rfl

end HttpRequest

end Dummyload
