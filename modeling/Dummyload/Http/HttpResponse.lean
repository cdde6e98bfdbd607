import Dummyload.Buffer
import Dummyload.Http.HttpRequest

/-!
# Dummyload.Http.HttpResponse

`HttpResponse` (`http/HttpResponse.h`, `http/HttpResponse.cpp`) and its
serialisation. The status line and the Content-Length field are formatted into
a 32-byte array by `snprintf`, which cuts them at 31 characters.
-/

namespace Dummyload

inductive HttpStatusCode
  | kUnknown | k200Ok | k301MovedPermanently | k400BadRequest | k404NotFound
  deriving DecidableEq, Repr

def HttpStatusCode.value : HttpStatusCode → Nat
  | .kUnknown => 0
  | .k200Ok => 200
  | .k301MovedPermanently => 301
  | .k400BadRequest => 400
  | .k404NotFound => 404

structure HttpResponse where
  closeConnection : Bool
  statusCode : HttpStatusCode := .kUnknown
  statusMessage : Bytes := []
  headers : HeaderMap := ∅
  body : Bytes := []

/-- `snprintf` into `char buf[32]`: the terminator takes the last place. -/
def snprintf32 (s : Bytes) : Bytes := s.take 31

namespace HttpResponse

/-- The strings `appendToBuffer` appends, in order. -/
def pieces (resp : HttpResponse) : List Bytes :=
  [snprintf32 (ascii "HTTP/1.1 " ++ toDecimal resp.statusCode.value ++ ascii " "),
    resp.statusMessage, ascii "\r\n"] ++
  (if resp.closeConnection then [ascii "Connection: close\r\n"]
    else [snprintf32 (ascii "Content-Length: " ++ toDecimal resp.body.length ++ ascii "\r\n"),
      ascii "Connection: Keep-Alive\r\n"]) ++
  resp.headers.toList.flatMap (fun field => [field.1, ascii ": ", field.2, ascii "\r\n"]) ++
  [ascii "\r\n", resp.body]

/-- `appendToBuffer(output)`. -/
def appendToBuffer (resp : HttpResponse) (output : Buffer) : Option Buffer :=
  resp.pieces.foldlM Buffer.append output

/-- The serialised response. -/
def bytes (resp : HttpResponse) : Bytes := resp.pieces.flatten

theorem appendToBuffer_eq_some (resp : HttpResponse) (output : Buffer) :
    ∃ output', resp.appendToBuffer output = some output' ∧
      output'.readable = output.readable ++ resp.bytes := by
  rw [appendToBuffer, bytes]
  generalize resp.pieces = ps
  induction ps generalizing output with
  | nil => exact ⟨output, rfl, by simp⟩
  | cons p ps ih =>
      obtain ⟨b₁, h₁, hread₁⟩ := output.append_eq_some p
      obtain ⟨b₂, h₂, hread₂⟩ := ih b₁
      refine ⟨b₂, by simp [h₁, h₂], ?_⟩
      rw [hread₂, hread₁, List.flatten_cons, List.append_assoc]

end HttpResponse

end Dummyload
