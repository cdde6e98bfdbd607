import Dummyload.Http.HttpServer
import Dummyload.Http.ResponseText

/-!
# Dummyload.Load.Percent

The HTTP endpoint of `examples/dummyload/dummyload.cpp`: `onRequest`, the callback
that `main` gives to the server, and `setGlobalPercent`, which it calls on
`/percent`. The state of the application is `g_percent`; only this callback writes
it, under `g_percent_mutex`, so a request acts on it in one step.

A reply is judged by what the client reads of the bytes sent (`readResponse`).
-/

namespace Dummyload

/-! ### Signed decimals -/

/-- The decimal representation of an `int` (`std::to_string`). -/
def intToDecimal : Int → Bytes
  | .ofNat n => toDecimal n
  | .negSucc n => chr '-' :: toDecimal (n + 1)

/-- The text is a decimal integer: digits, with or without a sign. -/
inductive IsInteger : Bytes → Int → Prop
  | unsigned {ds : Bytes} (hne : ds ≠ []) (hds : ∀ d ∈ ds, isdigit d = true) :
      IsInteger ds (decimal ds)
  | plus {ds : Bytes} (hne : ds ≠ []) (hds : ∀ d ∈ ds, isdigit d = true) :
      IsInteger (chr '+' :: ds) (decimal ds)
  | minus {ds : Bytes} (hne : ds ≠ []) (hds : ∀ d ∈ ds, isdigit d = true) :
      IsInteger (chr '-' :: ds) (-(decimal ds : Int))

/-- `strtol` reads a decimal integer to its end. -/
theorem strtol_of_isInteger {text : Bytes} {p : Int} (h : IsInteger text p) :
    strtol text = max LONG_MIN (min LONG_MAX p) := by
  cases h with
  | unsigned hne hds =>
      rw [strtol_digits hne hds, max_eq_right]
      simp only [LONG_MIN, LONG_MAX]
      omega
  | @plus ds hne hds =>
      have htake : ds.takeWhile isdigit = ds := List.takeWhile_eq_self_iff.mpr hds
      have hread : strtol (chr '+' :: ds) = min LONG_MAX (decimal (ds.takeWhile isdigit) : Int) :=
        rfl
      rw [hread, htake, max_eq_right]
      simp only [LONG_MIN, LONG_MAX]
      omega
  | @minus ds hne hds =>
      have htake : ds.takeWhile isdigit = ds := List.takeWhile_eq_self_iff.mpr hds
      have hread : strtol (chr '-' :: ds) =
          max LONG_MIN (-(decimal (ds.takeWhile isdigit) : Int)) := rfl
      rw [hread, htake, min_eq_right]
      simp only [LONG_MAX]
      omega

theorem atoi_of_isInteger {text : Bytes} {p : Int} (h : IsInteger text p) (hlo : -2 ^ 31 ≤ p)
    (hhi : p < 2 ^ 31) : atoi text = p := by
  have hclamp : max LONG_MIN (min LONG_MAX p) = p := by
    simp only [LONG_MIN, LONG_MAX]
    omega
  rw [atoi, strtol_of_isInteger h, hclamp]
  exact toInt_of_range hlo hhi

theorem atoi_range (text : Bytes) : -2 ^ 31 ≤ atoi text ∧ atoi text < 2 ^ 31 := by
  have hlo := Int.le_bmod (x := strtol text) (m := 2 ^ 32) (by norm_num)
  have hhi := Int.bmod_lt (x := strtol text) (m := 2 ^ 32) (by norm_num)
  rw [atoi, toInt]
  omega

/-- An `int` has at most eleven characters. -/
theorem length_intToDecimal {n : Int} (hlo : -2 ^ 31 ≤ n) (hhi : n < 2 ^ 31) :
    (intToDecimal n).length ≤ 11 := by
  cases n with
  | ofNat n =>
      rw [Int.ofNat_eq_natCast] at hhi
      have hdigits := (length_toDecimal_le_iff (n := n) (k := 10) (by norm_num)).mpr (by omega)
      rw [intToDecimal]
      omega
  | negSucc n =>
      have hdigits := (length_toDecimal_le_iff (n := n + 1) (k := 10) (by norm_num)).mpr (by omega)
      rw [intToDecimal, List.length_cons]
      omega

namespace Load

/-! ### The callback -/

/-- `setGlobalPercent(percent)`. -/
def setGlobalPercent (gPercent percent : Int) : Int :=
  if percent ≥ 0 ∧ percent ≤ 100 then percent else gPercent

/-- `onRequest(req, resp)`. -/
def onRequest : HttpCallback Int := fun gPercent req resp =>
  if req.path = ascii "/" then
    (gPercent,
      { resp with
        statusCode := .k200Ok
        statusMessage := ascii "OK"
        headers := resp.headers.insert (ascii "Content-Type") (ascii "text/html")
        body := ascii "this is dummyload" })
  else if req.path = ascii "/percent" ∧ req.query.length > 1 then
    let p := req.query.drop 1
    let percent := atoi p
    -- No `setStatusCode` here: the code stays what the constructor left.
    (setGlobalPercent gPercent percent,
      { resp with
        statusMessage := ascii "OK"
        headers := resp.headers.insert (ascii "Content-Type") (ascii "text/html")
        body := ascii "ok: " ++ intToDecimal percent })
  else
    (gPercent,
      { resp with
        statusCode := .k404NotFound
        statusMessage := ascii "Not Found"
        closeConnection := true })

variable {gPercent : Int} {req : HttpRequest}

/-- `g_percent` is a percentage after every request if it was one before. -/
theorem answered_mem (h : gPercent ∈ Set.Icc 0 100) :
    answered onRequest gPercent req ∈ Set.Icc 0 100 := by
  unfold answered onRequest setGlobalPercent
  dsimp only
  split
  · exact h
  · split
    · split
      · rename_i hrange; exact hrange
      · exact h
    · exact h

/-- One read keeps `g_percent` a percentage. -/
theorem delivers_mem {conn conn' : HttpConnection Int} {chunk : Bytes} (hne : chunk ≠ [])
    (h : Delivers onRequest conn chunk conn') (hmem : conn.app ∈ Set.Icc 0 100) :
    conn'.app ∈ Set.Icc 0 100 := by
  obtain ⟨buf, ok, context, buf', -, -, -, rfl⟩ := (delivers_iff onRequest hne).mp h
  rw [afterParse]
  split
  · exact answered_mem hmem
  · exact hmem

/-- So does any number of them. -/
theorem deliversAll_mem {conn conn' : HttpConnection Int} {chunks : List Bytes}
    (hne : ∀ chunk ∈ chunks, chunk ≠ []) (h : DeliversAll onRequest conn chunks conn')
    (hmem : conn.app ∈ Set.Icc 0 100) : conn'.app ∈ Set.Icc 0 100 := by
  induction chunks generalizing conn with
  | nil =>
      obtain rfl : conn = conn' := h
      exact hmem
  | cons chunk chunks ih =>
      obtain ⟨hchunk, hchunks⟩ := List.forall_mem_cons.mp hne
      obtain ⟨conn₁, h₁, hrest⟩ := h
      exact ih hchunks hrest (delivers_mem hchunk h₁ hmem)

/-! ### All or nothing -/

/-- The bytes that answer the request. -/
def message (gPercent : Int) (req : HttpRequest) : Bytes :=
  (sent (answer onRequest gPercent req)).flatten

/-- What the client reads in them. -/
def reply (gPercent : Int) (req : HttpRequest) : Option Reply :=
  (readResponse id (message gPercent req)).map Prod.fst

/-- The query is a question mark and a decimal integer `p` from 0 to 100. -/
def NamesPercent (query : Bytes) (p : Int) : Prop :=
  ∃ text, query = chr '?' :: text ∧ IsInteger text p ∧ 0 ≤ p ∧ p ≤ 100

/-- `g_percent` becomes `p`, and the client reads `ok: p`. -/
def SetsAndReports (gPercent : Int) (req : HttpRequest) (p : Int) : Prop :=
  answered onRequest gPercent req = p ∧
    ∃ r, reply gPercent req = some r ∧ r.body = ascii "ok: " ++ intToDecimal p

/-- `g_percent` is unchanged, and the client does not read `ok`. -/
def LeavesAlone (gPercent : Int) (req : HttpRequest) : Prop :=
  answered onRequest gPercent req = gPercent ∧
    ∀ r, reply gPercent req = some r → ¬ ascii "ok" <+: r.body

/-- The status line carries a code of three digits. -/
def ThreeDigits (w : Bytes) : Prop :=
  ∃ code : Bytes, code.length = 3 ∧ (∀ d ∈ code, isdigit d = true) ∧
    ascii "HTTP/1.1 " ++ (code ++ [32]) <+: w

/-- Either the percentage that the query names is set and reported with a 200, or
nothing changes and nothing is reported; the status line is well formed either way. -/
structure AllOrNothing (gPercent : Int) (req : HttpRequest) : Prop where
  outcome :
    (∃ p, NamesPercent req.query p ∧ SetsAndReports gPercent req p ∧
      ∃ r, reply gPercent req = some r ∧ r.statusCode = 200) ∨
    LeavesAlone gPercent req
  status : ThreeDigits (message gPercent req)

/-! ### The reply on `/percent` -/

/-- The only field it has of its own. -/
def htmlHeaders : HeaderMap := (∅ : HeaderMap).insert (ascii "Content-Type") (ascii "text/html")

/-- The response that a request for `/percent` gets. -/
def percentResponse (req : HttpRequest) : HttpResponse where
  closeConnection := wantsClose req
  statusMessage := ascii "OK"
  headers := htmlHeaders
  body := ascii "ok: " ++ intToDecimal (atoi (req.query.drop 1))

theorem framable_percentResponse (req : HttpRequest) : (percentResponse req).Framable id where
  message := (by decide : SingleLine (ascii "OK"))
  name := by
    have hname : ∀ field ∈ htmlHeaders.toList,
        field.1 ≠ [] ∧ chr ':' ∉ field.1 ∧ SingleLine field.1 := by decide +kernel
    exact hname
  value := by
    have hvalue : ∀ field ∈ htmlHeaders.toList, SingleLine field.2 := by decide +kernel
    exact hvalue
  custom := by
    have hcustom : ∀ field ∈ htmlHeaders.toList, isFraming id field = false := by decide +kernel
    exact hcustom
  body := by
    obtain ⟨hlo, hhi⟩ := atoi_range (req.query.drop 1)
    have hlength := length_intToDecimal hlo hhi
    have hok : (ascii "ok: ").length = 4 := by decide
    rw [percentResponse, List.length_append, hok]
    omega

section Percent

variable (hpath : req.path = ascii "/percent") (hquery : 1 < req.query.length)
include hpath hquery

theorem onRequest_percent :
    onRequest gPercent req { closeConnection := wantsClose req } =
      (setGlobalPercent gPercent (atoi (req.query.drop 1)), percentResponse req) := by
  have hroot : req.path ≠ ascii "/" := by
    rw [hpath]
    decide
  rw [onRequest, if_neg hroot, if_pos ⟨hpath, hquery⟩]
  rfl

theorem answered_percent :
    answered onRequest gPercent req = setGlobalPercent gPercent (atoi (req.query.drop 1)) := by
  rw [answered, onRequest_percent hpath hquery]

theorem message_percent : message gPercent req = (percentResponse req).bytes := by
  rw [message, answer, onRequest_percent hpath hquery]
  cases (percentResponse req).closeConnection with
  | true => simp [sent]
  | false => simp [sent]

theorem reply_percent : reply gPercent req = some (percentResponse req).reply := by
  have hread := readResponse_bytes (by decide) (framable_percentResponse req) [] fun _ => rfl
  rw [List.append_nil] at hread
  rw [reply, message_percent hpath hquery, hread, Option.map_some]

/-- The status code in the reply has one digit: `0`. -/
theorem not_threeDigits : ¬ ThreeDigits (message gPercent req) := by
  rintro ⟨code, hlength, hdigits, hinit⟩
  rw [message_percent hpath hquery, HttpResponse.bytes_eq (framable_percentResponse req).body,
    HttpResponse.statusLine, List.append_assoc, List.append_assoc] at hinit
  have hzero : toDecimal (percentResponse req).statusCode.value = [48] :=
    (by decide : toDecimal HttpStatusCode.kUnknown.value = [48])
  rw [List.prefix_append_right_inj, hzero] at hinit
  obtain ⟨a, b, c, rfl⟩ := List.length_eq_three.mp hlength
  obtain ⟨-, hspace, -⟩ : a = 48 ∧ b = 32 ∧ _ := by
    simpa only [List.cons_append, List.nil_append, List.cons_prefix_cons] using hinit
  have hb : isdigit b = true := hdigits b (by simp)
  rw [hspace] at hb
  exact absurd hb (by decide)

/-- The reply says ok, whatever the query. -/
theorem not_leavesAlone : ¬ LeavesAlone gPercent req := by
  rintro ⟨-, hsilent⟩
  refine hsilent _ (reply_percent hpath hquery) ?_
  have hok : ascii "ok" <+: ascii "ok: " := by decide
  exact hok.trans (List.prefix_append _ _)

/-- A query that names a percentage is obeyed. -/
theorem setsAndReports_of_namesPercent {p : Int} (h : NamesPercent req.query p) :
    SetsAndReports gPercent req p := by
  obtain ⟨text, htext, hinteger, hlo, hhi⟩ := h
  have hatoi : atoi (req.query.drop 1) = p := by
    rw [htext, List.drop_one, List.tail_cons]
    exact atoi_of_isInteger hinteger (by omega) (by omega)
  refine ⟨?_, _, reply_percent hpath hquery, ?_⟩
  · rw [answered_percent hpath hquery, hatoi, setGlobalPercent, if_pos ⟨hlo, hhi⟩]
  · rw [← hatoi]
    rfl

end Percent

/-- `/percent` never is all-or-nothing. But for the status line it would be exactly
where the query names a percentage. -/
theorem percent_never_allOrNothing (hpath : req.path = ascii "/percent")
    (hquery : 1 < req.query.length) :
    ¬ AllOrNothing gPercent req ∧
      ((∃ p, NamesPercent req.query p ∧ SetsAndReports gPercent req p) ∨
          LeavesAlone gPercent req ↔
        ∃ p, NamesPercent req.query p) := by
  refine ⟨fun h => not_threeDigits hpath hquery h.status, ?_, ?_⟩
  · rintro (⟨p, hp, -⟩ | hleaves)
    · exact ⟨p, hp⟩
    · exact absurd hleaves (not_leavesAlone hpath hquery)
  · rintro ⟨p, hp⟩
    exact Or.inl ⟨p, hp, setsAndReports_of_namesPercent hpath hquery hp⟩

/-- `GET /percent?abc HTTP/1.1`. -/
def abcRequest : HttpRequest where
  method := .kGet
  version := .kHttp11
  path := ascii "/percent"
  query := ascii "?abc"

theorem percent_never_allOrNothing_abcRequest :
    ¬ AllOrNothing 2 abcRequest ∧
      ((∃ p, NamesPercent abcRequest.query p ∧ SetsAndReports 2 abcRequest p) ∨
          LeavesAlone 2 abcRequest ↔
        ∃ p, NamesPercent abcRequest.query p) :=
  percent_never_allOrNothing (by decide) (by decide)

theorem percent_not_always_allOrNothing :
    ¬ ∀ (gPercent : Int) (req : HttpRequest), req.path = ascii "/percent" →
      1 < req.query.length → AllOrNothing gPercent req := fun h =>
  have hpath : abcRequest.path = ascii "/percent" := by decide
  have hquery : 1 < abcRequest.query.length := by decide
  not_threeDigits hpath hquery (h 2 abcRequest hpath hquery).status

end Load

end Dummyload
