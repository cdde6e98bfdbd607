import Dummyload.Http.Pipelining

/-!
# Dummyload.Http.Chunking

One request that arrives in several reads. Each read is parsed by a new
`HttpContext`, so whatever a read completes is forgotten by the next one: the
first line that is complete after a cut is taken for the request line again. The
answer is that of a single read exactly when this does no harm
(`sameAnswer_iff`): every cut falls into a line of the header section that can be
read as a request line, and the lines from the last cut on say the same request.
A cut within the request line is of this kind, a cut anywhere else hardly ever.
-/

namespace Dummyload

open Lib.Lines (Clear unlines Unfinished)
open HttpContext

variable {α : Type*} (httpCallback : HttpCallback α)

/-! ### Where the cuts fall -/

/-- The lines from the one that byte `b` is in; none when `b` is past the lines. -/
def linesFrom : List Bytes → Nat → List Bytes
  | [], _ => []
  | l :: ls, b => if b < l.length + 2 then l :: ls else linesFrom ls (b - (l.length + 2))

/-- The offsets at which a chunk other than the first starts, the first starting
at `start`. -/
def cuts (start : Nat) : List Bytes → List Nat
  | [] => []
  | [_] => []
  | c :: c' :: cs => (start + c.length) :: cuts (start + c.length) (c' :: cs)

/-- The first of the lines can be read as a request line. -/
def Accepted : List Bytes → Prop
  | [] => False
  | l :: _ => (processRequestLine {} l).map Prod.fst = some true

/-- The lines of a request: the request line, the header fields, the empty line. -/
def RequestText.lines (r : RequestText) : List Bytes :=
  r.requestLine :: (r.headers.map HeaderText.line ++ [[]])

/-- Read as a header section, the lines say the request `r`. -/
def Rereads (r : RequestText) : List Bytes → Prop
  | [] => False
  | l :: ls => processRequestLine {} l = some (true, r.lineRequest) ∧
      (setHeaderLines {} ls.dropLast).headers = headerMap r.headers

/-- Every cut is in a line that can be read as a request line, and the lines from
the last cut on say the whole request. -/
def HarmlessCuts (r : RequestText) (chunks : List Bytes) : Prop :=
  (∀ b ∈ cuts 0 chunks, Accepted (linesFrom r.lines b)) ∧
    Rereads r (((cuts 0 chunks).map (linesFrom r.lines)).getLastD r.lines)

instance (ls : List Bytes) : Decidable (Accepted ls) := by
  cases ls <;> unfold Accepted <;> infer_instance

theorem linesFrom_append (done ls : List Bytes) (n : Nat) :
    linesFrom (done ++ ls) ((unlines kCRLF done).length + n) = linesFrom ls n := by
  induction done with
  | nil => simp
  | cons l done ih =>
      have hlen : (unlines kCRLF (l :: done)).length =
          l.length + 2 + (unlines kCRLF done).length := by
        rw [Lib.Lines.unlines_cons, List.length_append, List.length_append]
        rfl
      rw [List.cons_append, linesFrom, hlen, if_neg (by omega), ← ih]
      congr 1
      omega

theorem linesFrom_unfinished {line part : Bytes} {later : List Bytes}
    (h : Unfinished kCRLF line part) : linesFrom (line :: later) part.length = line :: later := by
  have hlt : part.length < line.length + 2 := h.lt
  rw [linesFrom, if_pos hlt]

theorem cuts_add (k n : Nat) (cs : List Bytes) : cuts (k + n) cs = (cuts n cs).map (k + ·) := by
  induction cs generalizing n with
  | nil => rfl
  | cons c cs ih =>
      cases cs with
      | nil => rfl
      | cons c' cs => rw [cuts, cuts, List.map_cons, Nat.add_assoc, ih]

theorem render_eq_unlines (r : RequestText) : r.render = unlines kCRLF r.lines ++ r.body := by
  simp [RequestText.render, RequestText.lines]

/-! ### The lines that are left -/

section Left

variable {r : RequestText} {l : Bytes} {ls : List Bytes}

theorem clear_of_mem_lines (h : l ∈ r.lines) : Clear kCRLF l := by
  rw [RequestText.lines, List.mem_cons, List.mem_append, List.mem_map, List.mem_singleton] at h
  rcases h with rfl | ⟨h, -, rfl⟩ | rfl
  · exact r.clear_requestLine
  · exact h.clear_line
  · decide

/-- An empty line is no request line. -/
theorem not_accepted_nil : ¬ Accepted [[]] := by decide

/-- A request line that is left is followed by header lines and the empty line. -/
theorem left_of_accepted (hls : l :: ls <:+ r.lines) (hacc : Accepted (l :: ls)) :
    ∃ hs, ls = hs ++ [[]] ∧ ∀ h ∈ hs, hasColon h = true ∧ Clear kCRLF h := by
  have htail : ls <:+ r.headers.map HeaderText.line ++ [[]] := by
    rw [RequestText.lines, List.suffix_cons_iff] at hls
    rcases hls with heq | hls
    · rw [(List.cons.inj heq).2]
    · exact (List.suffix_cons l ls).trans hls
  rw [List.suffix_concat_iff] at htail
  rcases htail with rfl | ⟨hs, rfl, hhs⟩
  · -- `l` itself is the last line
    have hl : l = [] := by
      obtain ⟨done, hdone⟩ := hls
      have hlast : done ++ [l] = (r.requestLine :: r.headers.map HeaderText.line) ++ [[]] := hdone
      simpa using (List.append_inj' hlast rfl).2
    subst hl
    exact absurd hacc not_accepted_nil
  · refine ⟨hs, rfl, fun h hmem => ?_⟩
    obtain ⟨t, -, rfl⟩ := List.mem_map.mp (hhs.subset hmem)
    exact ⟨t.hasColon_line, t.clear_line⟩

/-- What is complete between a request line and a later line are header lines. -/
theorem headers_of_left {done later : List Bytes} {line : Bytes}
    (hls : l :: (done ++ line :: later) <:+ r.lines)
    (hacc : Accepted (l :: (done ++ line :: later))) :
    ∀ h ∈ done, hasColon h = true ∧ Clear kCRLF h := by
  obtain ⟨hs, hsplit, hhs⟩ := left_of_accepted hls hacc
  have hdrop : hs = done ++ (line :: later).dropLast := by
    rw [← List.dropLast_append_of_ne_nil (List.cons_ne_nil line later), hsplit,
      List.dropLast_concat]
  intro h hmem
  exact hhs h (by rw [hdrop]; exact List.mem_append_left _ hmem)

end Left

/-! ### One read -/

section OneRead

variable {conn conn' : HttpConnection α} {chunk line part rest : Bytes} {req : HttpRequest}
  {hs : List Bytes}

/-- A read that completes no line changes the buffer only. -/
theorem delivers_noLine (hne : chunk ≠ [])
    (hno : ¬ kCRLF <:+: conn.inputBuffer.readable ++ chunk) :
    ∃ buf, buf.readable = conn.inputBuffer.readable ++ chunk ∧
      ∀ conn', Delivers httpCallback conn chunk conn' ↔
        conn' = { conn with inputBuffer := buf } :=
  delivers_of_returns httpCallback hne fun buf hbuf => ⟨buf, returns_noLine (by rwa [hbuf]), hbuf⟩

/-- A read that ends within the header section: the lines it completes are gone. -/
theorem delivers_partial (hne : chunk ≠ [])
    (h : PartialHead (conn.inputBuffer.readable ++ chunk) line req hs part) :
    ∃ buf, buf.readable = part ∧ ∀ conn', Delivers httpCallback conn chunk conn' ↔
      conn' = { conn with inputBuffer := buf } :=
  delivers_of_returns httpCallback hne fun _ hbuf => returns_partial (by rwa [hbuf])

/-- A read on a first line that is no request line: 400, and the line stays. -/
theorem delivers_rejected (hne : chunk ≠ [])
    (h : RejectedLine (conn.inputBuffer.readable ++ chunk) line rest) :
    ∃ buf, buf.readable = conn.inputBuffer.readable ++ chunk ∧
      ∀ conn', Delivers httpCallback conn chunk conn' ↔
        conn' = { conn with
          inputBuffer := buf
          actions := conn.actions ++ [.send badRequest, .shutdown] } := by
  obtain ⟨req, hreq⟩ := h.rejected
  have hparse : ∀ buf : Buffer, buf.readable = conn.inputBuffer.readable ++ chunk →
      ∃ buf', Returns {} buf false ⟨.kExpectRequestLine, req⟩ buf' ∧
        buf'.readable = conn.inputBuffer.readable ++ chunk := by
    intro buf hbuf
    rw [← hbuf] at h
    exact ⟨buf, returns_rejected h.clear h.split hreq, hbuf⟩
  exact delivers_of_returns httpCallback hne hparse

/-- A read that completes the header section and the body it announces. -/
theorem delivers_complete (hne : chunk ≠ [])
    (h : HeadSection (conn.inputBuffer.readable ++ chunk) line req hs [] rest)
    (hlen : bodyTaken (setHeaderLines req hs) ≤ rest.length) :
    ∃ buf, ∀ conn', Delivers httpCallback conn chunk conn' ↔
      conn' =
        let req := { setHeaderLines req hs with
          body := rest.take (bodyTaken (setHeaderLines req hs)) }
        ⟨buf, answered httpCallback conn.app req,
          conn.actions ++ answer httpCallback conn.app req⟩ := by
  obtain ⟨buf, -, hiff⟩ := delivers_of_returns httpCallback hne
    fun _ hbuf => returns_complete (by rwa [hbuf]) hlen
  exact ⟨buf, hiff⟩

/-- The actions of a connection only grow. -/
theorem actions_delivers (hne : chunk ≠ []) (h : Delivers httpCallback conn chunk conn') :
    ∃ as, conn'.actions = conn.actions ++ as := by
  obtain ⟨buf, ok, context, buf', -, -, -, rfl⟩ := (delivers_iff httpCallback hne).mp h
  exact ⟨_, (actions_afterParse httpCallback conn ok context buf').trans (List.append_assoc _ _ _)⟩

theorem actions_deliversAll {chunks : List Bytes} (hne : ∀ c ∈ chunks, c ≠ [])
    (h : DeliversAll httpCallback conn chunks conn') :
    ∃ as, conn'.actions = conn.actions ++ as := by
  induction chunks generalizing conn with
  | nil =>
      obtain rfl : conn = conn' := h
      exact ⟨[], (List.append_nil _).symm⟩
  | cons c chunks ih =>
      obtain ⟨hc, hne⟩ := List.forall_mem_cons.mp hne
      obtain ⟨conn₁, h₁, h⟩ := h
      obtain ⟨as, has⟩ := actions_delivers httpCallback hc h₁
      obtain ⟨bs, hbs⟩ := ih hne h
      exact ⟨as ++ bs, by rw [hbs, has, List.append_assoc]⟩

/-- A rejected first line stays, and is rejected by every later read as well. -/
theorem deliversAll_rejected {chunks : List Bytes} (hne : ∀ c ∈ chunk :: chunks, c ≠ [])
    (hrej : RejectedLine (conn.inputBuffer.readable ++ chunk) line rest) :
    ∃ buf, ∀ conn', DeliversAll httpCallback conn (chunk :: chunks) conn' ↔
      conn' = { conn with
        inputBuffer := buf
        actions := conn.actions ++
          (List.replicate (chunks.length + 1) [.send badRequest, .shutdown]).flatten } := by
  induction chunks generalizing conn chunk rest with
  | nil =>
      obtain ⟨buf, -, hiff⟩ := delivers_rejected httpCallback (hne _ (by simp)) hrej
      refine ⟨buf, fun conn' => Iff.trans ?_ (hiff conn')⟩
      constructor
      · intro hex
        obtain ⟨conn₁, h₁, rfl⟩ := hex
        exact h₁
      · exact fun h₁ => ⟨conn', h₁, rfl⟩
  | cons c chunks ih =>
      obtain ⟨hchunk, hne⟩ := List.forall_mem_cons.mp hne
      obtain ⟨buf, hbuf, hiff⟩ := delivers_rejected httpCallback hchunk hrej
      have hrej' : RejectedLine (({ conn with
          inputBuffer := buf
          actions := conn.actions ++ [.send badRequest, .shutdown] } :
            HttpConnection α).inputBuffer.readable ++ c) line (rest ++ c) := by
        refine ⟨hrej.clear, hrej.rejected, ?_⟩
        show buf.readable ++ c = _
        rw [hbuf, hrej.split, List.append_assoc]
      obtain ⟨buf', hiff'⟩ := ih hne hrej'
      refine ⟨buf', fun conn' => ?_⟩
      rw [List.length_cons, List.replicate_succ, List.flatten_cons, ← List.append_assoc]
      refine Iff.trans ?_ (hiff' conn')
      constructor
      · intro hex
        obtain ⟨conn₁, h₁, h⟩ := hex
        obtain rfl := (hiff _).mp h₁
        exact h
      · exact fun h => ⟨_, (hiff _).mpr rfl, h⟩

/-- No request is answered any more. -/
theorem callbacks_rejected {chunks : List Bytes} (hne : ∀ c ∈ chunk :: chunks, c ≠ [])
    (hrej : RejectedLine (conn.inputBuffer.readable ++ chunk) line rest)
    (h : DeliversAll httpCallback conn (chunk :: chunks) conn') :
    ∃ as, conn'.actions = conn.actions ++ as ∧ callbacks as = [] := by
  obtain ⟨buf, hiff⟩ := deliversAll_rejected httpCallback hne hrej
  obtain rfl := (hiff conn').mp h
  refine ⟨_, rfl, List.filterMap_eq_nil_iff.mpr fun a ha => ?_⟩
  obtain ⟨as, has, ha⟩ := List.mem_flatten.mp ha
  obtain rfl := List.eq_of_mem_replicate has
  rcases List.mem_pair.mp ha with rfl | rfl
  · rfl
  · rfl

end OneRead

/-! ### All reads -/

/-- The reads are handled to their end with exactly one callback, for `r`, and
the bytes of its answer sent. -/
def AnsweredOnce (conn : HttpConnection α) (chunks : List Bytes)
    (r : RequestText) : Prop :=
  ∃ conn' as, DeliversAll httpCallback conn chunks conn' ∧ conn'.actions = conn.actions ++ as ∧
    callbacks as = [r.toRequest] ∧
    (sent as).flatten = (sent (answer httpCallback conn.app r.toRequest)).flatten

/-- What `HarmlessCuts` asks when `ls` are the lines that are left and the next
chunk starts at offset `start` of these. -/
def HarmlessFrom (r : RequestText) (ls : List Bytes) (start : Nat) (chunks : List Bytes) : Prop :=
  Accepted ls ∧ (∀ b ∈ cuts start chunks, Accepted (linesFrom ls b)) ∧
    Rereads r (((cuts start chunks).map (linesFrom ls)).getLastD ls)

/-- A cut after the lines `done`, within the first of the lines `ls`. -/
theorem harmlessFrom_cons {r : RequestText} {done ls : List Bytes} {start k : Nat}
    {c c' : Bytes} {cs : List Bytes} (hcut : start + c.length = (unlines kCRLF done).length + k)
    (hin : linesFrom ls k = ls) :
    HarmlessFrom r (done ++ ls) start (c :: c' :: cs) ↔
      Accepted (done ++ ls) ∧ HarmlessFrom r ls k (c' :: cs) := by
  have hfrom : (linesFrom (done ++ ls) ∘ ((unlines kCRLF done).length + ·)) = linesFrom ls :=
    funext fun b => linesFrom_append done ls b
  have hcuts : (cuts start (c :: c' :: cs)).map (linesFrom (done ++ ls)) =
      ls :: (cuts k (c' :: cs)).map (linesFrom ls) := by
    rw [cuts, hcut, cuts_add, List.map_cons, List.map_map, hfrom, linesFrom_append, hin]
  rw [HarmlessFrom, HarmlessFrom, ← List.forall_mem_map (P := Accepted), hcuts,
    List.forall_mem_cons, List.forall_mem_map, List.getLastD_cons, and_assoc]

section AllReads

variable {r : RequestText} {conn : HttpConnection α} {chunk : Bytes} {chunks : List Bytes}
  {l : Bytes} {ls : List Bytes}

/-- A read that changes the buffer only. -/
theorem answeredOnce_cons_iff {buf : Buffer}
    (h : ∀ conn', Delivers httpCallback conn chunk conn' ↔
      conn' = { conn with inputBuffer := buf }) :
    AnsweredOnce httpCallback conn (chunk :: chunks) r ↔
      AnsweredOnce httpCallback { conn with inputBuffer := buf } chunks r := by
  constructor
  · intro hex
    obtain ⟨conn', as, ⟨conn₁, h₁, hall⟩, hrest⟩ := hex
    obtain rfl := (h conn₁).mp h₁
    exact ⟨conn', as, hall, hrest⟩
  · intro hex
    obtain ⟨conn', as, hall, hrest⟩ := hex
    exact ⟨conn', as, ⟨_, (h _).mpr rfl, hall⟩, hrest⟩

theorem not_answeredOnce_of_rejected {line rest : Bytes} (hne : ∀ c ∈ chunk :: chunks, c ≠ [])
    (hrej : RejectedLine (conn.inputBuffer.readable ++ chunk) line rest) :
    ¬ AnsweredOnce httpCallback conn (chunk :: chunks) r := by
  intro hex
  obtain ⟨conn', as, hall, has, hcalls, -⟩ := hex
  obtain ⟨bs, hbs, hnone⟩ := callbacks_rejected httpCallback hne hrej hall
  rw [List.append_cancel_left (has.symm.trans hbs), hnone] at hcalls
  cases hcalls

/-- A read that completes a header section answers it with the bytes of the body
it finds. -/
theorem answeredOnce_complete {line req hs rest} (hne : ∀ c ∈ chunk :: chunks, c ≠ [])
    (h : HeadSection (conn.inputBuffer.readable ++ chunk) line req hs [] rest)
    (hans : AnsweredOnce httpCallback conn (chunk :: chunks) r) :
    bodyTaken (setHeaderLines req hs) ≤ rest.length ∧
      { setHeaderLines req hs with body := rest.take (bodyTaken (setHeaderLines req hs)) } =
        r.toRequest := by
  obtain ⟨hchunk, hne⟩ := List.forall_mem_cons.mp hne
  obtain ⟨conn', as, ⟨conn₁, h₁, hall⟩, has, hcalls, -⟩ := hans
  have hlen : bodyTaken (setHeaderLines req hs) ≤ rest.length := by
    by_contra hlt
    exact not_delivers_of_spins httpCallback hchunk
      (fun buf hbuf => spins_bodyPending (by rwa [hbuf]) (Nat.not_le.mp hlt)) h₁
  obtain ⟨buf, hiff⟩ := delivers_complete httpCallback hchunk h hlen
  obtain rfl := (hiff _).mp h₁
  obtain ⟨bs, hbs⟩ := actions_deliversAll httpCallback hne hall
  refine ⟨hlen, ?_⟩
  rw [hbs, List.append_assoc] at has
  rw [← List.append_cancel_left has, callbacks_append, callbacks_answer] at hcalls
  exact (List.cons.inj hcalls).1

/-- A cut within the body: the answer is given too early, or never. -/
theorem not_answeredOnce_of_body {q x : Bytes} (hne : ∀ c ∈ chunk :: chunks, c ≠ [])
    (hls : l :: ls <:+ r.lines)
    (hw : conn.inputBuffer.readable ++ chunk = unlines kCRLF (l :: ls) ++ q)
    (hq : q ++ x = r.body) (hx : x ≠ []) :
    ¬ AnsweredOnce httpCallback conn (chunk :: chunks) r := by
  intro hans
  have hl : Clear kCRLF l := clear_of_mem_lines (hls.subset (by simp))
  rw [Lib.Lines.unlines_cons, List.append_assoc] at hw
  obtain ⟨ok, req, hreq⟩ := processRequestLine_fresh l
  cases ok with
  | false => exact not_answeredOnce_of_rejected httpCallback hne ⟨hl, ⟨req, hreq⟩, hw⟩ hans
  | true =>
      obtain ⟨hs, rfl, hhs⟩ := left_of_accepted hls (by simp [Accepted, hreq])
      have hhead : HeadSection (conn.inputBuffer.readable ++ chunk) l req hs [] q :=
        ⟨hl, hreq, hhs, rfl, by decide, by simpa using hw⟩
      obtain ⟨-, heq⟩ := answeredOnce_complete httpCallback hne hhead hans
      have hbody : q.take (bodyTaken (setHeaderLines req hs)) = q ++ x := by
        rw [hq]
        exact congrArg HttpRequest.body heq
      have hlen := congrArg List.length hbody
      have hpos := List.length_pos_of_ne_nil hx
      simp only [List.length_take, List.length_append] at hlen
      omega

/-- The request that a header section and its body say, as the sender means it. -/
theorem says_iff_rereads {req : HttpRequest} {hs : List Bytes}
    (hreq : processRequestLine {} l = some (true, req)) :
    { setHeaderLines req hs with body := r.body } = r.toRequest ↔
      Rereads r (l :: (hs ++ [[]])) := by
  have hframe := processRequestLine_frame hreq
  rw [setHeaderLines_eq, hframe.1, Rereads, hreq, List.dropLast_concat]
  constructor
  · intro heq
    refine ⟨?_, congrArg HttpRequest.headers heq⟩
    have hline : req = { r.toRequest with headers := req.headers, body := req.body } := by
      rw [← heq]
    rw [hline, hframe.1, hframe.2]
    rfl
  · intro hand
    obtain ⟨hline, hheaders⟩ := hand
    simp only [Option.some.injEq, Prod.mk.injEq, true_and] at hline
    rw [hline, RequestText.toRequest, ← hheaders]
    rfl

/-- The last read, with all of the body. -/
theorem answeredOnce_last (hchunk : chunk ≠ []) (hls : l :: ls <:+ r.lines)
    (hw : conn.inputBuffer.readable ++ chunk = unlines kCRLF (l :: ls) ++ r.body) :
    AnsweredOnce httpCallback conn [chunk] r ↔ Accepted (l :: ls) ∧ Rereads r (l :: ls) := by
  have hne : ∀ c ∈ [chunk], c ≠ [] := by simpa using hchunk
  have hl : Clear kCRLF l := clear_of_mem_lines (hls.subset (by simp))
  rw [Lib.Lines.unlines_cons, List.append_assoc] at hw
  obtain ⟨ok, req, hreq⟩ := processRequestLine_fresh l
  cases ok with
  | false =>
      refine iff_of_false (not_answeredOnce_of_rejected httpCallback hne ⟨hl, ⟨req, hreq⟩, hw⟩) ?_
      simp [Accepted, hreq]
  | true =>
      have hacc : Accepted (l :: ls) := by simp [Accepted, hreq]
      obtain ⟨hs, rfl, hhs⟩ := left_of_accepted hls hacc
      have hhead : HeadSection (conn.inputBuffer.readable ++ chunk) l req hs [] r.body :=
        ⟨hl, hreq, hhs, rfl, by decide, by simpa using hw⟩
      -- the parser takes as much for the body as the request has
      have htaken : ∀ body, { setHeaderLines req hs with body := body } = r.toRequest →
          bodyTaken (setHeaderLines req hs) = r.body.length := by
        intro body heq
        rw [← r.bodyTaken_toRequest, ← heq]
        exact bodyTaken_congr rfl
      rw [← says_iff_rereads hreq]
      constructor
      · intro hans
        obtain ⟨-, heq⟩ := answeredOnce_complete httpCallback hne hhead hans
        have hlength := htaken _ heq
        rw [hlength, List.take_length] at heq
        exact ⟨hacc, heq⟩
      · intro hand
        obtain ⟨-, heq⟩ := hand
        have hlength := htaken _ heq
        obtain ⟨buf, hiff⟩ := delivers_complete httpCallback hchunk hhead hlength.le
        rw [hlength, List.take_length, heq] at hiff
        exact ⟨_, _, ⟨_, (hiff _).mpr rfl, rfl⟩, rfl, callbacks_answer _ _ _, rfl⟩

/-- **The reads of one request.** From any point within the header section, the
reads that bring the rest answer the request once if and only if their cuts are
harmless. -/
theorem answeredOnce_iff (hne : chunks ≠ []) (hchunks : ∀ c ∈ chunks, c ≠ [])
    (hls : l :: ls <:+ r.lines) (hpart : Unfinished kCRLF l conn.inputBuffer.readable)
    (hw : conn.inputBuffer.readable ++ chunks.flatten = unlines kCRLF (l :: ls) ++ r.body) :
    AnsweredOnce httpCallback conn chunks r ↔
      HarmlessFrom r (l :: ls) conn.inputBuffer.readable.length chunks := by
  induction chunks generalizing conn l ls with
  | nil => exact absurd rfl hne
  | cons c chunks ih =>
      obtain ⟨hc, hcs⟩ := List.forall_mem_cons.mp hchunks
      cases chunks with
      | nil =>
          rw [answeredOnce_last httpCallback hc hls (by simpa using hw), HarmlessFrom]
          simp [cuts]
      | cons c' cs =>
          have hflat : (c' :: cs).flatten ≠ [] := by
            rw [List.flatten_cons]
            exact List.append_ne_nil_of_left_ne_nil (hcs c' (by simp)) _
          rw [List.flatten_cons, ← List.append_assoc] at hw
          have hlen : conn.inputBuffer.readable.length + c.length =
              (conn.inputBuffer.readable ++ c).length := (List.length_append).symm
          rcases Lib.Lines.prefix_unlines hw with
            ⟨done, line, later, part, hsplit, hp, hun⟩ | ⟨q, hp, hq⟩
          · have hls' : line :: later <:+ r.lines :=
              (hsplit ▸ List.suffix_append done (line :: later)).trans hls
            have hclear : Clear kCRLF line := clear_of_mem_lines (hls'.subset (by simp))
            have hrest : part ++ (c' :: cs).flatten = unlines kCRLF (line :: later) ++ r.body := by
              rw [hp, hsplit, Lib.Lines.unlines_append, List.append_assoc, List.append_assoc] at hw
              exact List.append_cancel_left hw
            rw [hsplit, harmlessFrom_cons (k := part.length)
              (by rw [hlen, hp, List.length_append]) (linesFrom_unfinished hun)]
            -- the state in which the next read finds the connection
            have hstep : ∀ buf : Buffer, buf.readable = part →
                (∀ conn', Delivers httpCallback conn c conn' ↔
                  conn' = { conn with inputBuffer := buf }) →
                (AnsweredOnce httpCallback conn (c :: c' :: cs) r ↔
                  HarmlessFrom r (line :: later) part.length (c' :: cs)) := by
              intro buf heq hiff
              obtain rfl := heq
              rw [answeredOnce_cons_iff httpCallback hiff]
              exact ih (by simp) hcs hls' hun hrest
            cases done with
            | nil =>
                rw [Lib.Lines.unlines_nil, List.nil_append] at hp
                have hno : ¬ kCRLF <:+: conn.inputBuffer.readable ++ c := by
                  rw [hp]
                  exact hun.not_infix hclear
                obtain ⟨buf, hread, hiff⟩ := delivers_noLine httpCallback hc hno
                rw [hstep buf (by rw [hread, hp]) hiff, List.nil_append]
                exact ⟨fun h => ⟨h.1, h⟩, And.right⟩
            | cons d done =>
                obtain ⟨rfl, rfl⟩ := List.cons.inj hsplit
                have hl : Clear kCRLF l := clear_of_mem_lines (hls.subset (by simp))
                rw [Lib.Lines.unlines_cons, List.append_assoc] at hp
                obtain ⟨ok, req, hreq⟩ := processRequestLine_fresh l
                cases ok with
                | false =>
                    refine iff_of_false
                      (not_answeredOnce_of_rejected httpCallback hchunks ⟨hl, ⟨req, hreq⟩, hp⟩) ?_
                    simp [Accepted, hreq]
                | true =>
                    have hacc : Accepted (l :: (done ++ line :: later)) := by simp [Accepted, hreq]
                    obtain ⟨buf, hread, hiff⟩ := delivers_partial httpCallback hc
                      ⟨hl, hreq, headers_of_left hls hacc, hun.not_infix hclear, hp⟩
                    rw [hstep buf hread hiff]
                    exact ⟨fun h => ⟨hacc, h⟩, And.right⟩
          · refine iff_of_false (not_answeredOnce_of_body httpCallback hchunks hls hp hq hflat) ?_
            intro hand
            obtain ⟨-, hcuts, -⟩ := hand
            have hbad := hcuts _ (List.mem_cons_self)
            have hpast :
                linesFrom (l :: ls) ((unlines kCRLF (l :: ls)).length + q.length) = [] := by
              simpa [linesFrom] using linesFrom_append (l :: ls) [] q.length
            rw [hlen, hp, List.length_append, hpast] at hbad
            exact hbad

end AllReads

/-! ### The same answer -/

/-- Delivered in these chunks, the request makes the server do what it does when
the request comes in one read: one callback, on the same request, and the same
bytes sent. -/
def SameAnswer (conn : HttpConnection α) (r : RequestText)
    (chunks : List Bytes) : Prop :=
  ∃ conn₁ conn₂ as₁ as₂, DeliversAll httpCallback conn [r.render] conn₁ ∧
    conn₁.actions = conn.actions ++ as₁ ∧ DeliversAll httpCallback conn chunks conn₂ ∧
    conn₂.actions = conn.actions ++ as₂ ∧ callbacks as₂ = callbacks as₁ ∧
    (callbacks as₂).length = 1 ∧ (sent as₂).flatten = (sent as₁).flatten

/-- The request's own lines say the request. -/
theorem rereads_lines (r : RequestText) : Rereads r r.lines := by
  refine ⟨r.processRequestLine_requestLine, ?_⟩
  rw [List.dropLast_concat, setHeaderLines_lines]
  rfl

theorem accepted_lines (r : RequestText) : Accepted r.lines := by
  show (processRequestLine {} r.requestLine).map Prod.fst = some true
  rw [r.processRequestLine_requestLine]
  rfl

theorem sameAnswer_iff_answeredOnce {conn : HttpConnection α}
    (hempty : conn.inputBuffer.readable = []) (r : RequestText) (chunks : List Bytes) :
    SameAnswer httpCallback conn r chunks ↔ AnsweredOnce httpCallback conn chunks r := by
  obtain ⟨conn₁, h₁, hactions, -, huniq⟩ :=
    delivers_renderAll httpCallback hempty r []
  have hrender : renderAll [r] = r.render := by simp [renderAll]
  rw [hrender] at h₁ huniq
  constructor
  · intro hex
    obtain ⟨conn₁', conn₂, as₁, as₂, ⟨conn₁'', h₁', rfl⟩, has₁, h₂, has₂, hcalls, -, hsent⟩ := hex
    obtain rfl := huniq conn₁'' h₁'
    obtain rfl := List.append_cancel_left (hactions.symm.trans has₁)
    exact ⟨conn₂, as₂, h₂, has₂, by rw [hcalls, callbacks_answer], hsent⟩
  · intro hex
    obtain ⟨conn₂, as₂, h₂, has₂, hcalls, hsent⟩ := hex
    exact ⟨conn₁, conn₂, _, as₂, ⟨conn₁, h₁, rfl⟩, hactions, h₂, has₂,
      by rw [hcalls, callbacks_answer], by rw [hcalls]; rfl, hsent⟩

/-- A whole request, from an empty input buffer. -/
theorem answeredOnce_iff_harmlessCuts {conn : HttpConnection α}
    (hempty : conn.inputBuffer.readable = []) {r : RequestText} {chunks : List Bytes}
    (hne : ∀ c ∈ chunks, c ≠ []) (hflat : chunks.flatten = r.render) :
    AnsweredOnce httpCallback conn chunks r ↔ HarmlessCuts r chunks := by
  have hchunks : chunks ≠ [] := by
    intro heq
    obtain rfl := heq
    exact render_ne_nil r hflat.symm
  have hpart : Unfinished kCRLF r.requestLine conn.inputBuffer.readable := by
    rw [hempty]
    exact ⟨List.prefix_iff_eq_take.mpr rfl, by simp [kCRLF]⟩
  have hw : conn.inputBuffer.readable ++ chunks.flatten = unlines kCRLF r.lines ++ r.body := by
    rw [hempty, hflat, List.nil_append, render_eq_unlines]
  have hall : r.requestLine :: (r.headers.map HeaderText.line ++ [[]]) <:+ r.lines :=
    List.suffix_rfl
  rw [answeredOnce_iff httpCallback hchunks hne hall hpart hw, hempty]
  exact ⟨And.right, fun h => ⟨accepted_lines r, h⟩⟩

/-- **Chunking.** However a well-formed request is cut into reads, the answer is
that of a single read if and only if the cuts are harmless. -/
theorem sameAnswer_iff (conn : HttpConnection α)
    (hempty : conn.inputBuffer.readable = []) (r : RequestText) (chunks : List Bytes)
    (hne : ∀ c ∈ chunks, c ≠ []) (hflat : chunks.flatten = r.render) :
    SameAnswer httpCallback conn r chunks ↔ HarmlessCuts r chunks := by
  rw [sameAnswer_iff_answeredOnce httpCallback hempty,
    answeredOnce_iff_harmlessCuts httpCallback hempty hne hflat]

/-- Cuts within the request line are harmless. -/
theorem harmlessCuts_of_requestLine {r : RequestText} {chunks : List Bytes}
    (h : ∀ b ∈ cuts 0 chunks, b < r.requestLine.length + 2) : HarmlessCuts r chunks := by
  have hfrom : ∀ b ∈ cuts 0 chunks, linesFrom r.lines b = r.lines := fun b hb => by
    rw [RequestText.lines, linesFrom, if_pos (h b hb)]
  refine ⟨fun b hb => by rw [hfrom b hb]; exact accepted_lines r, ?_⟩
  rw [List.map_congr_left hfrom, List.map_const', List.getLastD_eq_getLast?]
  cases hn : (cuts 0 chunks).length with
  | zero => exact rereads_lines r
  | succ n =>
      rw [List.getLast?_replicate, if_neg (Nat.succ_ne_zero n)]
      exact rereads_lines r

/-- `getRoot` cut within its request line. -/
theorem sameAnswer_getRoot :
    SameAnswer defaultHttpCallback (.fresh ()) getRoot
      [getRoot.render.take 5, getRoot.render.drop 5] :=
  (sameAnswer_iff defaultHttpCallback (.fresh ()) (Buffer.readable_new _) getRoot
    [getRoot.render.take 5, getRoot.render.drop 5] (by decide +kernel) (by simp)).mpr
    (harmlessCuts_of_requestLine (by decide +kernel))

/-- `getRoot` cut after its request line: the second read is answered with 400. -/
theorem chunking_not_always_sameAnswer :
    ¬ ∀ (httpCallback : HttpCallback Unit) (conn : HttpConnection Unit) (r : RequestText)
      (chunks : List Bytes), conn.inputBuffer.readable = [] → (∀ c ∈ chunks, c ≠ []) →
        chunks.flatten = r.render → SameAnswer httpCallback conn r chunks := by
  intro h
  have hsame := h defaultHttpCallback (.fresh ()) getRoot
    [getRoot.render.take 16, getRoot.render.drop 16] (Buffer.readable_new _) (by decide +kernel)
    (by simp)
  rw [sameAnswer_iff_answeredOnce _ (Buffer.readable_new _),
    answeredOnce_iff_harmlessCuts _ (Buffer.readable_new _) (by decide +kernel) (by simp)] at hsame
  exact absurd (hsame.1 16 (by decide +kernel)) (by decide +kernel)

end Dummyload
