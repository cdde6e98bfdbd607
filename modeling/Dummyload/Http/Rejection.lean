import Dummyload.Http.Grammar

/-!
# Dummyload.Http.Rejection

What a rejected request line leaves behind. `processRequestLine` writes the method
before it looks at the rest of the line, and `setMethod` asserts that no method is set:
so a line that is rejected for its target or version leaves a context on which
`parseRequest` aborts when it is called again (`aborts_of_namesMethod`). A line that is
rejected for its method leaves no trace (`rejects_cleanly_iff`).
-/

namespace Dummyload

open Lib.Lines (Clear)

/-- The bytes begin with one of the methods and a space. -/
def NamesMethod (w : Bytes) : Prop := ∃ m : Method, m ≠ .kInvalid ∧ m.text ++ ascii " " <+: w

/-- What a call that rejects should leave: the request as it was (in a fresh context), the
bytes unread, and a context that rejects them again, whatever comes behind. -/
structure RejectsCleanly (buf : Buffer) (context' : HttpContext) (buf' : Buffer) : Prop where
  request : context'.request = {}
  unread : buf'.readable = buf.readable
  again : ∀ (more : Bytes) (buf₁ : Buffer), buf₁.readable = buf'.readable ++ more →
    ∃ context₂ buf₂, HttpContext.Returns context' buf₁ false context₂ buf₂

/-! ### The method of a line -/

/-- A prefix without the byte `c` ends before the first `c`. -/
theorem prefix_of_notMem {p l r : Bytes} {c : Byte} (hp : p <+: l ++ c :: r) (hc : c ∉ p) :
    p <+: l := by
  rcases List.prefix_or_prefix_of_prefix hp (List.prefix_append l (c :: r)) with h | h
  · exact h
  · obtain ⟨q, rfl⟩ := h
    cases q with
    | nil => rw [List.append_nil]
    | cons d q =>
        rw [List.prefix_append_right_inj] at hp
        obtain ⟨hd, -⟩ := List.cons_prefix_cons.mp hp
        exact absurd (by simp [hd]) hc

/-- What stands before the first `c` is determined. -/
theorem append_cons_inj {a b r s : Bytes} {c : Byte} (ha : c ∉ a) (hb : c ∉ b)
    (h : a ++ c :: r = b ++ c :: s) : a = b := by
  have hlen := congrArg (List.idxOf c) h
  rw [List.idxOf_append_of_notMem ha, List.idxOf_append_of_notMem hb, List.idxOf_cons_self,
    List.idxOf_cons_self] at hlen
  exact (List.append_inj h (by omega)).1

/-- Only the first line matters. -/
theorem namesMethod_line {line rest : Bytes} :
    NamesMethod (line ++ kCRLF ++ rest) ↔ NamesMethod line := by
  constructor
  · intro hex
    obtain ⟨m, hm, hinit⟩ := hex
    refine ⟨m, hm, ?_⟩
    rw [kCRLF, List.append_assoc] at hinit
    exact prefix_of_notMem hinit (by cases m <;> decide)
  · intro hex
    obtain ⟨m, hm, hinit⟩ := hex
    rw [List.append_assoc]
    exact ⟨m, hm, hinit.trans (List.prefix_append _ _)⟩

theorem not_namesMethod_of_noSpace {line : Bytes} (h : chr ' ' ∉ line) : ¬ NamesMethod line := by
  intro hex
  obtain ⟨m, -, hinit⟩ := hex
  exact h (List.IsPrefix.subset hinit (by simp [ascii, chr]))

/-- With a space, the method is what stands before the first one. -/
theorem namesMethod_iff {m rest : Bytes} (hm : chr ' ' ∉ m) :
    NamesMethod (m ++ chr ' ' :: rest) ↔ ∃ x : Method, x ≠ .kInvalid ∧ m = x.text := by
  constructor
  · intro hex
    obtain ⟨x, hx, tail, htail⟩ := hex
    have hspell : x.text ++ chr ' ' :: tail = m ++ chr ' ' :: rest := by
      rw [← htail, List.append_assoc]
      rfl
    exact ⟨x, hx, (append_cons_inj (RequestText.text_noSpace x) hm hspell).symm⟩
  · intro hex
    obtain ⟨x, hx, rfl⟩ := hex
    refine ⟨x, hx, rest, ?_⟩
    rw [List.append_assoc]
    rfl

@[simp] theorem setTarget_method (req : HttpRequest) (t : Bytes) :
    (setTarget req t).method = req.method := by
  rw [setTarget]
  split <;> rfl

/-- A rejected line has set the method, or nothing. -/
theorem rejected_cases {line : Bytes} {req : HttpRequest}
    (h : processRequestLine {} line = some (false, req)) :
    (NamesMethod line ∧ req.method ≠ .kInvalid) ∨ (¬ NamesMethod line ∧ req = {}) := by
  rcases line_cases line with hno | ⟨m, t, hm, ht, rfl⟩ | ⟨m, t, v, hm, ht, rfl⟩
  · rw [processRequestLine_noSpace hno] at h
    simp only [Option.some.injEq, Prod.mk.injEq, true_and] at h
    exact Or.inr ⟨not_namesMethod_of_noSpace hno, h.symm⟩
  · rw [processRequestLine_oneSpace hm ht, Option.map_eq_some_iff] at h
    obtain ⟨r, hset, hr⟩ := h
    obtain ⟨-, rfl⟩ := Prod.mk.inj hr
    rw [namesMethod_iff hm]
    rcases HttpRequest.setMethod_cases {} rfl m with ⟨x, hx, rfl, hset'⟩ | ⟨hnot, hset'⟩
    · rw [hset'] at hset
      obtain rfl := Option.some.inj hset
      exact Or.inl ⟨⟨x, hx, rfl⟩, hx⟩
    · rw [hset'] at hset
      obtain rfl := Option.some.inj hset
      exact Or.inr ⟨fun hex => by obtain ⟨x, hx, heq⟩ := hex; exact hnot x hx heq, rfl⟩
  · rw [processRequestLine_parts hm ht] at h
    rw [namesMethod_iff hm]
    rcases HttpRequest.setMethod_cases {} rfl m with ⟨x, hx, rfl, hset⟩ | ⟨hnot, hset⟩
    · rw [hset] at h
      dsimp only at h
      cases hv : versionOf v with
      | none =>
          rw [hv] at h
          simp only [Option.some.injEq, Prod.mk.injEq, true_and] at h
          refine Or.inl ⟨⟨x, hx, rfl⟩, ?_⟩
          rw [← h, setTarget_method]
          exact hx
      | some version => rw [hv] at h; cases h
    · rw [hset] at h
      simp only [Option.some.injEq, Prod.mk.injEq, true_and] at h
      exact Or.inr ⟨fun hex => by obtain ⟨x, hx, heq⟩ := hex; exact hnot x hx heq, h.symm⟩

/-! ### Calling again -/

namespace HttpContext

variable {buf buf' : Buffer} {context' : HttpContext}

/-- A call on a fresh context that returns false has rejected the first line. -/
theorem returns_false (hret : Returns {} buf false context' buf') :
    ∃ line rest req, Clear kCRLF line ∧ buf.readable = line ++ kCRLF ++ rest ∧
      processRequestLine {} line = some (false, req) ∧
      context' = ⟨.kExpectRequestLine, req⟩ ∧ buf' = buf := by
  rcases head_cases buf.readable with hno | ⟨line, rest, hrej⟩ | ⟨line, req, hs, part, hpart⟩ |
    ⟨line, req, hs, last, rest, hhead⟩
  · obtain ⟨hok, -, -⟩ := hret.unique (returns_noLine hno)
    cases hok
  · obtain ⟨req, hreq⟩ := hrej.rejected
    obtain ⟨-, rfl, rfl⟩ := hret.unique (returns_rejected hrej.clear hrej.split hreq)
    exact ⟨line, rest, req, hrej.clear, hrej.split, hreq, rfl, rfl⟩
  · obtain ⟨buf'', hpart, -⟩ := returns_partial hpart
    obtain ⟨hok, -, -⟩ := hret.unique hpart
    cases hok
  · by_cases hlen : bodyTaken (setHeaderLines req hs) ≤ rest.length
    · obtain ⟨buf'', hgot, -⟩ := returns_complete hhead hlen
      obtain ⟨hok, -, -⟩ := hret.unique hgot
      cases hok
    · exact absurd hret (spins_bodyPending hhead (Nat.not_le.mp hlen)).not_finishes

/-- Once a method is set, a line with a space fails the assertion of `setMethod`. -/
theorem processRequestLine_aborts {req : HttpRequest} {line : Bytes} (hreq : req.method ≠ .kInvalid)
    (hline : NamesMethod line) : processRequestLine req line = none := by
  have hset : ∀ m, req.setMethod m = none := fun m => by
    rw [HttpRequest.setMethod, if_neg hreq]
  rcases line_cases line with hno | ⟨m, t, hm, ht, rfl⟩ | ⟨m, t, v, hm, ht, rfl⟩
  · exact absurd hline (not_namesMethod_of_noSpace hno)
  · rw [processRequestLine_oneSpace hm ht, hset]
    rfl
  · rw [processRequestLine_parts hm ht, hset]

/-- After rejecting a line that names a method, the next call on the context aborts. -/
theorem aborts_of_namesMethod (hret : Returns {} buf false context' buf')
    (hname : NamesMethod buf.readable) {more : Bytes} {buf₁ : Buffer}
    (hbuf₁ : buf₁.readable = buf'.readable ++ more) :
    parseRequest context' buf₁ 1 = .aborted := by
  obtain ⟨line, rest, req, hclear, hsplit, hreq, rfl, rfl⟩ := returns_false hret
  rw [hsplit, namesMethod_line] at hname
  have hmethod : req.method ≠ .kInvalid :=
    (rejected_cases hreq).elim (fun h => h.2) (fun h => absurd hname h.1)
  rw [hsplit, List.append_assoc] at hbuf₁
  have hstep : parseStep (enter ⟨.kExpectRequestLine, req⟩ buf₁) = none := by
    simp [parseStep, enter, Buffer.findCRLF_line hclear hbuf₁, take_line hbuf₁,
      processRequestLine_aborts hmethod hname]
  exact Lib.While.exec_abort rfl hstep 0

/-- **Clean rejection.** A call that rejects leaves the request and the bytes alone, and
rejects again, exactly when the bytes do not begin with a method and a space. -/
theorem rejects_cleanly_iff (buf : Buffer) (context' : HttpContext) (buf' : Buffer)
    (hret : Returns {} buf false context' buf') :
    RejectsCleanly buf context' buf' ↔ ¬ NamesMethod buf.readable := by
  obtain ⟨line, rest, req, hclear, hsplit, hreq, rfl, rfl⟩ := returns_false hret
  rw [hsplit, namesMethod_line]
  constructor
  · intro hclean hname
    have hfresh : req = {} := hclean.request
    rcases rejected_cases hreq with ⟨-, hmethod⟩ | ⟨hnot, -⟩
    · rw [hfresh] at hmethod
      exact hmethod rfl
    · exact hnot hname
  · intro hname
    rcases rejected_cases hreq with ⟨hnamed, -⟩ | ⟨-, rfl⟩
    · exact absurd hnamed hname
    · refine ⟨rfl, rfl, fun more buf₁ hbuf₁ => ?_⟩
      rw [hsplit, List.append_assoc] at hbuf₁
      exact ⟨_, buf₁, returns_rejected hclear hbuf₁ hreq⟩

/-- A line with a method that is not known. -/
def unknownMethod : Bytes := ascii "BREW /pot HTTP/1.1\r\n"

theorem rejects_cleanly_unknownMethod :
    ∃ context' buf', Returns {} (Buffer.holding unknownMethod) false context' buf' ∧
      RejectsCleanly (Buffer.holding unknownMethod) context' buf' := by
  have hsplit : (Buffer.holding unknownMethod).readable =
      ascii "BREW /pot HTTP/1.1" ++ kCRLF ++ [] := by
    rw [Buffer.readable_holding]
    decide
  have hclear : Clear kCRLF (ascii "BREW /pot HTTP/1.1") := by decide
  have hreq : processRequestLine {} (ascii "BREW /pot HTTP/1.1") = some (false, {}) := by decide
  have hret := returns_rejected hclear hsplit hreq
  have hname : ¬ NamesMethod (Buffer.holding unknownMethod).readable := by
    rw [Buffer.readable_holding]
    rintro ⟨m, hm, hinit⟩
    cases m <;> first | exact hm rfl | exact absurd hinit (by decide)
  exact ⟨_, _, hret, (rejects_cleanly_iff _ _ _ hret).mpr hname⟩

/-- A line with a method and no version. -/
def versionless : Bytes := ascii "GET /\r\n"

theorem not_always_rejects_cleanly :
    ¬ ∀ (buf : Buffer) (context' : HttpContext) (buf' : Buffer),
      Returns {} buf false context' buf' → RejectsCleanly buf context' buf' := by
  intro h
  have hsplit : (Buffer.holding versionless).readable = ascii "GET /" ++ kCRLF ++ [] := by
    rw [Buffer.readable_holding]
    decide
  have hclear : Clear kCRLF (ascii "GET /") := by decide
  have hreq : processRequestLine {} (ascii "GET /") = some (false, { method := .kGet }) := by
    decide
  have hclean := h _ _ _ (returns_rejected hclear hsplit hreq)
  exact absurd (congrArg HttpRequest.method hclean.request) (by decide)

end HttpContext

end Dummyload
