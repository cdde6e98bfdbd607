import Dummyload.Http.RequestText

/-!
# Dummyload.Http.Grammar

The request lines that `processRequestLine` accepts: a method, a space, a target
without spaces, a space and a version, with nothing before, between or after
(`processRequestLine_accepts_iff`).

A line is cut at its first two spaces; what becomes of it is read off the pieces, one
lemma for each number of spaces that are found.
-/

namespace Dummyload

/-! ### Methods and versions -/

namespace HttpRequest

/-- `setMethod` on a request without a method. -/
theorem setMethod_cases (req : HttpRequest) (h : req.method = .kInvalid) (m : Bytes) :
    (∃ x : Method, x ≠ .kInvalid ∧ m = x.text ∧
        req.setMethod m = some (true, { req with method := x })) ∨
      ((∀ x : Method, x ≠ .kInvalid → m ≠ x.text) ∧ req.setMethod m = some (false, req)) := by
  by_cases hm : ∃ x, x ≠ Method.kInvalid ∧ m = x.text
  · obtain ⟨x, hx, rfl⟩ := hm
    exact Or.inl ⟨x, hx, rfl, setMethod_text h hx⟩
  · have hnot : ∀ x, x ≠ Method.kInvalid → m ≠ x.text := fun x hx heq => hm ⟨x, hx, heq⟩
    refine Or.inr ⟨hnot, ?_⟩
    have hget : m ≠ ascii "GET" := hnot .kGet (by decide)
    have hpost : m ≠ ascii "POST" := hnot .kPost (by decide)
    have hhead : m ≠ ascii "HEAD" := hnot .kHead (by decide)
    have hput : m ≠ ascii "PUT" := hnot .kPut (by decide)
    have hdelete : m ≠ ascii "DELETE" := hnot .kDelete (by decide)
    rw [setMethod, if_pos h, if_neg hget, if_neg hpost, if_neg hhead, if_neg hput, if_neg hdelete,
      ← h]
    simp

end HttpRequest

/-- The versions that are read, and their text. -/
theorem versionOf_eq_some {v : Bytes} {version : Version} :
    versionOf v = some version ↔
      version ≠ .kUnknown ∧ v = ascii "HTTP/1." ++ [version.digit] := by
  constructor
  · intro h
    rw [versionOf] at h
    split at h
    · rename_i hshape
      obtain ⟨hlen, hinit⟩ := hshape
      rw [slice, List.drop_zero, Nat.sub_zero] at hinit
      -- the first seven bytes and the last one
      have hcut : ∀ {c : Byte}, v.getLast? = some c → v = ascii "HTTP/1." ++ [c] := by
        intro c hc
        have hdrop : v.drop 7 = [c] := by
          rw [List.getLast?_eq_getElem?, hlen] at hc
          obtain ⟨hlt, hget⟩ := List.getElem?_eq_some_iff.mp hc
          rw [List.drop_eq_getElem_cons hlt, hget, List.drop_of_length_le (by omega)]
        rw [← hinit, ← hdrop, List.take_append_drop]
      split at h
      · rename_i hlast
        obtain rfl := Option.some.inj h
        exact ⟨by decide, hcut hlast⟩
      · split at h
        · rename_i hlast
          obtain rfl := Option.some.inj h
          exact ⟨by decide, hcut hlast⟩
        · cases h
    · cases h
  · intro hand
    obtain ⟨hknown, rfl⟩ := hand
    cases version with
    | kUnknown => exact absurd rfl hknown
    | kHttp10 => rfl
    | kHttp11 => rfl

/-! ### Lines by their spaces -/

/-- A line has no space, one, or more. -/
theorem line_cases (line : Bytes) :
    chr ' ' ∉ line ∨
      (∃ m t, chr ' ' ∉ m ∧ chr ' ' ∉ t ∧ line = m ++ chr ' ' :: t) ∨
      ∃ m t v, chr ' ' ∉ m ∧ chr ' ' ∉ t ∧ line = m ++ (chr ' ' :: (t ++ (chr ' ' :: v))) := by
  by_cases hline : chr ' ' ∈ line
  · obtain ⟨m, rest, hcut, hm⟩ := List.eq_append_cons_of_mem hline
    by_cases hrest : chr ' ' ∈ rest
    · obtain ⟨t, v, hcut', ht⟩ := List.eq_append_cons_of_mem hrest
      exact Or.inr (Or.inr ⟨m, t, v, hm, ht, by rw [hcut, hcut']⟩)
    · exact Or.inr (Or.inl ⟨m, rest, hm, hrest, hcut⟩)
  · exact Or.inl hline

theorem processRequestLine_noSpace {line : Bytes} (h : chr ' ' ∉ line) (req : HttpRequest) :
    processRequestLine req line = some (false, req) := by
  unfold processRequestLine
  dsimp only
  rw [if_neg (by rw [not_not]; exact find_eq_length_iff.mpr h)]

theorem processRequestLine_oneSpace {m t : Bytes} (hm : chr ' ' ∉ m) (ht : chr ' ' ∉ t)
    (req : HttpRequest) :
    processRequestLine req (m ++ chr ' ' :: t) =
      (req.setMethod m).map fun r => (false, r.2) := by
  have hfirst : find (m ++ chr ' ' :: t) 0 (chr ' ') = m.length := by
    rw [find, List.drop_zero, List.idxOf_append_of_notMem hm]
    simp
  have hslice : slice (m ++ chr ' ' :: t) 0 m.length = m := by
    rw [slice, List.drop_zero, Nat.sub_zero, List.take_left]
  have hlen : (m ++ chr ' ' :: t).length = m.length + 1 + t.length := by
    rw [List.length_append, List.length_cons]
    omega
  have hsecond : find (m ++ chr ' ' :: t) (m.length + 1) (chr ' ') =
      (m ++ chr ' ' :: t).length := by
    have hdrop : (m ++ chr ' ' :: t).drop (m.length + 1) = t := by
      rw [← List.drop_drop, List.drop_left, List.drop_one, List.tail_cons]
    rw [find, hdrop, List.idxOf_eq_length ht, hlen]
  unfold processRequestLine
  dsimp only
  rw [hfirst, if_pos (by omega), hslice]
  cases req.setMethod m with
  | none => rfl
  | some r =>
      obtain ⟨ok, r⟩ := r
      cases ok with
      | false => rfl
      | true =>
          dsimp only
          rw [if_neg (by rw [not_not]; exact hsecond)]
          rfl

/-! ### What is accepted -/

theorem setTarget_eq (req : HttpRequest) (hq : req.query = []) (t : Bytes) :
    setTarget req t =
      { req with path := t.takeWhile (· ≠ chr '?'), query := t.dropWhile (· ≠ chr '?') } := by
  rw [setTarget]
  split
  · rename_i hmem
    obtain ⟨before, after, rfl, hbefore⟩ := List.eq_append_cons_of_mem hmem
    have hidx : (before ++ chr '?' :: after).idxOf (chr '?') = before.length := by
      rw [List.idxOf_append_of_notMem hbefore, List.idxOf_cons_self, Nat.add_zero]
    have hkeep : ∀ c ∈ before, decide (c ≠ chr '?') = true := fun c hc =>
      decide_eq_true fun heq => hbefore (heq ▸ hc)
    rw [hidx, List.take_left, List.drop_left, List.takeWhile_append_of_pos hkeep,
      List.dropWhile_append_of_pos hkeep]
    simp
  · rename_i hmem
    have hkeep : ∀ c ∈ t, decide (c ≠ chr '?') = true := fun c hc =>
      decide_eq_true fun heq => hmem (heq ▸ hc)
    rw [List.takeWhile_eq_self_iff.mpr hkeep, List.dropWhile_eq_nil_iff.mpr hkeep, ← hq]

/-- **The grammar of request lines.** On a fresh request `processRequestLine` accepts
the lines that are a method, a target without spaces and a version, each after a single
space, and no others; and it reads method, version, path and query from these parts. -/
theorem processRequestLine_accepts_iff (line : Bytes) (req : HttpRequest) :
    processRequestLine {} line = some (true, req) ↔
      ∃ m t version, m ≠ .kInvalid ∧ chr ' ' ∉ t ∧ version ≠ .kUnknown ∧
        line = m.text ++ ascii " " ++ t ++ ascii " HTTP/1." ++ [version.digit] ∧
        req = { ({} : HttpRequest) with
          method := m
          version := version
          path := t.takeWhile (· ≠ chr '?')
          query := t.dropWhile (· ≠ chr '?') } := by
  have hspell : ∀ (m t : Bytes) (c : Byte), m ++ ascii " " ++ t ++ ascii " HTTP/1." ++ [c] =
      m ++ (chr ' ' :: (t ++ (chr ' ' :: (ascii "HTTP/1." ++ [c])))) := by
    intro m t c
    simp only [List.append_assoc]
    rfl
  constructor
  · intro h
    rcases line_cases line with hno | ⟨m, t, hm, ht, rfl⟩ | ⟨m, t, v, hm, ht, rfl⟩
    · rw [processRequestLine_noSpace hno] at h
      cases h
    · rw [processRequestLine_oneSpace hm ht, Option.map_eq_some_iff] at h
      obtain ⟨r, -, hr⟩ := h
      cases hr
    · rw [processRequestLine_parts hm ht] at h
      rcases HttpRequest.setMethod_cases {} rfl m with ⟨x, hx, rfl, hset⟩ | ⟨-, hset⟩
      · rw [hset] at h
        dsimp only at h
        cases hv : versionOf v with
        | none => rw [hv] at h; cases h
        | some version =>
            rw [hv] at h
            simp only [Option.some.injEq, Prod.mk.injEq, true_and] at h
            obtain ⟨hknown, rfl⟩ := versionOf_eq_some.mp hv
            rw [setTarget_eq _ rfl] at h
            exact ⟨x, t, version, hx, ht, hknown, (hspell _ _ _).symm, h.symm⟩
      · rw [hset] at h
        cases h
  · intro hex
    obtain ⟨m, t, version, hm, ht, hknown, rfl, rfl⟩ := hex
    have hv : versionOf (ascii "HTTP/1." ++ [version.digit]) = some version :=
      versionOf_eq_some.mpr ⟨hknown, rfl⟩
    rw [hspell, processRequestLine_parts (RequestText.text_noSpace m) ht,
      HttpRequest.setMethod_text rfl hm]
    dsimp only
    rw [hv, setTarget_eq _ rfl]

end Dummyload
