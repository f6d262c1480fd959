import BbsServer.World

/-!
# The line buffer

`query_extract_from_buf` and `session_do_read` of `session.c`.
-/

namespace BbsServer

open CStr

/-- `query_extract_from_buf_2`: the line and what stays in the buffer; nothing is
stored for an empty buffer. `below` is the byte under the allocation of the line,
which the test for `'\r'` reads when the line is empty. -/
def queryExtractFromBuf2 (below : UInt8) (buf : Bytes) : Option (Bytes × Bytes) :=
  if buf = [] then none
  else
    match strchr (cstr buf) nl with
    | none => some (cstr buf, [])
    | some pos =>
      let beforeNl := if pos = 0 then below else buf.getD (pos - 1) 0
      let line :=
        if beforeNl = cr then (if pos = 0 then [] else buf.take (pos - 1) ++ [nl])
        else buf.take (pos + 1)
      some (line, buf.drop (pos + 1))

def queryExtractFromBuf (ans : Answers) (s : Session) : Option Bytes × Session :=
  match queryExtractFromBuf2 (ans.below s.buf.length) s.buf with
  | none => (none, s)
  | some (line, buf) => (some line, { s with buf })

def sessionDoReadWith (send : SendString) (ans : Answers) (w : World) (s : Session) :
    M (Bool × Option Bytes × World × Session) :=
  match ans.read with
  | none | some [] => .ok (false, none, w, { s with state := .err })
  | some bs =>
    if inBufSize - s.buf.length < bs.length then .error .refused
    else
      match queryExtractFromBuf ans { s with buf := s.buf ++ bs } with
      | (none, s) => .ok (false, none, w, s)
      | (some line, s) =>
        if inBufSize ≤ s.buf.length then do
          let w ← send w s (ascii "Line too long! Good bye...\n")
          .ok (false, some line, w, { s with state := .err })
        else if s.state = .fin then .ok (false, some line, w, s)
        else .ok (true, some line, w, s)

abbrev sessionDoRead := sessionDoReadWith sessionSendString

def lineOf (ans : Answers) (s : Session) : Option (Bytes × Bytes) :=
  match ans.read with
  | none | some [] => none
  | some bs => queryExtractFromBuf2 (ans.below (s.buf.length + bs.length)) (s.buf ++ bs)

theorem lineOf_eq {ans : Answers} {s : Session} {bs : Bytes} (hr : ans.read = some bs) (hne : bs ≠ []) :
    lineOf ans s = queryExtractFromBuf2 (ans.below (s.buf.length + bs.length)) (s.buf ++ bs) := by
  cases bs with
  | nil => exact absurd rfl hne
  | cons => simp [lineOf, hr]

theorem lineOf_end {ans : Answers} {s : Session} (hr : ans.read = none ∨ ans.read = some []) :
    lineOf ans s = none := by
  rcases hr with hr | hr <;> simp [lineOf, hr]

/-! ## What extraction leaves -/

theorem queryExtractFromBuf2_isSome (below : UInt8) {buf : Bytes} (h : buf ≠ []) :
    (queryExtractFromBuf2 below buf).isSome := by
  unfold queryExtractFromBuf2
  simp only [h, if_false]
  split <;> rfl

theorem queryExtractFromBuf2_length {below : UInt8} {buf line rest : Bytes}
    (h : queryExtractFromBuf2 below buf = some (line, rest)) : rest.length < buf.length := by
  unfold queryExtractFromBuf2 at h
  split at h
  · cases h
  · rename_i hb
    have hpos : 0 < buf.length := List.length_pos_iff.mpr hb
    split at h
    · cases h; exact hpos
    · cases h; simp only [List.length_drop]; omega

theorem queryExtractFromBuf2_suffix {below : UInt8} {buf line rest : Bytes}
    (h : queryExtractFromBuf2 below buf = some (line, rest)) : rest <:+ buf := by
  unfold queryExtractFromBuf2 at h
  split at h
  · cases h
  · split at h
    · cases h; exact List.nil_suffix
    · cases h; exact List.drop_suffix ..

theorem queryExtractFromBuf_ok (ans : Answers) {s : Session} (h : s.buf ≠ []) :
    ∃ line b, queryExtractFromBuf2 (ans.below s.buf.length) s.buf = some (line, b) ∧
      queryExtractFromBuf ans s = (some line, { s with buf := b }) ∧ b.length < s.buf.length := by
  obtain ⟨⟨line, b⟩, hq⟩ := Option.isSome_iff_exists.mp (queryExtractFromBuf2_isSome (ans.below s.buf.length) h)
  exact ⟨line, b, hq, by simp [queryExtractFromBuf, hq], queryExtractFromBuf2_length hq⟩

/-! ## What a line is -/

def IsLine (line : Bytes) : Prop := ∃ below buf rest, queryExtractFromBuf2 below buf = some (line, rest)

theorem queryExtractFromBuf2_bare {below : UInt8} {t : Bytes} (hne : t ≠ []) (h0 : 0 ∉ t) (hn : nl ∉ t) :
    queryExtractFromBuf2 below t = some (t, []) := by
  unfold queryExtractFromBuf2
  rw [if_neg hne, cstr_of_nul_not_mem h0, strchr_eq_none.mpr hn]

theorem IsLine.text {line : Bytes} (h : IsLine line) : ∃ t, (line = t ∨ line = t ++ [nl]) ∧ 0 ∉ t ∧ nl ∉ t := by
  obtain ⟨below, buf, rest, h⟩ := h
  unfold queryExtractFromBuf2 at h
  split at h
  · cases h
  split at h
  · rename_i hn
    cases h
    exact ⟨cstr buf, .inl rfl, nul_not_mem_cstr buf, strchr_eq_none.mp hn⟩
  · rename_i pos hpos
    cases h
    obtain ⟨-, hn, hlt⟩ := strchr_eq_some hpos
    have htake : ∀ n ≤ (cstr buf).length, buf.take n = (cstr buf).take n := fun n h => by
      obtain ⟨z, hz⟩ := cstr_prefix buf
      conv_lhs => rw [← hz]
      exact List.take_append_of_le_length h
    have hline : buf.take (pos + 1) = (cstr buf).take pos ++ [nl] := by
      rw [htake _ hlt, take_strchr hpos]
    have h0 : 0 ∉ (cstr buf).take pos := fun h => nul_not_mem_cstr buf (List.mem_of_mem_take h)
    have hsub : ∀ c ∈ buf.take (pos - 1), c ∈ (cstr buf).take pos := fun c hc => by
      rw [← htake pos hlt.le]
      exact (List.take_subset_take_left buf (Nat.sub_le pos 1)) hc
    by_cases hcr : (if pos = 0 then below else buf.getD (pos - 1) 0) = cr
    · rw [if_pos hcr]
      split
      · exact ⟨[], .inl rfl, by simp, by simp⟩
      · exact ⟨buf.take (pos - 1), .inr rfl, fun h => h0 (hsub _ h), fun h => hn (hsub _ h)⟩
    · rw [if_neg hcr]
      exact ⟨(cstr buf).take pos, .inr hline, h0, hn⟩

end BbsServer
