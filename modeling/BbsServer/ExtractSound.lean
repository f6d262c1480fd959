import BbsServer.BoundsSound
import BbsServer.DescriptionSound

/-!
# Lines out of the buffer

`query_extract_from_buf` on a text in `buf`: one call takes the first line, and calls until `buf_used` is 0 take all
of it (`extraction_exact`). A text without a newline counts as a line, however long it is, so the test for a line that
is too long, which comes after the extraction, never succeeds (`longLine_never`).
-/

namespace BbsServer

open CStr Lines

/-! ## The extraction, with the byte in front of the line -/

def queryExtractFromBlockWith (load : Bytes → Int → Option UInt8) (fresh : Nat → UInt8) (buf : Bytes)
    (bufUsed : Int) :
    Option (Option Bytes × Bytes × Int) :=
  if bufUsed > 0 then do
    match ← Block.strchr nl buf with
    | none =>
      let line := (List.range (bufUsed.toNat + 1)).map fresh
      let line ← Block.strncpy line buf bufUsed.toNat
      let line ← Block.store line bufUsed 0
      some (some line, buf, 0)
    | some pos =>
      let line := (List.range (pos + 2)).map fresh
      let line ← Block.strncpy line buf (pos + 1)
      let pos := pos + 1
      let line ← Block.store line pos 0
      let bufUsed := bufUsed - pos
      let buf ← Block.memmove buf 0 pos (sizeT bufUsed)
      let buf ← Block.store buf bufUsed 0
      if (← load line (pos - 2)) = cr then
        let line ← Block.store line (pos - 2) (← Block.load line (pos - 1))
        let pos := pos - 1
        let line ← Block.store line pos 0
        some (some line, buf, bufUsed)
      else some (some line, buf, bufUsed)
  else some (none, buf, bufUsed)

def loadFrom (below : UInt8) (m : Bytes) (i : Int) : Option UInt8 := if i = -1 then some below else Block.load m i

/-- `query_extract_from_buf` until `buf_used` is 0: the lines. `below` and `fresh` are the memory of each line, by the
bytes in use then; `none` also when `n` calls are not enough. -/
def extractLines (below : Nat → UInt8) (fresh : Nat → Nat → UInt8) : Nat → Bytes → Int → Option (List Bytes)
  | 0, _, bufUsed => if bufUsed = 0 then some [] else none
  | n + 1, buf, bufUsed =>
    if bufUsed = 0 then some []
    else do
      let (line, buf, bufUsed) ← queryExtractFromBlockWith (loadFrom (below bufUsed.toNat)) (fresh bufUsed.toNat) buf bufUsed
      let lines ← extractLines below fresh n buf bufUsed
      some (cstr (← line) :: lines)

/-- The text up to its first newline, with `"\r\n"` made `"\n"`, and what is behind it. -/
def firstLine (text : Bytes) : Bytes × Bytes :=
  match strchr text nl with
  | none => (text, [])
  | some pos => (unCr (text.take (pos + 1)), text.drop (pos + 1))

/-- One call returns the first line, and leaves the rest in front of `buf`, with a NUL behind it if there is a
rest. -/
def TakesFirstLine (below : UInt8) (fresh : Nat → UInt8) (text r : Bytes) : Prop :=
  ∃ line buf, queryExtractFromBlockWith (loadFrom below) fresh (text ++ 0 :: r) text.length =
      some (some line, buf, ((firstLine text).2.length : Int)) ∧
    cstr line = (firstLine text).1 ∧ buf.length = (text ++ 0 :: r).length ∧
    (firstLine text).2 <+: buf ∧ ((firstLine text).2 ≠ [] → (firstLine text).2 ++ [0] <+: buf)

section
variable {below : UInt8} {fresh : Nat → UInt8} {a buf r text y : Bytes} {used : Nat}

theorem queryExtractFromBlockWith_load : queryExtractFromBlockWith Block.load = queryExtractFromBlock := rfl

theorem queryExtractFromBlockWith_of_some {x : Option Bytes × Bytes × Int}
    (h : queryExtractFromBlock fresh buf used = some x) :
    queryExtractFromBlockWith (loadFrom below) fresh buf used = some x := by
  have hload : ∀ {m : Bytes} {i : Int} {b : UInt8}, Block.load m i = some b →
      loadFrom below m i = some b := fun {m i b} h => by
    rw [loadFrom, if_neg, h]
    rintro rfl
    cases h
  unfold queryExtractFromBlock at h
  unfold queryExtractFromBlockWith
  split at h
  · rename_i hu
    rw [if_pos hu]
    obtain ⟨res, hres, h⟩ := Option.bind_eq_some_iff.mp h
    rw [hres]
    cases res with
    | none => exact h
    | some pos =>
      dsimp only at h
      obtain ⟨line, hline, h⟩ := Option.bind_eq_some_iff.mp h
      obtain ⟨line', hline', h⟩ := Option.bind_eq_some_iff.mp h
      obtain ⟨buf₁, hbuf₁, h⟩ := Option.bind_eq_some_iff.mp h
      obtain ⟨buf₂, hbuf₂, h⟩ := Option.bind_eq_some_iff.mp h
      obtain ⟨b, hb, h⟩ := Option.bind_eq_some_iff.mp h
      simp only [Option.bind_eq_bind, Option.bind_some]
      rw [hline, Option.bind_some, hline', Option.bind_some, hbuf₁, Option.bind_some, hbuf₂,
        Option.bind_some, hload hb, Option.bind_some]
      exact h
  · rename_i hu
    rw [if_neg hu]
    exact h

theorem firstLine_piece (h : nl ∉ text) : firstLine text = (text, []) := by
  rw [firstLine, strchr_eq_none.mpr h]

theorem firstLine_line (h : nl ∉ a) : firstLine (a ++ nl :: y) = (unCr (a ++ [nl]), y) := by
  have hsplit : a ++ nl :: y = (a ++ [nl]) ++ y := by simp
  rw [firstLine, strchr_append h]
  dsimp only
  rw [hsplit, List.take_left' (by simp), List.drop_left' (by simp)]

/-! ## One line -/

theorem extract_piece (hne : text ≠ []) (h0 : 0 ∉ text) (h : nl ∉ text) :
    queryExtractFromBlockWith (loadFrom below) fresh (text ++ 0 :: r) text.length =
      some (some (text ++ [0]), text ++ 0 :: r, 0) := by
  refine queryExtractFromBlockWith_of_some ?_
  have hcstr : cstr (text ++ 0 :: r) = text := by rw [cstr_append_nul, cstr_of_nul_not_mem h0]
  rw [extract_noNewline (List.length_pos_iff.mpr hne) (by rw [hcstr]; exact strchr_eq_none.mpr h) (.inr (by simp)) (by simp),
    List.take_left, cstr_of_nul_not_mem h0, Nat.sub_self, List.replicate_zero, List.append_nil]

/-- A newline at the front of `buf`: the byte in front of the line is tested for `'\r'`. -/
theorem extract_empty (fresh : Nat → UInt8) (hb : below ≠ cr) (h0 : 0 ∉ y) (hlen : y.length < 2 ^ 64) :
    queryExtractFromBlockWith (loadFrom below) fresh (nl :: (y ++ 0 :: r)) (y.length + 1 : Nat) =
      some (some [nl, 0], y ++ 0 :: (nl :: (y ++ 0 :: r)).drop (y.length + 1), (y.length : Int)) := by
  have hcstr : cstr (nl :: (y ++ 0 :: r)) = nl :: y := by
    have h : 0 ∉ nl :: y := fun h => (List.mem_cons.mp h).elim (by decide) h0
    rw [← List.cons_append, cstr_append_nul, cstr_of_nul_not_mem h]
  have hpos : strchr (nl :: y) nl = some 0 := strchr_append (a := []) (by simp)
  have hcopy := Block.strncpy_terminated (m := (List.range (0 + 2)).map fresh) (t := nl :: (y ++ 0 :: r)) (n := 0 + 1)
    (.inl (by rw [List.length_cons]; omega)) (by simp)
  rw [show (nl :: (y ++ 0 :: r)).take (0 + 1) = [nl] from rfl, show cstr [nl] = [nl] from rfl] at hcopy
  obtain ⟨line, hline, hstore⟩ := Option.bind_eq_some_iff.mp hcopy
  obtain ⟨moved, hmove, hnul⟩ := move_rest [nl] y r 0
  rw [queryExtractFromBlockWith, if_pos (by omega), Block.strchr_eq (by decide), if_pos (.inl (by simp)), hcstr, hpos]
  simp only [Option.bind_eq_bind, Option.bind_some]
  have hused : ((y.length + 1 : Nat) : Int) - ((0 + 1 : Nat) : Int) = y.length := by omega
  rw [hline, Option.bind_some, hstore, Option.bind_some, hused, sizeT_of_lt hlen, show (0 + 1) = [nl].length from rfl,
    show nl :: (y ++ 0 :: r) = [nl] ++ (y ++ 0 :: r) from rfl, hmove, Option.bind_some, hnul, Option.bind_some,
    show loadFrom below _ (([nl].length : Int) - 2) = some below from rfl, Option.bind_some, if_neg hb]
  rfl

/-- A call that finds a newline leaves what is behind it in front of `buf`, and a NUL. -/
theorem extract_line (fresh : Nat → UInt8) (h0 : 0 ∉ a ++ nl :: y) (ha : nl ∉ a) (hb : a = [] → below ≠ cr)
    (hlen : (a ++ nl :: y ++ 0 :: r).length < 2 ^ 64) : ∃ line r',
    queryExtractFromBlockWith (loadFrom below) fresh (a ++ nl :: y ++ 0 :: r) (a ++ nl :: y).length =
      some (some line, y ++ 0 :: r', (y.length : Int)) ∧
    cstr line = unCr (a ++ [nl]) ∧ (y ++ 0 :: r').length = (a ++ nl :: y ++ 0 :: r).length := by
  have hlength : (a ++ nl :: y ++ 0 :: r).length = a.length + (y.length + 1) + (r.length + 1) := by
    rw [List.length_append, List.length_append, List.length_cons, List.length_cons]
  have hy := (nul_not_mem_line h0).2
  rcases List.eq_nil_or_concat a with rfl | ⟨u, c, rfl⟩
  · have h := extract_empty (r := r) fresh (hb rfl) hy (by omega)
    refine ⟨_, _, h, rfl, ?_⟩
    simp only [List.length_append, List.length_cons, List.length_drop, List.length_nil]
    omega
  rw [List.concat_eq_append] at *
  have hbuf : u ++ [c] ++ nl :: y ++ 0 :: r = u ++ c :: nl :: (y ++ 0 :: r) := by simp
  have hpos : strchr (cstr (u ++ [c] ++ nl :: y ++ 0 :: r)) nl = some (u.length + 1) := by
    rw [cstr_append_nul, cstr_of_nul_not_mem h0, strchr_append ha, List.length_append]
    rfl
  have hnul : 0 ∉ u ++ [c, nl] := fun h => h0 (by simp at h ⊢; tauto)
  have h : queryExtractFromBlock fresh _ (u.length + 2 + y.length : Nat) = _ := extract_newline hbuf hpos hnul hlen
  have hused : (u ++ [c] ++ nl :: y).length = u.length + 2 + y.length := by
    rw [List.length_append, List.length_append, List.length_cons, List.length_nil, List.length_cons]
    omega
  rw [hused]
  refine ⟨_, _, queryExtractFromBlockWith_of_some h, ?_, ?_⟩
  · have hu : 0 ∉ u ++ [nl] := fun h => hnul (by simp at h ⊢; tauto)
    by_cases hc : c = cr
    · subst hc
      rw [if_pos rfl, show u ++ [nl, 0, 0] = (u ++ [nl]) ++ 0 :: [0] by simp, cstr_append_nul, cstr_of_nul_not_mem hu]
      simp [unCr, List.dropLast_append_of_ne_nil]
    · rw [if_neg hc, show u ++ [c, nl, 0] = (u ++ [c, nl]) ++ 0 :: [] by simp, cstr_append_nul,
        cstr_of_nul_not_mem hnul]
      simp [unCr, hc]
  · rw [List.length_append, List.length_cons, List.length_drop]
    omega

theorem takesFirstLine (hb : below ≠ cr) (hne : text ≠ []) (h0 : 0 ∉ text) (hlen : (text ++ 0 :: r).length < 2 ^ 64) :
    TakesFirstLine below fresh text r := by
  by_cases h : nl ∈ text
  · obtain ⟨a, y, rfl, ha⟩ := List.eq_append_cons_of_mem h
    obtain ⟨line, r', hx, hline, hr'⟩ := extract_line fresh h0 ha (fun _ => hb) hlen
    unfold TakesFirstLine
    rw [firstLine_line ha]
    refine ⟨line, _, hx, hline, hr', List.prefix_append .., fun _ => ?_⟩
    exact ⟨r', by simp⟩
  · unfold TakesFirstLine
    rw [firstLine_piece h]
    refine ⟨_, _, extract_piece hne h0 h, ?_, rfl, List.nil_prefix, fun h => absurd rfl h⟩
    rw [cstr_append_nul, cstr_of_nul_not_mem h0]

end

/-! ## All lines -/

theorem extractLines_text {below : Nat → UInt8} (fresh : Nat → Nat → UInt8) (hb : ∀ n, below n ≠ cr) (text : Bytes) :
    ∀ {r : Bytes}, 0 ∉ text → (text ++ 0 :: r).length < 2 ^ 64 → ∃ lines, lines.flatten = unCrText text ∧
      ∀ n, text.length ≤ n → extractLines below fresh n (text ++ 0 :: r) text.length = some lines := by
  have hend : ∀ n buf, extractLines below fresh n buf 0 = some [] := fun n buf => by cases n <;> simp [extractLines]
  induction text using line_induction nl with
  | piece l hl =>
    intro r h0 hlen
    by_cases hne : l = []
    · subst hne
      exact ⟨[], rfl, fun n _ => hend n _⟩
    refine ⟨[l], by rw [unCrText_piece hl, List.flatten_singleton], fun n hn => ?_⟩
    obtain ⟨n, rfl⟩ : ∃ m, n = m + 1 := ⟨n - 1, by have := List.length_pos_iff.mpr hne; omega⟩
    rw [extractLines, if_neg (by simpa using hne), Int.toNat_natCast, extract_piece hne h0 hl]
    simp only [Option.bind_eq_bind, Option.bind_some, hend]
    rw [cstr_append_nul, cstr_of_nul_not_mem h0]
  | line a y ha ih =>
    intro r h0 hlen
    have hlength : (a ++ nl :: y).length = a.length + (y.length + 1) := by rw [List.length_append, List.length_cons]
    have hline : ∃ line r', queryExtractFromBlockWith (loadFrom (below (a ++ nl :: y).length)) (fresh (a ++ nl :: y).length)
          (a ++ nl :: y ++ 0 :: r) (a ++ nl :: y).length = some (some line, y ++ 0 :: r', (y.length : Int)) ∧
        cstr line = unCr (a ++ [nl]) ∧ (y ++ 0 :: r').length = (a ++ nl :: y ++ 0 :: r).length :=
      extract_line _ h0 ha (fun _ => hb _) hlen
    obtain ⟨line, r', hx, hline, hr'⟩ := hline
    obtain ⟨lines, htext, hlines⟩ := ih (r := r') (nul_not_mem_line h0).2 (by omega)
    refine ⟨unCr (a ++ [nl]) :: lines, by rw [List.flatten_cons, htext, unCrText_line ha], fun n hn => ?_⟩
    obtain ⟨n, rfl⟩ : ∃ m, n = m + 1 := ⟨n - 1, by omega⟩
    rw [extractLines, if_neg (by omega), Int.toNat_natCast, hx]
    simp only [Option.bind_eq_bind, Option.bind_some, hlines n (by omega), hline]

/-- **Extraction.** One call takes the first line of a text in `buf` and leaves the rest, and at most as many calls as
the text has bytes take all of it; the lines together are the text, with `"\r\n"` made `"\n"`. -/
theorem extraction_exact {below : Nat → UInt8} {fresh : Nat → Nat → UInt8} {text r : Bytes} (hb : ∀ n, below n ≠ cr)
    (hne : text ≠ []) (h0 : 0 ∉ text) (hbuf : (text ++ 0 :: r).length = inBufSize) :
    TakesFirstLine (below text.length) (fresh text.length) text r ∧
      ∃ lines, lines.flatten = unCrText text ∧
        ∀ n, text.length ≤ n → extractLines below fresh n (text ++ 0 :: r) text.length = some lines := by
  have hlen : (text ++ 0 :: r).length < 2 ^ 64 := by
    rw [hbuf]
    decide
  exact ⟨takesFirstLine (hb _) hne h0 hlen, extractLines_text fresh hb text h0 hlen⟩

theorem extraction_exact_two_lines :
    TakesFirstLine 0 (fun _ => 0) (ascii "a\r\nb") (List.replicate 1019 0) ∧
      ∃ lines, lines.flatten = unCrText (ascii "a\r\nb") ∧ ∀ n, (ascii "a\r\nb").length ≤ n →
        extractLines (fun _ => 0) (fun _ _ => 0) n (ascii "a\r\nb" ++ 0 :: List.replicate 1019 0)
          (ascii "a\r\nb").length = some lines :=
  @extraction_exact (fun _ => 0) (fun _ _ => 0) (ascii "a\r\nb") (List.replicate 1019 0) (fun _ => by decide) (by decide)
    (by decide) (by rw [List.length_append, List.length_cons, List.length_replicate]; rfl)

/-! ## Lines that are too long -/

def tooLong : Bytes := ascii "Line too long! Good bye...\n"

/-- `session_do_read` takes the exit for a line that does not fit: it returns 0 in ERR, so that the line goes no
further. -/
def RefusesLine (ans : Answers) (w : World) (s : Session) : Prop :=
  ∃ line s', sessionDoRead ans w s = .ok (false, line, w.log (.said s.sd tooLong), s') ∧ s'.state = .err

theorem sessionDoRead_piece {ans : Answers} {s : Session} {bs : Bytes} (w : World) (hread : ans.read = some bs)
    (hne : bs ≠ []) (hfit : s.buf.length + bs.length ≤ inBufSize) (hn : nl ∉ s.buf ++ bs) :
    sessionDoRead ans w s = .ok (decide (s.state ≠ .fin), some (cstr (s.buf ++ bs)), w, { s with buf := [] }) := by
  have hline : strchr (cstr (s.buf ++ bs)) nl = none :=
    strchr_eq_none.mpr fun h => hn (List.IsPrefix.subset ( cstr_prefix _) h)
  obtain ⟨b, bs, rfl⟩ := List.exists_cons_of_ne_nil hne
  unfold sessionDoRead sessionDoReadWith
  rw [hread]
  dsimp only
  rw [if_neg (by omega)]
  have hq : queryExtractFromBuf ans { s with buf := s.buf ++ b :: bs } =
      (some (cstr (s.buf ++ b :: bs)), { s with buf := [] }) := by
    unfold queryExtractFromBuf queryExtractFromBuf2
    rw [if_neg (by simp), hline]
  rw [hq]
  dsimp only
  rw [if_neg (by decide)]
  split
  · rename_i hst
    simp [hst]
  · rename_i hst
    simp [hst]

theorem not_refusesLine (ans : Answers) (w : World) (s : Session) : ¬ RefusesLine ans w s := by
  rintro ⟨line, s', h, -⟩
  have hw : w.log (.said s.sd tooLong) ≠ w := fun h => by
    have := congrArg (fun w : World => w.trace.length) h
    simp at this
  rcases sessionDoRead_cases h with ⟨-, he, -⟩ | ⟨_, _, _, -, -, -, -, he, -⟩
  · exact hw he
  · exact hw he

/-- **Long lines.** The exit for a line that is too long is taken by no read; one that fills the buffer without a
newline is handed over as a line. -/
theorem longLine_never (ans : Answers) (w : World) (s : Session) : ¬ RefusesLine ans w s ∧
    ∀ bs, ans.read = some bs → bs ≠ [] → s.buf.length + bs.length = inBufSize → nl ∉ s.buf ++ bs → s.state ≠ .fin →
      sessionDoRead ans w s = .ok (true, some (cstr (s.buf ++ bs)), w, { s with buf := [] }) := by
  refine ⟨not_refusesLine ans w s, fun bs hread hne hfull hn hst => ?_⟩
  rw [sessionDoRead_piece w hread hne hfull.le hn]
  simp [hst]

def longRead : Answers := { read := some (List.replicate inBufSize 97) }

theorem longRead_handed : (Session.waiting 4 (ascii "bob") 1).buf.length + (longRead.read.getD []).length =
    inBufSize ∧ nl ∉ (Session.waiting 4 (ascii "bob") 1).buf ++ longRead.read.getD [] ∧
    ¬ RefusesLine longRead world₀ (.waiting 4 (ascii "bob") 1) := by
  refine ⟨?_, fun h => ?_, not_refusesLine longRead world₀ (.waiting 4 (ascii "bob") 1)⟩
  · rw [show (Session.waiting 4 (ascii "bob") 1).buf = [] from rfl,
      show longRead.read.getD [] = List.replicate inBufSize 97 from rfl,
      List.length_nil, Nat.zero_add, List.length_replicate]
  exact absurd (List.eq_of_mem_replicate h) (by decide)

/-! ## Lines that are handed over -/

structure HandedOver (line : Bytes) : Prop where
  isLine : IsLine line
  fits : line.length ≤ inBufSize

theorem queryExtractFromBuf2_fits {below : UInt8} {buf line rest : Bytes}
    (h : queryExtractFromBuf2 below buf = some (line, rest)) : line.length ≤ buf.length := by
  unfold queryExtractFromBuf2 at h
  split at h
  · cases h
  split at h
  · cases h
    exact List.IsPrefix.length_le <| cstr_prefix buf
  · rename_i pos hpos
    cases h
    have hlt := (strchr_eq_some hpos).2.2.trans_le <| List.IsPrefix.length_le <| cstr_prefix buf
    have htake : (buf.take (pos + 1)).length ≤ buf.length := List.length_take_le' ..
    have hcr : pos ≠ 0 → (buf.take (pos - 1) ++ [nl]).length ≤ buf.length := fun h => by
      rw [List.length_append, List.length_take, List.length_singleton]
      omega
    split_ifs with h1 h2
    · exact Nat.zero_le _
    · exact htake
    · exact hcr h1
    · exact htake

theorem sessionDoRead_handed {ans : Answers} {w w' : World} {s s' : Session} {res : Bool} {line : Bytes}
    (h : sessionDoRead ans w s = .ok (res, some line, w', s')) : HandedOver line := by
  rcases sessionDoRead_cases h with ⟨-, -, hs, hr⟩ | ⟨bs, l, b, -, -, hfit, hl, -, hq, -⟩
  · rcases hr with hr | hr <;> simp [sessionDoRead, sessionDoReadWith, hr] at h
  · cases hl
    exact ⟨⟨_, _, _, hq⟩, (queryExtractFromBuf2_fits hq).trans (by rwa [List.length_append])⟩

theorem HandedOver.nul_not_mem {line : Bytes} (h : HandedOver line) : 0 ∉ line := by
  obtain ⟨t, rfl | rfl, h0, -⟩ := h.isLine.text
  · exact h0
  · simpa using ⟨h0, by decide⟩

end BbsServer
