import BbsServer.Lib.Block
import BbsServer.MemorySound

/-!
# The line buffer in memory

`session_do_read` and `query_extract_from_buf_2` on the memory of `buf` and of the allocated line, an access outside
either of which is `none`. Three go outside (`buffer_bounds_iff`): the NUL behind a read that fails or that fills the
buffer, and the test for `'\r'` on an empty line.
-/

namespace BbsServer

open CStr

/-- `query_extract_from_buf_2`: the line, `buf` and `buf_used` afterwards. `fresh` is what `malloc` returns. -/
def queryExtractFromBlock (fresh : Nat → UInt8) (buf : Bytes) (bufUsed : Int) : Option (Option Bytes × Bytes × Int) :=
  if bufUsed > 0 then do
    match ← Block.strchr nl buf with
    | none =>
      let line := (List.range (bufUsed.toNat + 1)).map fresh
      let line ← Block.strncpy line buf bufUsed.toNat
      let line ← Block.store line bufUsed 0
      some (some line, buf, 0)
    | some pos =>
      let line := (List.range (pos + 2)).map fresh
      let line ← Block.strncpy line buf (pos + 1)
      let pos := pos + 1
      let line ← Block.store line pos 0
      let bufUsed := bufUsed - pos
      -- `pos` is not 0 any more
      let buf ← Block.memmove buf 0 pos (sizeT bufUsed)
      let buf ← Block.store buf bufUsed 0
      if (← Block.load line (pos - 2)) = cr then
        let line ← Block.store line (pos - 2) (← Block.load line (pos - 1))
        let pos := pos - 1
        let line ← Block.store line pos 0
        some (some line, buf, bufUsed)
      else some (some line, buf, bufUsed)
  else some (none, buf, bufUsed)

def sessionDoReadBlock (fresh : Nat → UInt8) (buf : Bytes) (bufUsed : Nat) (answer : Option Bytes) :
    Option (Option Bytes × Bytes × Int) := do
  let bufp := bufUsed
  let rc := readLength answer
  let buf ← Block.fill buf bufp (answer.getD [])
  let buf ← Block.store buf (bufp + rc) 0
  if rc ≤ 0 then some (none, buf, bufUsed) else queryExtractFromBlock fresh buf (bufUsed + rc)

/-- The read does not fail on an empty buffer, does not fill the buffer, and no newline comes first. -/
def ReadInBounds (buf : Bytes) (bufUsed : Nat) : Option Bytes → Prop
  | none => 0 < bufUsed
  | some bs => bufUsed + bs.length < inBufSize ∧ (bs ≠ [] → (buf.take bufUsed ++ bs).head? ≠ some nl)

/-- A NUL or a newline is in the buffer, and a newline before the first NUL is neither its first byte nor behind those
in use. -/
def ExtractInBounds (buf : Bytes) (bufUsed : Nat) : Prop :=
  bufUsed = 0 ∨ (nl ∈ buf ∨ 0 ∈ buf) ∧ ∀ pos ∈ strchr (cstr buf) nl, 0 < pos ∧ pos < bufUsed

section
variable {fresh : Nat → UInt8} {buf : Bytes} {used pos : Nat}

theorem extract_noNewline (hu : 0 < used) (h : strchr (cstr buf) nl = none) (h0 : nl ∈ buf ∨ 0 ∈ buf)
    (hle : used ≤ buf.length) : queryExtractFromBlock fresh buf used =
      some (some (cstr (buf.take used) ++ List.replicate (used - (cstr (buf.take used)).length) 0 ++ [0]), buf, 0) := by
  have hcopy := Block.strncpy_terminated (m := (List.range (used + 1)).map fresh) (.inl hle) (by simp)
  obtain ⟨line, hline, hstore⟩ := Option.bind_eq_some_iff.mp hcopy
  rw [queryExtractFromBlock, if_pos (by omega), Block.strchr_eq (by decide), if_pos h0, h]
  simp only [Int.toNat_natCast, Option.bind_eq_bind, Option.bind_some]
  rw [hline, Option.bind_some, hstore, Option.bind_some]

theorem move_rest (p m e : Bytes) (y : UInt8) : ∃ moved,
    Block.memmove (p ++ (m ++ y :: e)) 0 p.length m.length = some moved ∧
    Block.store moved m.length 0 = some (m ++ 0 :: (p ++ (m ++ y :: e)).drop (m.length + 1)) := by
  have hlen : (p ++ (m ++ y :: e)).length = p.length + (m.length + (e.length + 1)) := by
    rw [List.length_append, List.length_append, List.length_cons]
  have hlt : m.length < (p ++ (m ++ y :: e)).length := by omega
  refine ⟨m ++ (p ++ (m ++ y :: e)).drop m.length, ?_, ?_⟩
  · rw [Block.memmove, if_pos (by omega), List.drop_left, List.take_left]
    have := Block.fill_append (a := []) (m := (p ++ (m ++ y :: e)).take m.length)
      (b := (p ++ (m ++ y :: e)).drop m.length)
      (t := m) rfl (by rw [List.length_take]; omega)
    rwa [List.nil_append, List.take_append_drop] at this
  · rw [List.drop_eq_getElem_cons hlt]
    exact Block.store_mid

theorem extract_newline {a m e : Bytes} {x y : UInt8} (hbuf : buf = a ++ x :: nl :: (m ++ y :: e))
    (hpos : strchr (cstr buf) nl = some (a.length + 1)) (h0 : 0 ∉ a ++ [x, nl]) (hlen : buf.length < 2 ^ 64) :
    queryExtractFromBlock fresh buf (a.length + 2 + m.length : Nat) =
      some (some (if x = cr then a ++ [nl, 0, 0] else a ++ [x, nl, 0]),
        m ++ 0 :: buf.drop (m.length + 1), (m.length : Int)) := by
  have hlength : buf.length = a.length + 2 + m.length + (e.length + 1) := by rw [hbuf]; simp; omega
  have htake : buf.take (a.length + 2) = a ++ [x, nl] := by
    rw [hbuf, show a ++ x :: nl :: (m ++ y :: e) = (a ++ [x, nl]) ++ (m ++ y :: e) by simp]
    exact List.take_left' (by simp)
  have hcopy := Block.strncpy_terminated (m := (List.range (a.length + 1 + 2)).map fresh) (t := buf)
    (n := a.length + 2) (.inl (by omega)) (by simp)
  rw [htake, cstr_of_nul_not_mem h0, List.length_append, List.length_cons, List.length_singleton, Nat.sub_self,
    List.replicate_zero, List.append_nil, List.append_assoc, List.cons_append, List.cons_append, List.nil_append] at hcopy
  obtain ⟨line, hline, hstore⟩ := Option.bind_eq_some_iff.mp hcopy
  obtain ⟨moved, hmove, hnul⟩ := move_rest (a ++ [x, nl]) m e y
  rw [show (a ++ [x, nl]).length = a.length + 2 by simp,
    show a ++ [x, nl] ++ (m ++ y :: e) = buf by rw [hbuf]; simp] at hmove
  rw [show a ++ [x, nl] ++ (m ++ y :: e) = buf by rw [hbuf]; simp] at hnul
  have hnl : nl ∈ buf := by rw [hbuf]; simp
  rw [queryExtractFromBlock, if_pos (by omega), Block.strchr_eq (by decide), if_pos (.inl hnl), hpos]
  simp only [Option.bind_eq_bind, Option.bind_some]
  rw [hline, Option.bind_some, show ((a.length + 1 + 1 : Nat) : Int) = (a.length + 2 : Nat) from rfl, hstore,
    Option.bind_some]
  have hused : ((a.length + 2 + m.length : Nat) : Int) - (a.length + 2 : Nat) = m.length := by omega
  rw [hused, sizeT_of_lt (by omega), hmove, Option.bind_some, hnul, Option.bind_some,
    show ((a.length + 2 : Nat) : Int) - 2 = a.length by omega, Block.load_mid, Option.bind_some]
  by_cases hx : x = cr
  · have hnext : Block.load (a ++ [x, nl, 0]) ((a.length + 2 : Nat) - 1) = some nl := by
      rw [show ((a.length + 2 : Nat) : Int) - 1 = (a ++ [x]).length by simp; omega,
        show a ++ [x, nl, 0] = (a ++ [x]) ++ nl :: [0] by simp]
      exact Block.load_mid
    have hlast : Block.store (a ++ [nl, nl, 0]) (a.length + 1 + 1 - 1 : Nat) 0 = some (a ++ [nl, 0, 0]) := by
      rw [show a.length + 1 + 1 - 1 = (a ++ [nl]).length by simp,
        show a ++ [nl, nl, 0] = (a ++ [nl]) ++ nl :: [0] by simp,
        Block.store_mid, List.append_assoc]
      rfl
    rw [if_pos hx, hnext, Option.bind_some, Block.store_mid, Option.bind_some, hlast, Option.bind_some, if_pos hx]
  · rw [if_neg hx, if_neg hx]

theorem newline_split (h : strchr (cstr buf) nl = some pos) : ∃ c r, buf = c ++ nl :: r ∧ c.length = pos ∧ 0 ∉ c := by
  obtain ⟨hs, -, hlt⟩ := strchr_eq_some h
  obtain ⟨r, hr⟩ := cstr_prefix buf
  refine ⟨(cstr buf).take pos, (cstr buf).drop (pos + 1) ++ r, ?_, by rw [List.length_take]; omega, fun h => ?_⟩
  · rw [← List.cons_append, ← List.append_assoc, ← hs, hr]
  · exact nul_not_mem_cstr buf (List.mem_of_mem_take h)

theorem newline_inside (h : strchr (cstr buf) nl = some pos) (h0 : 0 < pos) (hu : pos < used)
    (hle : used < buf.length) :
    ∃ a x m y e, buf = a ++ x :: nl :: (m ++ y :: e) ∧ pos = a.length + 1 ∧ used = a.length + 2 + m.length ∧
      0 ∉ a ++ [x, nl] := by
  obtain ⟨c, r, rfl, rfl, hc⟩ := newline_split h
  obtain ⟨a, x, rfl⟩ := (List.eq_nil_or_concat c).resolve_left (by rintro rfl; simp at h0)
  rw [List.concat_eq_append] at *
  simp only [List.length_append, List.length_cons, List.length_nil] at hu hle
  refine ⟨a, x, r.take (used - (a.length + 2)), r[used - (a.length + 2)], r.drop (used - (a.length + 2) + 1),
    ?_, ?_, ?_, ?_⟩
  · rw [← List.drop_eq_getElem_cons, List.take_append_drop, List.append_assoc]
    rfl
  · simp
  · rw [List.length_take]; omega
  · rw [show a ++ [x, nl] = (a ++ [x]) ++ [nl] by simp]
    exact fun h => (List.mem_append.mp h).elim hc (by decide)

theorem extract_isSome_iff (hle : used < buf.length) (hlen : buf.length < 2 ^ 64) :
    (queryExtractFromBlock fresh buf used).isSome ↔ ExtractInBounds buf used := by
  unfold ExtractInBounds
  rcases Nat.eq_zero_or_pos used with rfl | hu
  · simp [queryExtractFromBlock]
  simp only [show used ≠ 0 by omega, false_or]
  by_cases hmem : nl ∈ buf ∨ 0 ∈ buf
  swap
  · rw [queryExtractFromBlock, if_pos (by omega), Block.strchr_eq (by decide), if_neg hmem]
    simp [hmem]
  cases hpos : strchr (cstr buf) nl with
  | none => simp [extract_noNewline hu hpos hmem hle.le, hmem]
  | some pos =>
    simp only [hmem, true_and, Option.mem_def, Option.some.injEq, forall_eq']
    by_cases hin : 0 < pos ∧ pos < used
    · obtain ⟨a, x, m, y, e, hbuf, rfl, rfl, h0⟩ := newline_inside hpos hin.1 hin.2 hle
      rw [extract_newline hbuf hpos h0 hlen]
      simpa using hin
    · rw [queryExtractFromBlock, if_pos (by omega), Block.strchr_eq (by decide), if_pos hmem, hpos]
      have hlt : pos < buf.length := (strchr_eq_some hpos).2.2.trans_le (List.IsPrefix.length_le <| cstr_prefix buf)
      rcases Nat.eq_zero_or_pos pos with rfl | h0
      · have hload : ∀ line : Bytes, Block.load line (((0 + 1 : Nat) : Int) - 2) = none :=
          fun line => Block.load_neg (by decide)
        simp only [Option.bind_eq_bind, Option.bind_some, hload, Option.bind_none, Option.bind_fun_none]
        simp
      · have hmove : Block.memmove buf 0 (pos + 1) (sizeT (used - (pos + 1 : Nat))) = none :=
          if_neg (by unfold sizeT; omega)
        simp only [Option.bind_eq_bind, Option.bind_some, hmove, Option.bind_none, Option.bind_fun_none]
        simp [hin]

/-- In bounds, the blocks hold the line and the rest that `query_extract_from_buf_2` gives. -/
theorem extract_value (below : UInt8) {line buf' : Bytes} {used' : Int} (hle : used < buf.length)
    (hlen : buf.length < 2 ^ 64) (h : queryExtractFromBlock fresh buf used = some (some line, buf', used')) :
    queryExtractFromMem below buf used = some (cstr line, buf'.take used'.toNat) := by
  have hin := (extract_isSome_iff hle hlen).mp (by rw [h]; rfl)
  have hu : used ≠ 0 := by
    rintro rfl
    simp [queryExtractFromBlock] at h
  obtain ⟨hmem, hin⟩ := hin.resolve_left hu
  unfold queryExtractFromMem
  rw [if_neg hu]
  cases hpos : strchr (cstr buf) nl with
  | none =>
    rw [extract_noNewline (by omega) hpos hmem hle.le] at h
    cases h
    rw [List.append_assoc, ← List.replicate_succ', List.replicate_succ, cstr_append_nul,
      cstr_of_nul_not_mem (nul_not_mem_cstr _)]
    rfl
  | some pos =>
    obtain ⟨h0, hlt⟩ := hin pos hpos
    obtain ⟨a, x, m, y, e, hbuf, rfl, rfl, hnul⟩ := newline_inside hpos h0 hlt hle
    rw [extract_newline hbuf hpos hnul hlen] at h
    cases h
    have hline : cstr (if x = cr then a ++ [nl, 0, 0] else a ++ [x, nl, 0]) =
        if x = cr then a ++ [nl] else a ++ [x, nl] := by
      split
      · rw [show a ++ [nl, 0, 0] = (a ++ [nl]) ++ 0 :: [0] by simp, cstr_append_nul, cstr_of_nul_not_mem]
        simp only [List.mem_append, List.mem_cons, not_or] at hnul ⊢
        exact ⟨hnul.1, hnul.2.2⟩
      · rw [show a ++ [x, nl, 0] = (a ++ [x, nl]) ++ 0 :: [] by simp, cstr_append_nul, cstr_of_nul_not_mem hnul]
    have hsplit : buf = (a ++ [x, nl]) ++ (m ++ y :: e) := by rw [hbuf]; simp
    have htake : buf.take (a.length + 1 + 1) = a ++ [x, nl] := by rw [hsplit]; exact List.take_left' (by simp)
    have hrest : (buf.drop (a.length + 1 + 1)).take (a.length + 2 + m.length - (a.length + 1 + 1)) = m := by
      rw [hsplit, List.drop_left' (by simp), List.take_left' (by omega)]
    have hget : buf.getD (a.length + 1 - 1) 0 = x := by rw [hbuf]; simp
    dsimp only
    rw [hline, if_neg (Nat.succ_ne_zero a.length), if_neg (Nat.succ_ne_zero a.length), hget, htake, hrest,
      Int.toNat_natCast,
      List.take_left, show buf.take (a.length + 1 - 1) = a by rw [hbuf]; exact List.take_left' rfl]

/-! ## Reading -/

theorem extractInBounds_terminated {b r : Bytes} : ExtractInBounds (b ++ 0 :: r) b.length ↔ b.head? ≠ some nl := by
  unfold ExtractInBounds
  rw [cstr_append_nul]
  cases b with
  | nil => simp
  | cons x b =>
    simp only [List.length_cons, Nat.succ_ne_zero, List.mem_append, List.mem_cons, true_or, or_true,
      true_and, false_or, List.head?_cons, ne_eq, Option.some.injEq]
    constructor
    · rintro h rfl
      have hfirst : 0 < 0 ∧ _ := h 0 (strchr_append (a := []) (by simp))
      exact absurd hfirst.1 (Nat.lt_irrefl 0)
    · intro hx pos hpos
      obtain ⟨c, r', hb, rfl, -⟩ := newline_split hpos
      have hne : c ≠ [] := by
        rintro rfl
        exact hx (List.cons.inj hb).1
      refine ⟨List.length_pos_iff.mpr hne, ?_⟩
      have := congrArg List.length hb
      simp only [List.length_cons, List.length_append] at this
      omega

theorem read_stored (buf : Bytes) {bs : Bytes} (h : used + bs.length < buf.length) :
    ∃ buf₁, Block.fill buf used bs = some buf₁ ∧
    Block.store buf₁ (used + bs.length : Nat) 0 =
    some ((buf.take used ++ bs) ++ 0 :: buf.drop (used + bs.length + 1)) := by
  refine ⟨buf.take used ++ bs ++ buf.drop (used + bs.length), if_pos h.le, ?_⟩
  obtain ⟨x, hx⟩ : ∃ x, buf.drop (used + bs.length) = x :: buf.drop (used + bs.length + 1) :=
    ⟨_, List.drop_eq_getElem_cons h⟩
  have hlen : (buf.take used ++ bs).length = used + bs.length := by rw [List.length_append, List.length_take]; omega
  rw [hx, ← hlen]
  exact Block.store_mid

theorem read_full (buf : Bytes) {bs : Bytes} (h : used + bs.length = buf.length) :
    ∃ buf₁, Block.fill buf used bs = some buf₁ ∧
    Block.store buf₁ (used + bs.length : Nat) 0 = none := by
  refine ⟨buf.take used ++ bs ++ buf.drop (used + bs.length), if_pos h.le, Block.store_eq_none (.inr ?_)⟩
  simp only [List.length_append, List.length_take, List.length_drop]
  omega

theorem sessionDoReadBlock_eq {bs : Bytes} (hne : bs ≠ []) (h : used + bs.length < buf.length) :
    sessionDoReadBlock fresh buf used (some bs) = queryExtractFromBlock fresh
      ((buf.take used ++ bs) ++ 0 :: buf.drop (used + bs.length + 1)) (used + bs.length : Nat) := by
  obtain ⟨buf₁, hfill, hstore⟩ := read_stored buf h
  have hpos := List.length_pos_iff.mpr hne
  have hlength : readLength (some bs) = bs.length := rfl
  simp only [sessionDoReadBlock, Option.getD_some, Option.bind_eq_bind, hlength]
  rw [hfill, Option.bind_some, ← Int.natCast_add, hstore, Option.bind_some, if_neg (by omega)]

/-- **Reading**, where the accesses are in bounds, gives the line and the rest of `session_do_read`. -/
theorem sessionDoReadBlock_line {ans : Answers} {s : Session} {bs line buf' : Bytes} {used' : Int}
    (hr : ans.read = some bs)
    (hne : bs ≠ []) (hb : s.buf = buf.take used) (hle : used ≤ buf.length) (h : used + bs.length < buf.length)
    (hlen : buf.length < 2 ^ 64) (hread : sessionDoReadBlock fresh buf used (some bs) = some (some line, buf', used')) :
    lineOf ans s = some (cstr line, buf'.take used'.toNat) := by
  rw [sessionDoReadBlock_eq hne h] at hread
  have hlength : (buf.take used ++ bs).length = used + bs.length := by
    rw [List.length_append, List.length_take]; omega
  have hvalue := extract_value (ans.below (s.buf.length + bs.length)) (by simp; omega) (by simp; omega) hread
  rw [← hlength, queryExtractFromMem_eq] at hvalue
  rw [lineOf_eq hr hne, hb]
  rwa [hb] at hvalue

end

/-- **Bounds.** The accesses of `session_do_read` are inside `buf` and the line exactly if the read does not fail
on an empty buffer, does not fill the buffer, and does not leave a newline in front. Those of
`query_extract_from_buf` are exactly if a NUL or a newline is there, and the newline is neither the first byte nor
behind those in use. -/
theorem buffer_bounds_iff {fresh : Nat → UInt8} {buf : Bytes} {used : Nat} (hbuf : buf.length = inBufSize)
    (hused : used < inBufSize) :
    (∀ answer : Option Bytes, (answer.getD []).length ≤ inBufSize - used →
      ((sessionDoReadBlock fresh buf used answer).isSome ↔ ReadInBounds buf used answer)) ∧
    ((queryExtractFromBlock fresh buf used).isSome ↔ ExtractInBounds buf used) := by
  have hsize : inBufSize < 2 ^ 64 := by decide
  refine ⟨fun answer hanswer => ?_, extract_isSome_iff (by omega) (by omega)⟩
  cases answer with
  | none =>
    have hfill : Block.fill buf used [] = some buf := by
      rw [Block.fill, List.length_nil, if_pos (by omega)]
      simp
    simp only [sessionDoReadBlock, Option.getD_none, readLength, Option.bind_eq_bind, ReadInBounds, hfill,
      Option.bind_some]
    rcases Nat.eq_zero_or_pos used with rfl | hpos
    · rw [Block.store_eq_none (.inl (by decide))]
      simp
    · rw [show (used : Int) + -1 = (used - 1 : Nat) by omega, Block.store_nat (by omega)]
      simp [hpos]
  | some bs =>
    simp only [Option.getD_some] at hanswer
    unfold ReadInBounds
    by_cases hfit : used + bs.length < inBufSize
    swap
    · obtain ⟨buf₁, hfill, hstore⟩ := read_full buf (show used + bs.length = buf.length by omega)
      simp only [sessionDoReadBlock, Option.getD_some, readLength, Option.bind_eq_bind, hfill, Option.bind_some]
      rw [← Int.natCast_add, hstore]
      simp [hfit]
    simp only [hfit, true_and]
    by_cases hne : bs = []
    · subst hne
      obtain ⟨buf₁, hfill, hstore⟩ := read_stored buf
        (show used + ([] : Bytes).length < buf.length by simpa [hbuf] using hfit)
      simp only [sessionDoReadBlock, Option.getD_some, readLength, Option.bind_eq_bind, hfill, Option.bind_some]
      rw [← Int.natCast_add, hstore]
      simp
    · have hlength : (buf.take used ++ bs).length = used + bs.length := by
        rw [List.length_append, List.length_take]; omega
      rw [sessionDoReadBlock_eq hne (by omega), extract_isSome_iff (by simp; omega) (by simp; omega), ← hlength,
        extractInBounds_terminated]
      simp [hne]

/-- A read that fails on an empty buffer stores a NUL in front of `buf`. -/
theorem read_fails_below : ¬ (sessionDoReadBlock (fun _ => 0) (List.replicate inBufSize 0) 0 none).isSome := by
  decide +kernel

def nearlyFull : Bytes := List.replicate (inBufSize - 2) 97 ++ [0, 0]

theorem buffer_bounds_iff_nearlyFull : (sessionDoReadBlock (fun _ => 0) nearlyFull (inBufSize - 2) (some [nl])).isSome ∧
    ¬ (sessionDoReadBlock (fun _ => 0) nearlyFull (inBufSize - 2) (some [97, nl])).isSome ∧
    (queryExtractFromBlock (fun _ => 0) nearlyFull (inBufSize - 2 : Nat)).isSome := by
  have hnl : strchr (cstr nearlyFull) nl = none := by decide +kernel
  obtain ⟨hread, hextract⟩ := @buffer_bounds_iff (fun _ => 0) nearlyFull (inBufSize - 2) (by decide +kernel)
    (by decide)
  refine ⟨(hread _ (by decide)).mpr ⟨by decide, fun _ => by decide +kernel⟩, fun h => ?_,
    hextract.mpr (.inr ⟨.inr (by simp [nearlyFull]), by simp [hnl]⟩)⟩
  exact absurd ((hread _ (by decide)).mp h).1 (by decide)

end BbsServer
