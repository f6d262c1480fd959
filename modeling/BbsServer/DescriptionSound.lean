import BbsServer.FramingSound

/-!
# The description

`file_upload_description` over the reads of a text and its end marker. The marker is looked for in one line at a
time and cut off with the byte behind it, so it has to come in one read with its newline, and the text comes out
whole exactly if no read parts a `"\r\n"` and no empty line is taken for one with a `'\r'` (`description_iff`).
-/

namespace BbsServer

open CStr Lines

def unCrText (text : Bytes) : Bytes := dropBefore cr nl text

def readOf (ans : Answers) : Bytes := ans.read.getD []

/-- The steps of OP_UPLOAD_DESCRIPTION until one returns 1: the session then, and the reads that are left. -/
def describe : List Answers → World → Session → M (Option (Session × List Answers))
  | [], _, _ => .ok none
  | ans :: reads, w, s => do
    let (res, line, w, s) ← sessionDoRead ans w s
    if res then
      let (done, s) ← fileUploadDescription ans s (← deref line)
      if done then .ok (some (s, reads)) else describe reads w s
    else .ok none

/-- A step returns 1 when the marker has been received, and the description is the text. -/
def Assembled (w : World) (s : Session) (reads : List Answers) (text : Bytes) : Prop :=
  ∃ s' left f, describe reads w s = .ok (some (s', left)) ∧ (left.map readOf).flatten <:+ [nl] ∧
    s'.file = some f ∧ f.description = some (unCrText text)

/-- No empty line of the read stands where the byte below the line's allocation is a `'\r'`. -/
def KeepsNewlines (below : Nat → UInt8) (bs : Bytes) : Prop :=
  ∀ a y, bs = a ++ nl :: y → Terminated nl a → below (y.length + 1) ≠ cr

/-- The marker and its newline are in the last read, no read ends inside a `"\r\n"`, and every newline is kept. -/
structure CleanReads (reads : List Answers) : Prop where
  marker : ∀ ans ∈ reads.getLast?, endMarker.length < (readOf ans).length
  crlf : (reads.map readOf).IsChain fun a b => ¬ Parts cr nl a b
  newlines : ∀ ans ∈ reads, KeepsNewlines ans.below (readOf ans)

/-! ## The lines of a read -/

def linesOf (below : Nat → UInt8) (buf : Bytes) : List Bytes :=
  match _h : queryExtractFromBuf2 (below buf.length) buf with
  | none => []
  | some (line, rest) => line :: linesOf below rest
termination_by buf.length
decreasing_by exact queryExtractFromBuf2_length ‹_›

def lineAt (below : UInt8) (a : Bytes) : Bytes := if a = [] ∧ below = cr then [] else unCr (a ++ [nl])

/-- What the buffer makes of a text: some `"\r\n"` merged, some newlines lost. -/
inductive Merged : Bytes → Bytes → Prop
  | nil : Merged [] []
  | byte (c : UInt8) {t x : Bytes} : Merged t x → Merged (c :: t) (c :: x)
  | crlf {t x : Bytes} : Merged t x → Merged (cr :: nl :: t) (nl :: x)
  | lost {t x : Bytes} : Merged t x → Merged (nl :: t) x

section
variable {below : Nat → UInt8} {a b t x y z buf line rest : Bytes}

theorem linesOf_nil : linesOf below [] = [] := by
  rw [linesOf]
  simp [queryExtractFromBuf2]

theorem linesOf_cons (h : queryExtractFromBuf2 (below buf.length) buf = some (line, rest)) :
    linesOf below buf = line :: linesOf below rest := by
  rw [linesOf]
  split
  · rename_i h'
    rw [h] at h'
    cases h'
  · rename_i h'
    rw [h] at h'
    cases h'
    rfl

theorem linesOf_piece (h0 : 0 ∉ buf) (hn : nl ∉ buf) (hne : buf ≠ []) : linesOf below buf = [buf] := by
  rw [linesOf_cons (queryExtractFromBuf2_piece h0 hn hne), linesOf_nil]

theorem linesOf_line (h0 : 0 ∉ a ++ nl :: y) (ha : nl ∉ a) :
    linesOf below (a ++ nl :: y) = lineAt (below (y.length + 1)) a :: linesOf below y := by
  unfold lineAt
  by_cases h : a = [] ∧ below (y.length + 1) = cr
  · obtain ⟨rfl, hb⟩ := h
    rw [if_pos ⟨rfl, hb⟩]
    refine linesOf_cons ?_
    rw [List.nil_append, List.length_cons, hb]
    exact queryExtractFromBuf2_lost h0
  · rw [if_neg h]
    refine linesOf_cons (queryExtractFromBuf2_line h0 ha fun he hb => h ⟨he, ?_⟩)
    rw [he] at hb
    simpa using hb

/-! ## Merging -/

theorem Merged.refl : ∀ t : Bytes, Merged t t
  | [] => .nil
  | c :: t => .byte c (.refl t)

theorem Merged.append (h : Merged a x) (h' : Merged b y) : Merged (a ++ b) (x ++ y) := by
  induction h with
  | nil => exact h'
  | byte c _ ih => exact .byte c ih
  | crlf _ ih => exact .crlf ih
  | lost _ ih => exact .lost ih

theorem Merged.count_le (h : Merged t x) : x.count nl ≤ t.count nl := by
  induction h with
  | nil => exact Nat.le_refl _
  | byte c _ ih => rw [List.count_cons, List.count_cons]; omega
  | crlf _ ih => rw [List.count_cons_self, List.count_cons_of_ne (by decide), List.count_cons_self]; omega
  | lost _ ih => rw [List.count_cons_self]; omega

/-- A text whose newlines are all kept is not one byte longer than it should be. -/
theorem Merged.ne_snoc (h : Merged t x) (hc : x.count nl = t.count nl) (c : UInt8) : x ≠ unCrText t ++ [c] := by
  induction h with
  | nil => simp [unCrText, dropBefore]
  | byte d h ih =>
    rename_i t x
    rw [List.count_cons, List.count_cons, Nat.add_right_cancel_iff] at hc
    rw [unCrText, dropBefore]
    split
    · rename_i hd
      obtain ⟨rfl, hhead⟩ := hd
      obtain ⟨t', rfl⟩ := List.head?_eq_some_iff.mp hhead
      rw [dropBefore, if_neg (fun h => absurd h.1 (by decide))]
      intro e
      exact absurd (List.cons.inj e).1 (by decide)
    · intro e
      exact ih hc (List.cons.inj e).2
  | crlf h ih =>
    rw [List.count_cons_self, List.count_cons_of_ne (by decide), List.count_cons_self, Nat.add_right_cancel_iff] at hc
    rw [unCrText, dropBefore, if_pos ⟨rfl, rfl⟩, dropBefore, if_neg (fun h => absurd h.1 (by decide))]
    intro e
    exact ih hc (List.cons.inj e).2
  | lost h ih =>
    rw [List.count_cons_self] at hc
    have := h.count_le
    omega

theorem unCrText_append (h : ¬ Parts cr nl a b) : unCrText (a ++ b) = unCrText a ++ unCrText b := dropBefore_append h

theorem unCrText_piece (h : nl ∉ t) : unCrText t = t := dropBefore_of_not_mem h

theorem unCrText_line (ha : nl ∉ a) : unCrText (a ++ nl :: y) = unCr (a ++ [nl]) ++ unCrText y := by
  have hline : unCrText (a ++ [nl]) = unCr (a ++ [nl]) := by
    rcases List.eq_nil_or_concat a with rfl | ⟨u, c, rfl⟩
    · rfl
    rw [List.concat_eq_append] at ha ⊢
    by_cases hc : c = cr
    · subst hc
      rw [List.append_assoc, unCrText_append (fun h => absurd h.2 (by decide)),
        unCrText_piece fun h => ha (List.mem_append_left _ h)]
      simp [unCr, unCrText, dropBefore, List.dropLast_append_of_ne_nil]
    · rw [unCrText_append (fun h => hc (by simpa using h.1)), unCrText_piece ha]
      simp [unCr, unCrText, dropBefore, hc]
  rw [← hline, ← unCrText_append fun h => absurd h.1 (by simp; decide), List.append_assoc]
  rfl

theorem merged_unCr (ha : nl ∉ a) : Merged (a ++ [nl]) (unCr (a ++ [nl])) := by
  rcases List.eq_nil_or_concat a with rfl | ⟨u, c, rfl⟩
  · exact .refl _
  rw [List.concat_eq_append]
  by_cases hc : c = cr
  · subst hc
    have hline : unCr (u ++ [cr] ++ [nl]) = u ++ [nl] := by
      simp [unCr, List.dropLast_append_of_ne_nil]
    rw [hline, List.append_assoc]
    exact (Merged.refl u).append (.crlf .nil)
  · have hline : unCr (u ++ [c] ++ [nl]) = u ++ [c] ++ [nl] := by simp [unCr, hc]
    rw [hline]
    exact .refl _

theorem merged_line (ha : nl ∉ a) (b : UInt8) : Merged (a ++ [nl]) (lineAt b a) := by
  unfold lineAt
  split
  · rename_i h
    rw [h.1]
    exact .lost .nil
  · exact merged_unCr ha

theorem infix_of_snoc {m : Bytes} (hm : nl ∉ m) (h : m <:+: a ++ [nl]) : m <:+: a := by
  rcases List.infix_concat_iff.mp h with h | h
  · rcases List.suffix_concat_iff.mp h with rfl | ⟨t, rfl, -⟩
    · exact List.nil_infix
    · exact absurd (by simp) hm
  · exact h

theorem infix_of_line {m : Bytes} {b : UInt8} (hm : nl ∉ m) (hne : m ≠ []) (h : m <:+: lineAt b a) : m <:+: a := by
  unfold lineAt at h
  split at h
  · exact absurd (List.infix_nil.mp h) hne
  · unfold unCr at h
    split at h
    · rw [List.dropLast_concat] at h
      exact (infix_of_snoc hm h).trans (List.dropLast_prefix a).isInfix
    · exact infix_of_snoc hm h

/-! ## A read without a marker -/

theorem keepsNewlines_line (ha : nl ∉ a) : KeepsNewlines below (a ++ nl :: y) ↔
    (a = [] → below (y.length + 1) ≠ cr) ∧ KeepsNewlines below y := by
  constructor
  · refine fun h => ⟨fun he => h a y rfl (.inl he), fun b z hy hb => h (a ++ nl :: b) z (by simp [hy]) ?_⟩
    rcases hb with rfl | ⟨b, rfl⟩
    · exact .inr ⟨a, rfl⟩
    · exact .inr ⟨a ++ nl :: b, by simp⟩
  · rintro ⟨hfirst, hrest⟩ b z he hb
    rcases List.append_eq_append_iff.mp he with ⟨c, rfl, hc⟩ | ⟨c, rfl, hc⟩
    · cases c with
      | nil =>
        obtain rfl : y = z := (List.cons.inj hc).2
        rw [List.append_nil] at hb
        exact hfirst (hb.eq_nil ha)
      | cons c₁ c =>
        rw [List.cons_append] at hc
        obtain ⟨rfl, hy⟩ := List.cons.inj hc
        exact hrest c z hy hb.tail
    · cases c with
      | nil =>
        obtain rfl : z = y := (List.cons.inj hc).2
        rw [List.append_nil] at ha
        exact hfirst (by rw [List.append_nil]; exact hb.eq_nil ha)
      | cons c₁ c =>
        rw [List.cons_append] at hc
        obtain ⟨rfl, -⟩ := List.cons.inj hc
        exact absurd (by simp) ha

theorem nul_not_mem_line (h0 : 0 ∉ a ++ nl :: y) : 0 ∉ a ∧ 0 ∉ y := by
  rw [List.mem_append, List.mem_cons, not_or, not_or] at h0
  exact ⟨h0.1, h0.2.2⟩

theorem linesOf_merged (below : Nat → UInt8) (buf : Bytes) (h0 : 0 ∉ buf) :
    Merged buf (linesOf below buf).flatten := by
  induction buf using line_induction nl with
  | piece l hl =>
    by_cases hne : l = []
    · subst hne
      rw [linesOf_nil]
      exact .nil
    · rw [linesOf_piece h0 hl hne, List.flatten_singleton]
      exact .refl l
  | line a y ha ih =>
    rw [linesOf_line h0 ha, List.flatten_cons, show a ++ nl :: y = (a ++ [nl]) ++ y by simp]
    exact (merged_line ha _).append (ih (nul_not_mem_line h0).2)

/-- The lines together are the text of the read exactly if every newline is kept, and else miss one. -/
theorem linesOf_kept (buf : Bytes) (h0 : 0 ∉ buf) :
    (KeepsNewlines below buf → (linesOf below buf).flatten = unCrText buf) ∧
    (¬ KeepsNewlines below buf → (linesOf below buf).flatten.count nl < buf.count nl) := by
  induction buf using line_induction nl with
  | piece l hl =>
    refine ⟨fun _ => ?_, fun h => absurd (fun a y hb _ => absurd (by rw [hb]; simp) hl) h⟩
    rw [unCrText_piece hl]
    by_cases hne : l = []
    · rw [hne, linesOf_nil]
      rfl
    · rw [linesOf_piece h0 hl hne, List.flatten_singleton]
  | line a y ha ih =>
    obtain ⟨hkeep, hlost⟩ := ih (nul_not_mem_line h0).2
    have hle := (linesOf_merged below y (nul_not_mem_line h0).2).count_le
    rw [keepsNewlines_line ha, linesOf_line h0 ha, List.flatten_cons, unCrText_line ha, lineAt]
    by_cases hempty : a = [] ∧ below (y.length + 1) = cr
    · rw [if_pos hempty]
      refine ⟨fun h => absurd hempty.2 (h.1 hempty.1), fun _ => ?_⟩
      rw [hempty.1, List.nil_append, List.nil_append, List.count_cons_self]
      omega
    · rw [if_neg hempty]
      have hfirst : a = [] → below (y.length + 1) ≠ cr := fun he hb => hempty ⟨he, hb⟩
      refine ⟨fun h => by rw [hkeep h.2], fun h => ?_⟩
      have hline : (unCr (a ++ [nl])).count nl ≤ (a ++ [nl]).count nl := (merged_unCr ha).count_le
      have := hlost fun hy => h ⟨hfirst, hy⟩
      rw [show a ++ nl :: y = (a ++ [nl]) ++ y by simp, List.count_append, List.count_append]
      omega

theorem linesOf_contains {m : Bytes} (hm : nl ∉ m) (hne : m ≠ []) (buf : Bytes) (h0 : 0 ∉ buf) :
    ∀ l ∈ linesOf below buf, m <:+: l → m <:+: buf := by
  induction buf using line_induction nl with
  | piece l hl =>
    by_cases hl0 : l = []
    · simp [hl0, linesOf_nil]
    · simp [linesOf_piece h0 hl hl0]
  | line a y ha ih =>
    rw [linesOf_line h0 ha]
    intro l hl h
    rcases List.mem_cons.mp hl with rfl | hl
    · exact (infix_of_line hm hne h).trans (List.IsPrefix.isInfix ⟨nl :: y, rfl⟩)
    · exact (ih (nul_not_mem_line h0).2 l hl h).trans (List.IsSuffix.isInfix ⟨a ++ [nl], by simp⟩)

/-! ## A read with the marker -/

def EndsLine (z : Bytes) : Prop := 0 ∉ z ∧ z ≠ [] ∧ ∀ t below, 0 ∉ t → nl ∉ t →
    queryExtractFromBuf2 below (t ++ z) = some (t ++ z, [])

theorem endsLine_marker : EndsLine endMarker := by
  refine ⟨by decide, by decide, fun t below h0 hn => queryExtractFromBuf2_piece ?_ ?_ (by simp [endMarker, ascii])⟩
  · exact fun h => (List.mem_append.mp h).elim h0 (by decide)
  · exact fun h => (List.mem_append.mp h).elim hn (by decide)

theorem endsLine_marker_nl : EndsLine (endMarker ++ [nl]) := by
  refine ⟨by decide, by decide, fun t below h0 hn => ?_⟩
  have h0' : 0 ∉ (t ++ endMarker) ++ nl :: [] := fun h => (List.mem_append.mp h).elim
    (fun h => (List.mem_append.mp h).elim h0 (by decide)) (by decide)
  have hn' : nl ∉ t ++ endMarker := fun h => (List.mem_append.mp h).elim hn (by decide)
  have hline : unCr ((t ++ endMarker) ++ [nl]) = (t ++ endMarker) ++ [nl] := by
    rw [unCr, List.dropLast_concat, if_neg]
    rw [List.getLast?_append_of_ne_nil _ (by decide)]
    decide
  have := queryExtractFromBuf2_line h0' hn'
    (show t ++ endMarker = [] → below ≠ cr from fun h => absurd h (by simp [endMarker, ascii]))
  rwa [hline, List.append_assoc] at this

theorem linesOf_marked (below : Nat → UInt8) (hz : EndsLine z) (text : Bytes) (h0 : 0 ∉ text)
    (hm : ¬ endMarker <:+: text) :
    ∃ ls t, linesOf below (text ++ z) = ls ++ [t ++ z] ∧ Merged text (ls.flatten ++ t) ∧
      ∀ l ∈ ls, ¬ endMarker <:+: l := by
  induction text using line_induction nl with
  | piece l hl =>
    refine ⟨[], l, ?_, .refl l, by simp⟩
    rw [linesOf_cons (hz.2.2 l _ h0 hl), linesOf_nil]
    rfl
  | line a y ha ih =>
    obtain ⟨ls, t, hls, hmerged, hno⟩ := ih (nul_not_mem_line h0).2
      fun h => hm (h.trans (List.IsSuffix.isInfix ⟨a ++ [nl], by simp⟩))
    have h0z : 0 ∉ a ++ nl :: (y ++ z) := fun h => by
      rw [← List.cons_append, ← List.append_assoc] at h
      exact (List.mem_append.mp h).elim h0 hz.1
    refine ⟨lineAt (below ((y ++ z).length + 1)) a :: ls, t, ?_, ?_, ?_⟩
    · rw [List.append_assoc, List.cons_append, linesOf_line h0z ha, hls, List.cons_append]
    · rw [List.flatten_cons, List.append_assoc, show a ++ nl :: y = (a ++ [nl]) ++ y by simp]
      exact (merged_line ha _).append hmerged
    · rw [List.forall_mem_cons]
      exact ⟨fun h => hm ((infix_of_line (by decide) (by decide) h).trans (List.IsPrefix.isInfix ⟨nl :: y, rfl⟩)), hno⟩

end

/-! ## The steps -/

def describing (s : Session) (f : SFile) (x : Option Bytes) (buf : Bytes) : Session :=
  { s with buf, file := some { f with description := x } }

def takenOf (reads : List Answers) : Bytes := (reads.map fun ans => (linesOf ans.below (readOf ans)).flatten).flatten

section
variable {ans : Answers} {reads pre left : List Answers} {w : World} {s s' : Session} {f : SFile} {x : Option Bytes}
  {line l text z : Bytes} {ms ls : List Bytes}

theorem linesOf_eq_nil {below : Nat → UInt8} {buf : Bytes} (h : linesOf below buf = []) : buf = [] := by
  by_contra hne
  obtain ⟨⟨line, rest⟩, hq⟩ := Option.isSome_iff_exists.mp (queryExtractFromBuf2_isSome (below buf.length) hne)
  rw [linesOf_cons hq] at h
  cases h

theorem descriptionLoop_next (fuel : Nat) {b : Bytes} (hls : linesOf ans.below s.buf = line :: ls)
    (hx : f.description = some b) : ∃ buf, linesOf ans.below buf = ls ∧ buf.length < s.buf.length ∧
      descriptionLoop ans (fuel + 1) s f none = descriptionLoop ans fuel { s with buf } f (some line) := by
  have hne : s.buf ≠ [] := fun h => by rw [h, linesOf_nil] at hls; cases hls
  obtain ⟨line', buf, hq, hs, hlt⟩ := queryExtractFromBuf_ok ans hne
  rw [linesOf_cons hq] at hls
  obtain ⟨rfl, rfl⟩ := List.cons.inj hls
  refine ⟨buf, rfl, hlt, ?_⟩
  rw [descriptionLoop, if_neg hne, if_neg (by rw [hx]; simp), hs]

theorem descriptionLoop_quiet {fuel : Nat} (hls : linesOf ans.below s.buf = ls) (hfuel : 2 * s.buf.length + 2 ≤ fuel)
    (hno : ∀ l ∈ line :: ls, ¬ endMarker <:+: l) : descriptionLoop ans fuel s f (some line) =
      .ok (false, describing s f (some (f.description.getD [] ++ (line :: ls).flatten)) []) := by
  induction ls generalizing fuel s f line with
  | nil =>
    obtain ⟨fuel, rfl⟩ : ∃ n, fuel = n + 2 := ⟨fuel - 2, by omega⟩
    have hline : ¬ (strstr line endMarker).isSome := fun h => hno line (by simp) (strstr_isSome_iff.mp h)
    rw [descriptionLoop, if_neg hline, descriptionLoop, if_pos (linesOf_eq_nil hls), describing, linesOf_eq_nil hls,
      List.flatten_singleton]
  | cons l ls ih =>
    obtain ⟨fuel, rfl⟩ : ∃ n, fuel = n + 2 := ⟨fuel - 2, by omega⟩
    have hline : ¬ (strstr line endMarker).isSome := fun h => hno line (by simp) (strstr_isSome_iff.mp h)
    obtain ⟨buf, hbuf, hlt, he⟩ := descriptionLoop_next fuel hls
      (f := { f with description := some (f.description.getD [] ++ line) }) rfl
    rw [descriptionLoop, if_neg hline, he, ih hbuf (by dsimp only; omega) fun l' hl' => hno l' (List.mem_cons_of_mem _ hl')]
    simp [describing]

theorem descriptionLoop_marked {fuel : Nat} (hls : line :: linesOf ans.below s.buf = ms ++ l :: ls)
    (hfuel : 2 * s.buf.length + 2 ≤ fuel) (hno : ∀ m ∈ ms, ¬ endMarker <:+: m) (hl : endMarker <:+: l) :
    ∃ buf, descriptionLoop ans fuel s f (some line) =
      if (f.description.getD [] ++ ms.flatten ++ l).length < 6 then .error (.fault .overflow)
      else .ok (true, describing s f (some ((f.description.getD [] ++ ms.flatten ++ l).take
        ((f.description.getD [] ++ ms.flatten ++ l).length - 6))) buf) := by
  induction ms generalizing fuel s f line with
  | nil =>
    obtain ⟨fuel, rfl⟩ : ∃ n, fuel = n + 1 := ⟨fuel - 1, by omega⟩
    obtain ⟨rfl, -⟩ := List.cons.inj hls
    refine ⟨s.buf, ?_⟩
    rw [descriptionLoop, if_pos (strstr_isSome_iff.mpr hl), List.flatten_nil, List.append_nil]
    rfl
  | cons m ms ih =>
    obtain ⟨fuel, rfl⟩ : ∃ n, fuel = n + 2 := ⟨fuel - 2, by omega⟩
    rw [List.cons_append] at hls
    obtain ⟨rfl, htail⟩ := List.cons.inj hls
    have hline : ¬ (strstr line endMarker).isSome := fun h => hno line (by simp) (strstr_isSome_iff.mp h)
    obtain ⟨line', ls', hcons⟩ : ∃ line' ls', ms ++ l :: ls = line' :: ls' := by
      cases ms with
      | nil => exact ⟨l, ls, rfl⟩
      | cons m ms => exact ⟨m, ms ++ l :: ls, rfl⟩
    obtain ⟨buf, hbuf, hlt, he⟩ := descriptionLoop_next fuel (htail.trans hcons)
      (f := { f with description := some (f.description.getD [] ++ line) }) rfl
    have hrest : line' :: linesOf ans.below ({ s with buf } : Session).buf = ms ++ l :: ls := by rw [hbuf, hcons]
    obtain ⟨buf', h⟩ := ih (f := { f with description := some (f.description.getD [] ++ line) }) hrest
      (show 2 * buf.length + 2 ≤ fuel by omega) fun m hm => hno m (List.mem_cons_of_mem _ hm)
    refine ⟨buf', ?_⟩
    rw [descriptionLoop, if_neg hline, he, h]
    simp [describing]

/-- One read hands the first line of the buffer to `file_upload_description`. -/
theorem describe_read (reads : List Answers) (hst : s.state = .opUploadDescription) (hne : readOf ans ≠ [])
    (hfit : (readOf ans).length ≤ inBufSize) :
    ∃ line buf, linesOf ans.below (readOf ans) = line :: linesOf ans.below buf ∧
      describe (ans :: reads) w (describing s f x []) = (do
        let (done, s) ← descriptionLoop ans (2 * buf.length + 2) (describing s f x buf)
          { f with description := x } (some line)
        if done then .ok (some (s, reads)) else describe reads w s) := by
  have hread : ans.read = some (readOf ans) := by
    unfold readOf at hne ⊢
    cases h : ans.read with
    | none => rw [h] at hne; exact absurd rfl hne
    | some bs => rfl
  obtain ⟨⟨line, buf⟩, hq⟩ := Option.isSome_iff_exists.mp
    (queryExtractFromBuf2_isSome (ans.below (readOf ans).length) hne)
  refine ⟨line, buf, linesOf_cons hq, ?_⟩
  have hlen := queryExtractFromBuf2_length hq
  have hdo : sessionDoRead ans w (describing s f x []) = .ok (true, some line, w, describing s f x buf) := by
    generalize readOf ans = bs at hread hne hfit hq hlen
    unfold sessionDoRead sessionDoReadWith
    rw [hread]
    cases bs with
    | nil => exact absurd rfl hne
    | cons c bs =>
      have hextract : queryExtractFromBuf ans (describing s f x (c :: bs)) = (some line, describing s f x buf) := by
        simp only [queryExtractFromBuf, describing, hq]
      have hfull : ¬ inBufSize ≤ (describing s f x buf).buf.length := by simp only [describing]; omega
      have happ : { describing s f x [] with buf := (describing s f x []).buf ++ c :: bs } =
        describing s f x (c :: bs) := rfl
      have hroom : ¬ inBufSize - (describing s f x []).buf.length < (c :: bs).length := by
        simp only [describing]; exact hfit.not_gt
      dsimp only
      rw [if_neg hroom, happ, hextract]
      simp only [hfull, if_false, show (describing s f x buf).state ≠ .fin by simp [describing, hst]]
  rw [describe, hdo]
  rfl

theorem describe_quiet (reads : List Answers) (hst : s.state = .opUploadDescription) (hne : readOf ans ≠ [])
    (hfit : (readOf ans).length ≤ inBufSize)
    (hno : ∀ l ∈ linesOf ans.below (readOf ans), ¬ endMarker <:+: l) : describe (ans :: reads) w (describing s f x []) =
      describe reads w (describing s f (some (x.getD [] ++ (linesOf ans.below (readOf ans)).flatten)) []) := by
  obtain ⟨line, buf, hls, he⟩ := describe_read reads (w := w) (f := f) (x := x) hst hne hfit
  rw [hls] at hno ⊢
  have hloop : descriptionLoop ans (2 * buf.length + 2) (describing s f x buf) { f with description := x }
    (some line) = _ :=
    descriptionLoop_quiet rfl (Nat.le_refl _) hno
  rw [he, hloop]
  rfl

theorem describe_marked (reads : List Answers) (hst : s.state = .opUploadDescription) (hne : readOf ans ≠ [])
    (hfit : (readOf ans).length ≤ inBufSize)
    (hls : linesOf ans.below (readOf ans) = ms ++ l :: ls) (hno : ∀ m ∈ ms, ¬ endMarker <:+: m)
    (hl : endMarker <:+: l) :
    ∃ buf, describe (ans :: reads) w (describing s f x []) =
      if (x.getD [] ++ ms.flatten ++ l).length < 6 then .error (.fault .overflow)
      else .ok (some (describing s f (some ((x.getD [] ++ ms.flatten ++ l).take
        ((x.getD [] ++ ms.flatten ++ l).length - 6))) buf, reads)) := by
  obtain ⟨line, buf, hcons, he⟩ := describe_read reads (w := w) (f := f) (x := x) hst hne hfit
  obtain ⟨buf', h⟩ := descriptionLoop_marked (f := { f with description := x }) (s := describing s f x buf)
    (hcons.symm.trans hls) (Nat.le_refl _) hno hl
  have hloop : descriptionLoop ans (2 * buf.length + 2) (describing s f x buf) { f with description := x }
    (some line) = _ := h
  refine ⟨buf', ?_⟩
  rw [he, hloop]
  dsimp only
  split <;> rfl

/-- The reads of a run that returns 1: those before have no marker in a line, and the last has. -/
theorem describe_finds_marker (hst : s.state = .opUploadDescription)
    (hreads : ∀ ans ∈ reads, readOf ans ≠ [] ∧ (readOf ans).length ≤ inBufSize)
    (h : describe reads w (describing s f x []) = .ok (some (s', left))) : ∃ pre ans, reads = pre ++ ans :: left ∧
      (∀ a ∈ pre, ∀ l ∈ linesOf a.below (readOf a), ¬ endMarker <:+: l) ∧
      ∃ l ∈ linesOf ans.below (readOf ans), endMarker <:+: l := by
  induction reads generalizing x with
  | nil => cases h
  | cons ans reads ih =>
    obtain ⟨hne, hfit⟩ := hreads ans (by simp)
    by_cases hl : ∃ l ∈ linesOf ans.below (readOf ans), endMarker <:+: l
    · obtain ⟨l, hfound⟩ : ∃ l, (linesOf ans.below (readOf ans)).find? (endMarker <:+: ·) = some l :=
        Option.isSome_iff_exists.mp (List.find?_isSome.mpr (by simpa using hl))
      obtain ⟨hmark, ms, ls, hls, hno⟩ := List.find?_eq_some_iff_append.mp hfound
      obtain ⟨buf, he⟩ := describe_marked reads (w := w) (f := f) (x := x) hst hne hfit hls (by simpa using hno)
        (by simpa using hmark)
      rw [he] at h
      split at h
      · cases h
      · cases h
        exact ⟨[], ans, rfl, by simp, hl⟩
    · rw [describe_quiet _ hst hne hfit fun l hl' hm => hl ⟨l, hl', hm⟩] at h
      obtain ⟨pre, ans', rfl, hpre, hfound⟩ := ih (fun a ha => hreads a (List.mem_cons_of_mem _ ha)) h
      refine ⟨ans :: pre, ans', rfl, fun a ha => ?_, hfound⟩
      rcases List.mem_cons.mp ha with rfl | ha
      · exact fun l hl' hm => hl ⟨l, hl', hm⟩
      · exact hpre a ha

theorem describe_pre (reads : List Answers) (hst : s.state = .opUploadDescription)
    (hreads : ∀ ans ∈ pre, readOf ans ≠ [] ∧ (readOf ans).length ≤ inBufSize)
    (hno : ∀ a ∈ pre, ∀ l ∈ linesOf a.below (readOf a), ¬ endMarker <:+: l) :
    ∃ y, y.getD [] = x.getD [] ++ takenOf pre ∧
      describe (pre ++ reads) w (describing s f x []) = describe reads w (describing s f y []) := by
  induction pre generalizing x with
  | nil => exact ⟨x, by simp [takenOf], rfl⟩
  | cons ans pre ih =>
    obtain ⟨hne, hfit⟩ := hreads ans (by simp)
    obtain ⟨y, hy, he⟩ := ih (x := some (x.getD [] ++ (linesOf ans.below (readOf ans)).flatten))
      (fun a ha => hreads a (List.mem_cons_of_mem _ ha)) fun a ha => hno a (List.mem_cons_of_mem _ ha)
    refine ⟨y, ?_, ?_⟩
    · rw [hy, Option.getD_some, List.append_assoc]
      rfl
    · rw [List.cons_append, describe_quiet _ hst hne hfit (hno ans (by simp)), he]

/-! ## The whole text -/

theorem takenOf_merged (h0 : 0 ∉ (reads.map readOf).flatten) : Merged (reads.map readOf).flatten (takenOf reads) := by
  induction reads with
  | nil => exact .nil
  | cons ans reads ih =>
    rw [List.map_cons, List.flatten_cons, List.mem_append, not_or] at h0
    exact (linesOf_merged _ _ h0.1).append (ih h0.2)

theorem takenOf_newlines (h0 : 0 ∉ (reads.map readOf).flatten)
    (hc : (takenOf reads).count nl = (reads.map readOf).flatten.count nl) :
    ∀ ans ∈ reads, KeepsNewlines ans.below (readOf ans) := by
  induction reads with
  | nil => simp
  | cons ans reads ih =>
    rw [List.map_cons, List.flatten_cons, List.mem_append, not_or] at h0
    have htaken : takenOf (ans :: reads) = (linesOf ans.below (readOf ans)).flatten ++ takenOf reads := rfl
    rw [htaken, List.map_cons, List.flatten_cons, List.count_append, List.count_append] at hc
    have hle := (linesOf_merged ans.below _ h0.1).count_le
    have hle' := (takenOf_merged h0.2).count_le
    have hkeep : KeepsNewlines ans.below (readOf ans) := by
      by_contra hno
      have := (linesOf_kept _ h0.1).2 hno
      omega
    exact List.forall_mem_cons.mpr ⟨hkeep, ih h0.2 (by omega)⟩

theorem takenOf_kept (h0 : 0 ∉ (reads.map readOf).flatten) (h : ∀ ans ∈ reads, KeepsNewlines ans.below (readOf ans)) :
    takenOf reads = ((reads.map readOf).map unCrText).flatten := by
  induction reads with
  | nil => rfl
  | cons ans reads ih =>
    rw [List.map_cons, List.flatten_cons, List.mem_append, not_or] at h0
    rw [List.forall_mem_cons] at h
    have htaken : takenOf (ans :: reads) = (linesOf ans.below (readOf ans)).flatten ++ takenOf reads := rfl
    rw [htaken, (linesOf_kept _ h0.1).1 h.1, ih h0.2 h.2]
    rfl

/-- What is taken is the text exactly if no cut parts a `"\r\n"` and no newline is lost. -/
theorem takenOf_eq_iff (h0 : 0 ∉ (reads.map readOf).flatten) (hne : ∀ ans ∈ reads, readOf ans ≠ []) :
    takenOf reads = unCrText (reads.map readOf).flatten ↔
      ((reads.map readOf).IsChain fun a b => ¬ Parts cr nl a b) ∧
        ∀ ans ∈ reads, KeepsNewlines ans.below (readOf ans) := by
  have hchain := flatten_dropBefore_iff (x := cr) (y := nl) (show ∀ l ∈ reads.map readOf, l ≠ [] by simpa using hne)
  constructor
  · intro h
    have hkeep := takenOf_newlines h0 (by rw [h]; exact count_dropBefore (by decide))
    exact ⟨hchain.mp ((takenOf_kept h0 hkeep).symm.trans h), hkeep⟩
  · rintro ⟨hcuts, hkeep⟩
    exact (takenOf_kept h0 hkeep).trans (hchain.mpr hcuts)

/-- A read that ends the stream in a text at least as long begins in what stands in front of it. -/
theorem ends_with {a c d z : Bytes} (h : a ++ c = d ++ z) (hl : z.length ≤ c.length) :
    ∃ e, c = e ++ z ∧ a ++ e = d := by
  rcases List.append_eq_append_iff.mp h with ⟨e, rfl, hz⟩ | ⟨e, rfl, hz⟩
  · exact ⟨e, hz, rfl⟩
  · have := congrArg List.length hz
    rw [List.length_append] at this
    obtain rfl : e = [] := List.length_eq_zero_iff.mp (by omega)
    exact ⟨[], by simpa using hz.symm, by simp⟩

/-- The last read of a text and its marker, which are `z` together, in front of nothing with a marker. -/
theorem describe_last (left : List Answers) (hst : s.state = .opUploadDescription)
    (hreads : ∀ a ∈ pre ++ [ans], readOf a ≠ [] ∧ (readOf a).length ≤ inBufSize)
    (h0 : 0 ∉ text) (hm : ¬ endMarker <:+: text) (hz : EndsLine z) (hmark : endMarker <:+: z)
    (hcat : (pre.map readOf).flatten ++ readOf ans = text ++ z) (hlen : z.length ≤ (readOf ans).length) :
    ∃ y buf, Merged text y ∧ takenOf (pre ++ [ans]) = y ++ z ∧
      describe (pre ++ ans :: left) w (describing s f none []) =
        if (y ++ z).length < 6 then .error (.fault .overflow)
        else .ok (some (describing s f (some ((y ++ z).take ((y ++ z).length - 6))) buf, left)) := by
  obtain ⟨e, hans, htext⟩ := ends_with hcat hlen
  have h0e : 0 ∉ (pre.map readOf).flatten ∧ 0 ∉ e := by
    rw [← htext, List.mem_append, not_or] at h0
    exact h0
  have hmpre : ∀ a ∈ pre, ∀ l ∈ linesOf a.below (readOf a), ¬ endMarker <:+: l := fun a ha l hl h => by
    have hin : readOf a <:+: (pre.map readOf).flatten := List.infix_of_mem_flatten (List.mem_map_of_mem ha)
    have h0a : 0 ∉ readOf a := fun h => h0e.1 (hin.subset h)
    refine hm ((linesOf_contains (by decide) (by decide) _ h0a l hl h).trans (hin.trans ?_))
    exact List.IsPrefix.isInfix ⟨e, htext⟩
  have hme : ¬ endMarker <:+: e := fun h => hm (h.trans (List.IsSuffix.isInfix ⟨_, htext⟩))
  obtain ⟨ls, t, hls, hmerged, hno⟩ := linesOf_marked ans.below hz e h0e.2 hme
  obtain ⟨x, hx, hpre⟩ := describe_pre (ans :: left) (w := w) (f := f) (x := none) hst
    (fun a ha => hreads a (List.mem_append_left _ ha)) hmpre
  rw [← hans] at hls
  obtain ⟨hne, hfit⟩ := hreads ans (by simp)
  obtain ⟨buf, he⟩ := describe_marked left (w := w) (f := f) (x := x) hst hne hfit hls hno
    (hmark.trans (List.IsSuffix.isInfix ⟨t, rfl⟩))
  have hy : x.getD [] ++ ls.flatten ++ (t ++ z) = takenOf pre ++ (ls.flatten ++ t) ++ z := by
    rw [hx]
    simp
  refine ⟨takenOf pre ++ (ls.flatten ++ t), buf, ?_, ?_, ?_⟩
  · rw [← htext]
    exact (takenOf_merged h0e.1).append hmerged
  · simp [takenOf, hls]
  · rw [hpre, he, hy]

end

theorem no_marker_in_tail : ∀ n < 6, ¬ endMarker <:+: (endMarker ++ [nl]).drop (6 - n) := by decide

theorem suffix_marker {a c text : Bytes} (h : a ++ c = text ++ (endMarker ++ [nl])) (hm : endMarker <:+: c) :
    (endMarker ++ [nl]).length ≤ c.length := by
  by_contra hlt
  have hlt : c.length < 6 := by simpa [endMarker, ascii] using hlt
  refine no_marker_in_tail c.length hlt ?_
  have hsuffix : c <:+ endMarker ++ [nl] :=
    List.suffix_of_suffix_length_le ⟨a, h⟩ (List.suffix_append _ _) (by simp [endMarker, ascii]; omega)
  exact (congrArg (endMarker <:+: ·) (List.suffix_iff_eq_drop.mp hsuffix)).mp hm

section
variable {reads pre left : List Answers} {ans : Answers} {w : World} {s s' : Session} {f f' : SFile} {text : Bytes}

/-- The marker is read whole and its newline is left: the cut takes a byte of the text. -/
theorem describe_newline_left (left : List Answers) (hst : s.state = .opUploadDescription)
    (hreads : ∀ a ∈ pre ++ [ans], readOf a ≠ [] ∧ (readOf a).length ≤ inBufSize)
    (h0 : 0 ∉ text) (hm : ¬ endMarker <:+: text) (hcat : (pre.map readOf).flatten ++ readOf ans = text ++ endMarker)
    (hmark : endMarker <:+: readOf ans)
    (hrun : describe (pre ++ ans :: left) w (describing s f none []) = .ok (some (s', left)))
    (hf' : s'.file = some f') :
    f'.description ≠ some (unCrText text) := by
  intro hdesc
  obtain ⟨y, buf, hmerged, -, he⟩ := describe_last left (w := w) (f := f) hst hreads h0 hm endsLine_marker
    (List.infix_refl _) hcat hmark.length_le
  rw [he] at hrun
  split at hrun
  · cases hrun
  rename_i hlong
  cases hrun
  cases hf'
  obtain ⟨u, c, rfl⟩ := (List.eq_nil_or_concat y).resolve_left (by rintro rfl; exact hlong (by decide))
  rw [List.concat_eq_append] at *
  have hu : u = unCrText text := by
    rw [← Option.some.inj hdesc, List.append_assoc, List.length_append]
    exact (List.take_left' (by simp [endMarker, ascii])).symm
  have hcount : (u ++ [c]).count nl = text.count nl := by
    refine Nat.le_antisymm hmerged.count_le ?_
    rw [← count_dropBefore (show cr ≠ nl by decide), List.count_append]
    exact (congrArg (List.count nl) hu).symm.le.trans (Nat.le_add_right ..)
  exact absurd (by rw [hu]) (hmerged.ne_snoc hcount c)

theorem describe_whole (hst : s.state = .opUploadDescription)
    (hreads : ∀ a ∈ pre ++ [ans], readOf a ≠ [] ∧ (readOf a).length ≤ inBufSize)
    (h0 : 0 ∉ text) (hm : ¬ endMarker <:+: text)
    (hcat : (pre.map readOf).flatten ++ readOf ans = text ++ (endMarker ++ [nl]))
    (hlen : (endMarker ++ [nl]).length ≤ (readOf ans).length) :
    ∃ y buf, takenOf (pre ++ [ans]) = y ++ (endMarker ++ [nl]) ∧
      describe (pre ++ [ans]) w (describing s f none []) = .ok (some (describing s f (some y) buf, [])) := by
  obtain ⟨y, buf, -, htaken, he⟩ := describe_last [] (w := w) (f := f) hst hreads h0 hm endsLine_marker_nl
    (List.prefix_append _ _).isInfix hcat hlen
  refine ⟨y, buf, htaken, ?_⟩
  rw [he, if_neg (by simp [endMarker, ascii]), List.length_append, List.take_left' (by simp [endMarker, ascii])]

theorem left_eq_nil (hreads : ∀ a ∈ left, readOf a ≠ []) (h : (left.map readOf).flatten = []) : left = [] := by
  cases left with
  | nil => rfl
  | cons a left =>
    rw [List.map_cons, List.flatten_cons, List.append_eq_nil_iff] at h
    exact absurd h.1 (hreads a (by simp))

/-- A run that makes the text has the marker and its newline in its last read, and leaves none. -/
theorem assembled_last (hst : s.state = .opUploadDescription) (h0 : 0 ∉ text) (hm : ¬ endMarker <:+: text)
    (hreads : ∀ a ∈ reads, readOf a ≠ [] ∧ (readOf a).length ≤ inBufSize)
    (hcat : (reads.map readOf).flatten = text ++ (endMarker ++ [nl]))
    (h : Assembled w (describing s f none []) reads text) :
    ∃ pre ans, reads = pre ++ [ans] ∧ (endMarker ++ [nl]).length ≤ (readOf ans).length ∧
      takenOf reads = unCrText text ++ (endMarker ++ [nl]) := by
  obtain ⟨s', left, f', hrun, hleft, hf', hdesc⟩ := h
  obtain ⟨pre, ans, rfl, -, l, hl, hmark⟩ := describe_finds_marker hst hreads hrun
  have h0a : 0 ∉ readOf ans := fun h => by
    have hin : 0 ∈ ((pre ++ ans :: left).map readOf).flatten :=
      List.mem_flatten.mpr ⟨_, List.mem_map_of_mem (by simp), h⟩
    rw [hcat] at hin
    exact (List.mem_append.mp hin).elim h0 (by decide)
  have hin := linesOf_contains (by decide) (by decide) _ h0a l hl hmark
  have hread : ∀ a ∈ pre ++ [ans], readOf a ≠ [] ∧ (readOf a).length ≤ inBufSize := fun a ha =>
    hreads a (by simp at ha ⊢; tauto)
  rw [List.map_append, List.map_cons, List.flatten_append, List.flatten_cons] at hcat
  rcases List.suffix_concat_iff.mp (show (left.map readOf).flatten <:+ [] ++ [nl] from hleft) with hnil | ⟨t, ht, hsuf⟩
  · obtain rfl : left = [] := left_eq_nil (fun a ha => (hreads a (by simp [ha])).1) hnil
    rw [hnil, List.append_nil] at hcat
    have hlen := suffix_marker hcat hin
    obtain ⟨y, buf, htaken, he⟩ := describe_whole (w := w) (f := f) hst hread h0 hm hcat hlen
    rw [he] at hrun
    cases hrun
    cases hf'
    obtain rfl : y = unCrText text := Option.some.inj hdesc
    exact ⟨pre, ans, rfl, hlen, htaken⟩
  · -- only the newline is left
    obtain rfl : t = [] := List.suffix_nil.mp hsuf
    rw [ht, List.nil_append, ← List.append_assoc, ← List.append_assoc] at hcat
    exact absurd hdesc (describe_newline_left left hst hread h0 hm (List.append_cancel_right hcat) hin hrun hf')

end

/-- **The description.** The text arrives whole with the read of its marker exactly if the reads are clean. -/
theorem description_iff {reads : List Answers} {w : World} {s : Session} {f : SFile} {text : Bytes}
    (hst : s.state = .opUploadDescription) (hb : s.buf = []) (hf : s.file = some f) (hd : f.description = none)
    (h0 : 0 ∉ text) (hm : strstr text endMarker = none)
    (hreads : ∀ ans ∈ reads, readOf ans ≠ [] ∧ (readOf ans).length ≤ inBufSize)
    (hcat : (reads.map readOf).flatten = text ++ (endMarker ++ [nl])) : Assembled w s reads text ↔
    CleanReads reads := by
  have hs : s = describing s f none [] := by
    obtain ⟨buf, state, reason, privileges, uname, uid, fd, sd, file⟩ := s
    obtain ⟨name, path, description, permissions, size, rest, packageRest, hash, id, ownerId⟩ := f
    subst hb hf hd
    rfl
  have hm : ¬ endMarker <:+: text := fun h => by
    rw [← strstr_isSome_iff, hm] at h
    cases h
  have h0s : 0 ∉ (reads.map readOf).flatten := by
    rw [hcat]
    exact fun h => (List.mem_append.mp h).elim h0 (by decide)
  have hwhole : unCrText (text ++ (endMarker ++ [nl])) = unCrText text ++ (endMarker ++ [nl]) :=
    unCrText_append fun h => absurd h.2 (by decide)
  have hclean := takenOf_eq_iff h0s fun a ha => (hreads a ha).1
  rw [hcat, hwhole] at hclean
  constructor
  · intro h
    rw [hs] at h
    obtain ⟨pre, ans, rfl, hlen, htaken⟩ := assembled_last hst h0 hm hreads hcat h
    obtain ⟨hcuts, hkeep⟩ := hclean.mp htaken
    refine ⟨fun a ha => ?_, hcuts, hkeep⟩
    obtain rfl : ans = a := by simpa using ha
    exact hlen
  · rintro ⟨hlast, hcuts, hkeep⟩
    obtain ⟨pre, ans, rfl⟩ := (List.eq_nil_or_concat reads).resolve_left (by rintro rfl; simp at hcat)
    rw [List.concat_eq_append] at *
    have htaken := hclean.mpr ⟨hcuts, hkeep⟩
    rw [List.map_append, List.map_singleton, List.flatten_append, List.flatten_singleton] at hcat
    obtain ⟨y, buf, hy, he⟩ := describe_whole (w := w) (f := f) hst hreads h0 hm hcat (hlast ans (by simp))
    rw [← List.append_cancel_right (htaken.symm.trans hy), ← hs] at he
    exact ⟨_, [], _, he, List.nil_suffix, rfl, rfl⟩

def uploaded : Session :=
  { Session.waiting 4 (ascii "bob") 1 with
    state := .opUploadDescription
    file := some { name := some (ascii "a"), path := some [], description := none, permissions := 0, size := 1, rest := 0,
                   packageRest := 0, hash := 0, id := 0, ownerId := 0 } }

def world₀ : World := .start (fun _ => none) .empty .empty

/-- The newline comes after the marker of an empty text: the cut is at index -1. -/
theorem description_cut_below : (([{ read := some endMarker }, { read := some [nl] }] : List Answers).map readOf).flatten =
      [] ++ (endMarker ++ [nl]) ∧
    ¬ Assembled world₀ uploaded [{ read := some endMarker }, { read := some [nl] }] [] := by
  refine ⟨by decide, fun ⟨s', left, f, h, _⟩ => ?_⟩
  have : (describe [{ read := some endMarker }, { read := some [nl] }] world₀ uploaded).toOption.isNone = true := by
    decide +kernel
  rw [h] at this
  cases this

theorem description_iff_two_reads :
    Assembled world₀ uploaded [{ read := some (ascii "a\r\nb\n") }, { read := some (ascii "c:END:\n") }] (ascii "a\r\nb\nc") ↔
      CleanReads [{ read := some (ascii "a\r\nb\n") }, { read := some (ascii "c:END:\n") }] :=
  description_iff rfl rfl rfl rfl (by decide) (by decide) (by decide) (by decide)

end BbsServer
