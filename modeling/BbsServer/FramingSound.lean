import BbsServer.WellFormed
import BbsServer.Lib.Lines

/-!
# Line framing

The lines that the main loop hands to `perform_session_action`, against the client's
stream split after each newline. The extractor runs once for each read and hands over
what it has, so the lines are the stream's exactly if every read completes one line
(`lines_framed`).
-/

namespace BbsServer

open CStr Function Runs Lines

/-! ## One extraction -/

def unCr (line : Bytes) : Bytes :=
  if line.dropLast.getLast? = some cr then line.dropLast.dropLast ++ [nl] else line

theorem nl_mem_unCr (a : Bytes) : nl ∈ unCr (a ++ [nl]) := by
  unfold unCr
  split <;> simp

section
variable {below : UInt8} {a y buf : Bytes}

theorem queryExtractFromBuf2_piece (h0 : 0 ∉ buf) (hnl : nl ∉ buf) (hne : buf ≠ []) :
    queryExtractFromBuf2 below buf = some (buf, []) := by
  simp [queryExtractFromBuf2, hne, cstr_of_nul_not_mem h0, strchr_eq_none.mpr hnl]

theorem queryExtractFromBuf2_lost (h0 : 0 ∉ nl :: y) : queryExtractFromBuf2 cr (nl :: y) = some ([], y) := by
  have hpos : strchr (nl :: y) nl = some 0 := strchr_append (a := []) (by simp)
  simp [queryExtractFromBuf2, cstr_of_nul_not_mem h0, hpos]

theorem queryExtractFromBuf2_line (h0 : 0 ∉ a ++ nl :: y) (ha : nl ∉ a) (hb : a = [] → below ≠ cr) :
    queryExtractFromBuf2 below (a ++ nl :: y) = some (unCr (a ++ [nl]), y) := by
  have hdrop : (a ++ nl :: y).drop (a.length + 1) = y := by simp [List.drop_append]
  unfold queryExtractFromBuf2
  rw [if_neg (by simp), cstr_of_nul_not_mem h0, strchr_append ha]
  dsimp only
  rw [hdrop]
  rcases List.eq_nil_or_concat a with rfl | ⟨u, c, rfl⟩
  · simp [hb rfl, unCr]
  · rw [List.concat_eq_append]
    have hc : (u ++ [c] ++ nl :: y).getD u.length 0 = c := by
      simp [List.getD_eq_getElem?_getD]
    have ht : (u ++ [c] ++ nl :: y).take (u.length + 1 + 1) = u ++ [c] ++ [nl] := by
      rw [show u ++ [c] ++ nl :: y = (u ++ [c] ++ [nl]) ++ y by simp]
      exact List.take_left' (by simp)
    have ht' : (u ++ [c] ++ nl :: y).take u.length = u := by simp
    simp only [List.length_append, List.length_singleton, Nat.add_eq_zero_iff, Nat.succ_ne_self, and_false, if_false,
      Nat.add_sub_cancel, hc, ht, ht', unCr, List.dropLast_concat, List.getLast?_concat, Option.some.injEq]

end

/-! ## Lines handed over and bytes read -/

/-- The lines of session `i` in the log, oldest first. -/
def handed (i : Nat) (trace : List Act) : List Bytes :=
  trace.reverse.filterMap fun
    | .handled j _ (some l) => if j = i then some l else none
    | _ => none

def lineRead (i : Nat) (v : Server) : Event → Bytes
  | .ready j ans =>
    match v.connections i with
    | some s => if j = i ∧ s.state ≠ .opUpload ∧ s.state ≠ .opDownload then ans.read.getD [] else []
    | none => []
  | _ => []

def streamOf (P : Platform) (i : Nat) : Server → List Event → Bytes
  | _, [] => []
  | v, e :: es =>
    match v.step P e with
    | .ok v' => lineRead i v e ++ streamOf P i v' es
    | .error _ => []

def held (i : Nat) (v : Server) : Bytes := ((v.connections i).map (·.buf)).getD []

/-- The client of slot `i` is connected and only sends lines: `file_upload` does not
read its socket, and each read of the line reader gives some bytes. -/
def Reading (i : Nat) (v : Server) : Event → Prop
  | .accept sd _ _ => sd ≠ i
  | .acceptFailed => True
  | .ready j ans => j = i → ∃ s ∈ v.connections i, s.state ≠ .opUpload ∧
      (s.state ≠ .opDownload → ans.read ≠ none ∧ ans.read ≠ some [])

/-- A read of session `i` completes one line. An empty line must not follow a `'\r'` in
memory, and nothing may stay behind a line of a description. -/
def OneLine (i : Nat) (v : Server) : Event → Prop
  | .ready j ans => j = i → ∀ s ∈ v.connections i, s.state ≠ .opUpload → s.state ≠ .opDownload →
      (ans.read.getD []).count nl = 1 ∧
      ((s.buf ++ ans.read.getD []).head? = some nl → ans.below (s.buf.length + (ans.read.getD []).length) ≠ cr) ∧
      (s.state = .opUploadDescription → (ans.read.getD []).getLast? = some nl)
  | _ => True

/-- Session `i` is not in the description of an upload, where lines are also taken from
the buffer by `file_upload_description`. -/
def NoDescription (i : Nat) (v : Server) : Event → Prop
  | .ready j _ => j = i → ∀ s ∈ v.connections i, s.state ≠ .opUploadDescription
  | _ => True

instance (i : Nat) (v : Server) : ∀ e, Decidable (Reading i v e)
  | .accept .. => by unfold Reading; infer_instance
  | .acceptFailed => .isTrue trivial
  | .ready .. => by unfold Reading; infer_instance

/-- From `v` to `v'` the lines handed over are those of the stream, and a line never
stays in the buffer. -/
structure Framed (P : Platform) (i : Nat) (v : Server) (es : List Event) (v' : Server) : Prop where
  lines : handed i v'.world.trace =
    handed i v.world.trace ++ (split nl (held i v ++ streamOf P i v es)).map unCr
  buffer : Always (Steps P) v es (nl ∉ held i ·)

section
variable {P : Platform} {i : Nat} {v v' u : Server} {e : Event} {es : List Event}

theorem handed_logs {p : Act → Prop} {w w' : World} (h : Logs p w w') (hp : ∀ j st l, ¬ p (.handled j st l)) :
    handed i w'.trace = handed i w.trace := by
  obtain ⟨ext, ht, hm⟩ := h
  have hnil : ext.reverse.filterMap (fun
      | .handled j _ (some l) => if j = i then some l else none
      | _ => none) = ([] : List Bytes) := by
    rw [List.filterMap_eq_nil_iff]
    intro a ha
    have := hm a (List.mem_reverse.mp ha)
    cases a with
    | handled j st l => exact absurd this (hp j st l)
    | _ => rfl
  rw [handed, ht, List.reverse_append, List.filterMap_append, hnil, List.append_nil]
  rfl

theorem handed_line (sd : Nat) (st : SessState) (l : Bytes) (t : List Act) :
    handed i (.handled sd st (some l) :: t) = handed i t ++ if sd = i then [l] else [] := by
  rw [handed, List.reverse_cons, List.filterMap_append]
  by_cases h : sd = i <;> simp [handed, h]

@[simp] theorem handed_transfer (sd : Nat) (st : SessState) (t : List Act) :
    handed i (.handled sd st none :: t) = handed i t := by
  simp [handed]

@[simp] theorem handed_accepted (sd : Nat) (t : List Act) : handed i (.accepted sd :: t) = handed i t := by
  simp [handed]

theorem held_some {s : Session} (h : v.connections i = some s) : held i v = s.buf := by
  simp [held, h]

theorem held_none (h : v.connections i = none) : held i v = [] := by
  simp [held, h]

theorem streamOf_cons (h : Steps P v e v') : streamOf P i v (e :: es) = lineRead i v e ++ streamOf P i v' es := by
  rw [streamOf, show v.step P e = .ok v' from h]

theorem lineRead_other {j : Nat} (h : j ≠ i) (ans : Answers) : lineRead i v (.ready j ans) = [] := by
  simp only [lineRead, h, false_and, if_false]
  split <;> rfl

theorem held_set (j : Nat) (w : World) (x : Option Session) :
    held i (v.set j w x) = if j = i then (x.map (·.buf)).getD [] else held i v := by
  by_cases h : j = i
  · subst h; simp [held, Server.set]
  · simp [held, Server.set, h, update_of_ne (Ne.symm h)]

/-! ## One event -/

structure Took (i : Nat) (v : Server) (e : Event) (v' : Server) (s : Session) (ans : Answers)
    (bs l b : Bytes) : Prop where
  event : e = .ready i ans
  session : v.connections i = some s
  upload : s.state ≠ .opUpload
  download : s.state ≠ .opDownload
  read : ans.read = some bs
  nonempty : bs ≠ []
  extract : queryExtractFromBuf2 (ans.below (s.buf.length + bs.length)) (s.buf ++ bs) = some (l, b)
  line : handed i v'.world.trace = handed i v.world.trace ++ [l]
  suffix : held i v' <:+ b
  stays : v'.connections i ≠ none → s.state ≠ .opUploadDescription → held i v' = b

theorem Took.lineRead {s : Session} {ans : Answers} {bs l b : Bytes} (h : Took i v e v' s ans bs l b) :
    lineRead i v e = bs := by
  simp [h.event, BbsServer.lineRead, h.session, h.upload, h.download, h.read]

theorem reading_step (h : Wf v) (hr : Reading i v e) (hs : Steps P v e v') :
    (lineRead i v e = [] ∧ handed i v'.world.trace = handed i v.world.trace ∧ held i v' = held i v) ∨
    ∃ s ans bs l b, Took i v e v' s ans bs l b := by
  cases step_stepped hs with
  | accepted _ _ ht =>
    refine .inl ⟨rfl, (handed_logs (.talks ht) (by simp [Act.isPlain])).trans (handed_accepted ..), ?_⟩
    rw [held_set, if_neg hr]
  | idle hi =>
    refine .inl ⟨?_, rfl, rfl⟩
    unfold lineRead
    cases e with
    | ready j ans =>
      cases hc : v.connections i with
      | none => rfl
      | some s =>
        dsimp only
        rw [if_neg]
        rintro ⟨rfl, h1, h2⟩
        exact (hi _ _ _ rfl hc).1.elim h1 h2
    | _ => rfl
  | @transfer j ans s w' s' hc hst _ hx =>
    left
    have hd := performSessionAction_did hx
    have hh : handed i w'.trace = handed i v.world.trace :=
      (handed_logs hd.logs fun _ _ _ => id).trans (handed_transfer ..)
    by_cases hj : j = i
    · subst hj
      obtain ⟨t, ht, hup, -⟩ := hr rfl
      obtain rfl : s = t := Option.some.inj (hc.symm.trans ht)
      obtain hdl : s.state = .opDownload := hst.resolve_left hup
      refine ⟨by simp [lineRead, hc, hdl], hh, ?_⟩
      rw [held_set, if_pos rfl, held_some hc]
      exact hd.buf_eq (by rw [hdl]; decide)
    · exact ⟨lineRead_other hj ans, hh, by rw [held_set, if_neg hj]⟩
  | @line j ans s bs l b w' s' hc hup hdl hread hne _ hq hx =>
    have hd := performSessionAction_did hx
    have hh : handed i w'.trace = handed i v.world.trace ++ if s.sd = i then [l] else [] :=
      (handed_logs hd.logs fun _ _ _ => id).trans (handed_line ..)
    rw [h.sd hc] at hh
    have hclosed : handed i (closeSession w' s' j).trace = handed i w'.trace :=
      handed_logs (.closeSession ..) (by simp [Act.isPlain])
    by_cases hj : j = i
    · subst hj
      right
      rw [if_pos rfl] at hh
      refine ⟨s, ans, bs, l, b, rfl, hc, hup, hdl, hread, hne, hq, ?_, ?_, ?_⟩
      · split
        · exact hclosed.trans hh
        · exact hh
      · split
        · rw [held_set, if_pos rfl]; exact List.nil_suffix
        · rw [held_set, if_pos rfl]; exact hd.buf_suffix
      · split
        · intro hn; simp [Server.set] at hn
        · intro _ hdesc
          rw [held_set, if_pos rfl]
          exact hd.buf_eq hdesc
    · left
      rw [if_neg hj, List.append_nil] at hh
      refine ⟨lineRead_other hj ans, ?_, ?_⟩
      · split
        · exact hclosed.trans hh
        · exact hh
      · split <;> rw [held_set, if_neg hj]
  | @closed j ans s st b hc hup hdl hend =>
    left
    have hj : j ≠ i := by
      rintro rfl
      obtain ⟨t, ht, -, hread⟩ := hr rfl
      obtain rfl : s = t := Option.some.inj (hc.symm.trans ht)
      obtain ⟨h1, h2⟩ := hread hdl
      rcases hend with he | he | he
      · exact h1 he
      · exact h2 he
      · exact h.live hc he
    exact ⟨lineRead_other hj ans, handed_logs (.closeSession ..) (by simp [Act.isPlain]), by rw [held_set, if_neg hj]⟩

theorem gone_step (hv : v.connections i = none) (hr : Reading i v e) (hs : Steps P v e v') :
    v'.connections i = none := by
  have hset : ∀ {j w x}, j ≠ i → (v.set j w x).connections i = none := by
    intro j w x hj
    simp [Server.set, hv, Ne.symm hj]
  have hne : ∀ {j s}, v.connections j = some s → j ≠ i := by
    rintro j s hc rfl
    rw [hv] at hc
    cases hc
  cases step_stepped hs with
  | accepted => exact hset hr
  | idle => exact hv
  | transfer hc => exact hset (hne hc)
  | line hc => split <;> exact hset (hne hc)
  | closed hc => exact hset (hne hc)

theorem reading_gone (h : Wf v) (hv : v.connections i = none) (r : Run (Guarded (Reading i) (Steps P)) v es v') :
    streamOf P i v es = [] ∧ handed i v'.world.trace = handed i v.world.trace := by
  induction es generalizing v with
  | nil => rw [r.nil_inv]; exact ⟨rfl, rfl⟩
  | cons e es ih =>
    obtain ⟨u, ⟨hr, hs⟩, r⟩ := r.cons_inv
    obtain ⟨h1, h2⟩ := ih (h.step hs) (gone_step hv hr hs) r
    rcases reading_step h hr hs with ⟨h3, h4, -⟩ | ⟨s, ans, bs, l, b, ht⟩
    · rw [streamOf_cons hs, h1, h2, h3, h4]
      exact ⟨rfl, rfl⟩
    · have := ht.session
      rw [hv] at this
      cases this

/-! ## Runs -/

theorem Framed.cons (hs : Steps P v e u) (hv : nl ∉ held i v) (h : Framed P i u es v')
    (hl : handed i v'.world.trace =
      handed i v.world.trace ++ (split nl (held i v ++ streamOf P i v (e :: es))).map unCr) :
    Framed P i v (e :: es) v' :=
  ⟨hl, (always_cons Steps.det hs).mpr ⟨hv, h.buffer⟩⟩

theorem Framed.tail (hs : Steps P v e u) (h : Framed P i v (e :: es) v')
    (hl : handed i v'.world.trace = handed i u.world.trace ++ (split nl (held i u ++ streamOf P i u es)).map unCr) :
    Framed P i u es v' :=
  ⟨hl, ((always_cons Steps.det hs).mp h.buffer).2⟩

theorem one_line {b bs : Bytes} (hb : nl ∉ b) (h1 : bs.count nl = 1) :
    ∃ a y, b ++ bs = a ++ nl :: y ∧ nl ∉ a ∧ nl ∉ y := by
  have hm : nl ∈ b ++ bs := List.mem_append_right _ (List.count_pos_iff.mp (by omega))
  obtain ⟨a, y, he, ha⟩ := List.eq_append_cons_of_mem hm
  refine ⟨a, y, he, ha, ?_⟩
  have := congrArg (List.count nl) he
  rw [List.count_append, List.count_append, List.count_cons_self, List.count_eq_zero.mpr hb,
    List.count_eq_zero.mpr ha] at this
  exact List.count_eq_zero.mp (by omega)

theorem not_nul_tail {b bs st a y : Bytes} (h0 : (0 : UInt8) ∉ b ++ (bs ++ st)) (he : b ++ bs = a ++ nl :: y) :
    0 ∉ a ++ nl :: y ∧ 0 ∉ y ++ st := by
  rw [← List.append_assoc, he] at h0
  simp only [List.mem_append, List.mem_cons, not_or] at h0 ⊢
  exact ⟨h0.1, h0.1.2.2, h0.2⟩

theorem framed_of_oneLine (h : Wf v) (hb : nl ∉ held i v) (r : Run (Guarded (Reading i) (Steps P)) v es v')
    (h0 : 0 ∉ held i v ++ streamOf P i v es) (ht : Terminated nl (held i v ++ streamOf P i v es))
    (ro : Run (Guarded (OneLine i) (Steps P)) v es v') : Framed P i v es v' := by
  induction es generalizing v with
  | nil =>
    rw [r.nil_inv]
    rw [streamOf, List.append_nil] at ht
    have hnil := ht.eq_nil hb
    exact ⟨by simp [streamOf, hnil, split], always_nil.mpr hb⟩
  | cons e es ih =>
    obtain ⟨u, ⟨hr, hs⟩, r⟩ := r.cons_inv
    obtain ⟨u', ⟨ho, hs'⟩, ro⟩ := ro.cons_inv
    rw [← Steps.det _ _ _ _ hs hs'] at ro
    rw [streamOf_cons hs] at h0 ht
    rcases reading_step h hr hs with ⟨h1, h2, h3⟩ | ⟨s, ans, bs, l, b, hk⟩
    · rw [h1, List.nil_append, ← h3] at h0 ht
      have hf := ih (h.step hs) (h3 ▸ hb) r h0 ht ro
      exact hf.cons hs hb (by rw [hf.lines, h2, streamOf_cons hs, h1, List.nil_append, h3])
    · have hq := hk.extract
      rw [hk.lineRead, held_some hk.session] at h0 ht
      rw [held_some hk.session] at hb
      obtain ⟨hcount, hcr, hdesc⟩ : bs.count nl = 1 ∧ ((s.buf ++ bs).head? = some nl →
          ans.below (s.buf.length + bs.length) ≠ cr) ∧ (s.state = .opUploadDescription → bs.getLast? = some nl) := by
        have := ho
        rw [hk.event] at this
        have := this rfl s hk.session hk.upload hk.download
        rwa [hk.read] at this
      obtain ⟨a, y, he, ha, hy⟩ := one_line hb hcount
      obtain ⟨hn1, hn2⟩ := not_nul_tail h0 he
      rw [← List.append_assoc, he, List.append_assoc, List.cons_append] at ht
      rw [he, queryExtractFromBuf2_line hn1 ha (fun e => hcr (by rw [he, e]; rfl))] at hq
      obtain ⟨rfl, rfl⟩ : unCr (a ++ [nl]) = l ∧ y = b := by simpa using hq
      -- what stays is the beginning of the next line
      have hu : held i u = y := by
        by_cases hg : u.connections i = none
        · have hy0 := ht.tail
          rw [(reading_gone (h.step hs) hg r).1, List.append_nil] at hy0
          rw [held_none hg, hy0.eq_nil hy]
        · by_cases hd : s.state = .opUploadDescription
          · have hlast : y = [] := by
              rcases List.eq_nil_or_concat y with rfl | ⟨z, c, rfl⟩
              · rfl
              · have := congrArg List.getLast? he
                rw [List.getLast?_append, hdesc hd, List.concat_eq_append] at this
                simp [List.getLast?_append, List.getLast?_cons] at this
                simp [← this] at hy
            subst hlast
            exact List.suffix_nil.mp hk.suffix
          · exact hk.stays hg hd
      have hf := ih (h.step hs) (hu ▸ hy) r (hu ▸ hn2) (hu ▸ ht.tail) ro
      refine hf.cons hs (by rwa [held_some hk.session]) ?_
      rw [hf.lines, hk.line, streamOf_cons hs, hk.lineRead, held_some hk.session, ← List.append_assoc s.buf, he,
        List.append_assoc a, List.cons_append, split_append ha, hu, List.map_cons, List.append_assoc]
      rfl

theorem handed_mono (h : Wf v) (r : Run (Guarded (Reading i) (Steps P)) v es v') :
    ∃ more, handed i v'.world.trace = handed i v.world.trace ++ more := by
  induction es generalizing v with
  | nil => rw [r.nil_inv]; exact ⟨[], (List.append_nil _).symm⟩
  | cons e es ih =>
    obtain ⟨u, ⟨hr, hs⟩, r⟩ := r.cons_inv
    obtain ⟨more, hm⟩ := ih (h.step hs) r
    rcases reading_step h hr hs with ⟨-, h2, -⟩ | ⟨s, ans, bs, l, b, hk⟩
    · exact ⟨more, by rw [hm, h2]⟩
    · exact ⟨l :: more, by rw [hm, hk.line, List.append_assoc]; rfl⟩

theorem oneLine_of_lineRead_nil (hr : Reading i v e) (hl : lineRead i v e = []) : OneLine i v e := by
  cases e with
  | ready j ans =>
    rintro rfl s hs hup hdl
    obtain ⟨t, ht, -, hread⟩ := hr rfl
    obtain rfl : s = t := Option.some.inj (hs.symm.trans ht)
    obtain ⟨hn, he⟩ := hread hdl
    obtain ⟨bs, hbs⟩ := Option.ne_none_iff_exists'.mp hn
    obtain rfl : bs = [] := by
      simpa [lineRead, show v.connections j = some s from hs, hup, hdl, hbs] using hl
    exact absurd hbs he
  | _ => trivial

theorem oneLine_of_framed (h : Wf v) (hb : nl ∉ held i v) (r : Run (Guarded (Reading i) (Steps P)) v es v')
    (h0 : 0 ∉ held i v ++ streamOf P i v es) (ht : Terminated nl (held i v ++ streamOf P i v es))
    (rd : Run (Guarded (NoDescription i) (Steps P)) v es v') (hf : Framed P i v es v') :
    Run (Guarded (OneLine i) (Steps P)) v es v' := by
  induction es generalizing v with
  | nil => rw [r.nil_inv]; exact .nil
  | cons e es ih =>
    obtain ⟨u, ⟨hr, hs⟩, r⟩ := r.cons_inv
    obtain ⟨u', ⟨hd, hs'⟩, rd⟩ := rd.cons_inv
    rw [← Steps.det _ _ _ _ hs hs'] at rd
    have hl := hf.lines
    rw [streamOf_cons hs] at h0 ht hl
    rcases reading_step h hr hs with ⟨h1, h2, h3⟩ | ⟨s, ans, bs, l, b, hk⟩
    · rw [h1, List.nil_append, ← h3] at h0 ht hl
      rw [← h2] at hl
      exact .cons ⟨oneLine_of_lineRead_nil hr h1, hs⟩ (ih (h.step hs) (h3 ▸ hb) r h0 ht rd (hf.tail hs hl))
    · have hq := hk.extract
      have hdesc : s.state ≠ .opUploadDescription := by
        have := hd
        rw [hk.event] at this
        exact this rfl s hk.session
      rw [hk.lineRead, held_some hk.session] at h0 ht hl
      rw [held_some hk.session] at hb
      have hnl : nl ∈ l := by
        -- the line handed over is the first of the stream
        obtain ⟨more, hm⟩ := handed_mono (h.step hs) r
        obtain ⟨a, z, hz, ha⟩ := ht.first (by simp [hk.nonempty])
        rw [hm, hk.line, hz, split_append ha, List.map_cons, List.append_assoc, List.append_cancel_left_eq] at hl
        obtain ⟨rfl, -⟩ : l = unCr (a ++ [nl]) ∧ more = (split nl z).map unCr := by simpa using hl
        exact nl_mem_unCr a
      have hm : nl ∈ s.buf ++ bs := by
        by_contra hm
        rw [queryExtractFromBuf2_piece (fun h => h0 (by simp only [List.mem_append] at h ⊢; tauto)) hm
          (by simp [hk.nonempty])] at hq
        cases hq
        exact hm hnl
      obtain ⟨a, y, he, ha⟩ := List.eq_append_cons_of_mem hm
      obtain ⟨hn1, hn2⟩ := not_nul_tail h0 he
      have hcr : a = [] → ans.below (s.buf.length + bs.length) ≠ cr := by
        rintro rfl hcr
        rw [he, hcr, List.nil_append, queryExtractFromBuf2_lost hn1] at hq
        cases hq
        simp at hnl
      rw [he, queryExtractFromBuf2_line hn1 ha hcr] at hq
      obtain ⟨rfl, rfl⟩ : unCr (a ++ [nl]) = l ∧ y = b := by simpa using hq
      rw [← List.append_assoc, he, List.append_assoc, List.cons_append] at ht hl
      rw [split_append ha, List.map_cons, List.append_cons, ← hk.line] at hl
      have hu : held i u = y ∧ nl ∉ y := by
        by_cases hg : u.connections i = none
        · obtain ⟨hst, hh⟩ := reading_gone (h.step hs) hg r
          rw [hh, hst, List.append_nil, List.self_eq_append_right, List.map_eq_nil_iff, split_eq_nil] at hl
          exact ⟨by rw [held_none hg, hl], by simp [hl]⟩
        · have hy := hk.stays hg hdesc
          exact ⟨hy, hy ▸ hf.buffer [e] es u rfl (.cons hs .nil)⟩
      have ho : OneLine i v e := by
        rw [hk.event]
        rintro - t ht' - -
        obtain rfl : s = t := Option.some.inj (hk.session.symm.trans ht')
        rw [hk.read, Option.getD_some]
        refine ⟨?_, fun hhead => hcr ?_, fun hst => absurd hst hdesc⟩
        · have := congrArg (List.count nl) he
          rw [List.count_append, List.count_append, List.count_cons_self, List.count_eq_zero.mpr hb,
            List.count_eq_zero.mpr ha, List.count_eq_zero.mpr hu.2] at this
          omega
        · cases a with
          | nil => rfl
          | cons x a =>
            rw [he] at hhead
            cases hhead
            simp at ha
      rw [← hu.1] at hl hn2 ht
      exact .cons ⟨ho, hs⟩ (ih (h.step hs) (hu.1 ▸ hu.2) r hn2 ht.tail rd (hf.tail hs hl))

/-- **Framing.** A run whose reads each complete one line frames the stream; where only
the main loop takes lines, no other run does. -/
theorem lines_framed {s : Session} (h : Reachable P v) (hs : v.connections i = some s) (hb : nl ∉ s.buf)
    (r : Run (Guarded (Reading i) (Steps P)) v es v') (h0 : 0 ∉ s.buf ++ streamOf P i v es)
    (ht : Terminated nl (s.buf ++ streamOf P i v es)) :
    (Run (Guarded (OneLine i) (Steps P)) v es v' → Framed P i v es v') ∧
    (Run (Guarded (NoDescription i) (Steps P)) v es v' → Framed P i v es v' →
      Run (Guarded (OneLine i) (Steps P)) v es v') := by
  rw [← held_some hs] at hb h0 ht
  exact ⟨framed_of_oneLine h.wf hb r h0 ht, oneLine_of_framed h.wf hb r h0 ht⟩

end

/-! ### A line in two reads -/

def connects : List Event := [.accept 4 0 0]

theorem connects_ok : ∃ v s, Server.exec (fun _ _ => True) default .fresh connects = some v ∧
    v.connections 4 = some s ∧ s.buf = [] := by
  have h : (Server.exec (fun _ _ => True) default .fresh connects).map
      (fun v => (v.connections 4).map (·.buf)) = some (some []) := by decide +kernel
  obtain ⟨v, hv, hs⟩ := Option.map_eq_some_iff.mp h
  obtain ⟨s, hs, hb⟩ := Option.map_eq_some_iff.mp hs
  exact ⟨v, s, hv, hs, hb⟩

def readsOf (reads : List Bytes) : List Event := reads.map fun bs => .ready 4 { read := some bs }

theorem lines_split_read : ∃ v v' s es, Reachable default v ∧ v.connections 4 = some s ∧ s.buf = [] ∧
    Run (Guarded (Reading 4) (Steps default)) v es v' ∧ streamOf default 4 v es = ascii "ab\n" ∧
    ¬ Framed default 4 v es v' := by
  obtain ⟨v, s, hv, hs, hb⟩ := connects_ok
  let es := readsOf [ascii "a", ascii "b\n"]
  have h : ((Server.exec (fun _ _ => True) default .fresh connects).bind fun v =>
      (Server.exec (Reading 4) default v es).map fun v' =>
        (handed 4 v'.world.trace, handed 4 v.world.trace, streamOf default 4 v es)) =
      some ([ascii "a", ascii "b\n"], [], ascii "ab\n") := by decide +kernel
  rw [hv, Option.bind_some] at h
  obtain ⟨v', hv', h⟩ := Option.map_eq_some_iff.mp h
  simp only [Prod.mk.injEq] at h
  refine ⟨v, v', s, es, .exec hv, hs, hb, Server.exec_run hv', h.2.2, fun hf => ?_⟩
  have hl := hf.lines
  rw [h.1, h.2.1, h.2.2, held_some hs, hb] at hl
  exact absurd hl (by decide)

/-- A read that is one line, into an empty buffer. -/
def readsLine (v : Server) : Event → Bool
  | .ready 4 ans => (v.connections 4).all (·.buf == []) && ans.read.any fun bs =>
    bs.count nl == 1 && bs.head? != some nl &&
      bs.getLast? == some nl
  | _ => false

theorem oneLine_of_readsLine {v : Server} {e : Event} (h : readsLine v e = true) : OneLine 4 v e := by
  unfold readsLine at h
  split at h
  · rename_i ans
    intro _ s hs _ _
    simp only [Option.all_eq_true, Option.any_eq_true, Bool.and_eq_true, beq_iff_eq, bne_iff_ne] at h
    obtain ⟨hbuf, bs, hread, ⟨hcount, hhead⟩, hlast⟩ := h
    rw [hbuf s hs, hread]
    exact ⟨hcount, fun hnl => absurd hnl hhead, fun _ => hlast⟩
  · cases h

theorem lines_framed_two_reads : ∃ v v' es, Reachable default v ∧ streamOf default 4 v es = ascii "ab\ncd\n" ∧
    Framed default 4 v es v' ∧ (Run (Guarded (NoDescription 4) (Steps default)) v es v' → Framed default 4 v es v' →
      Run (Guarded (OneLine 4) (Steps default)) v es v') := by
  obtain ⟨v, s, hv, hs, hb⟩ := connects_ok
  let es := readsOf [ascii "ab\n", ascii "cd\n"]
  have h : ((Server.exec (fun _ _ => True) default .fresh connects).bind fun v =>
      ((Server.exec (Reading 4) default v es).map fun v' =>
        (streamOf default 4 v es, (Server.exec (fun v e => readsLine v e = true) default v es).isSome))) =
      some (ascii "ab\ncd\n", true) := by
    decide +kernel
  rw [hv, Option.bind_some] at h
  obtain ⟨v', hv', h⟩ := Option.map_eq_some_iff.mp h
  rw [Prod.mk.injEq] at h
  obtain ⟨u, hu⟩ := Option.isSome_iff_exists.mp h.2
  have hone : Run (Guarded (OneLine 4) (Steps default)) v es u :=
    (Server.exec_run hu).mono fun _ _ _ hs => ⟨oneLine_of_readsLine hs.1, hs.2⟩
  obtain rfl : u = v' := hone.unguard.det Steps.det (Server.exec_run hv').unguard
  have hr := lines_framed (.exec hv) hs (by simp [hb]) (Server.exec_run hv')
    (by rw [hb, h.1]; decide) (by rw [hb, h.1]; exact .inr ⟨ascii "ab\ncd", rfl⟩)
  exact ⟨v, u, es, .exec hv, h.1, hr.1 hone, hr.2⟩

end BbsServer
