import BbsServer.WellFormed

/-!
# Storage

Every file that an upload has created should belong to a row or to a running upload.
An upload can end without its file being removed or saved: when the description's
connection ends, when the row is not inserted, when the stream ends with nothing left,
and when `unlink` runs in the wrong directory. A run leaves no orphan exactly if none
of this happens (`noOrphan_iff`).
-/

namespace BbsServer

open CStr Function Runs

/-- The file is that of a row, or of a session that is receiving it. -/
def Server.Accounts (v : Server) (p : Bytes) : Prop :=
  (∃ r ∈ v.world.files.rows, storagePath r.hash = p) ∨
    ∃ i s, v.connections i = some s ∧ s.uploads ∧ s.path = some p

/-- **No orphan**: a created file that still exists belongs to something. -/
def NoOrphan (v : Server) : Prop :=
  ∀ ⦃sd p d n⦄, Act.created sd p d n ∈ v.world.trace → (v.world.disk p).isSome → v.Accounts p

/-- `file_upload` ends the upload and its file stays. -/
def UploadLeaves (ans : Answers) (w : World) (f : SFile) : Prop :=
  (ans.read = some [] ∧ f.rest = 0) ∨ (w.cwd = .storage ∧ (UploadWriteFails ans f ∨ UploadCancelled ans f))

/-- The line ends the description and its row is not inserted. -/
def DescriptionLeaves (ans : Answers) (s : Session) (line : Bytes) : Prop :=
  ans.insert = none ∧ EndsDescription ans s line

/-- The event ends no upload whose file stays, unless a row has the file already. -/
def KeepsStored (v : Server) : Event → Prop
  | .ready i ans => ∀ s ∈ v.connections i, (∃ r ∈ v.world.files.rows, s.path = some (storagePath r.hash)) ∨
      (s.state = .opUpload → ∀ f ∈ s.file, ¬ UploadLeaves ans v.world f) ∧
      (s.state = .opUploadDescription → ans.read ≠ none ∧ ans.read ≠ some [] ∧
        ∀ r ∈ lineOf ans s, ¬ DescriptionLeaves ans { s with buf := r.2 } r.1)
  | _ => True

section
variable {P : Platform} {ans : Answers} {w w' : World} {s s' : Session} {line : Option Bytes} {p : Bytes}

theorem Did.upload_kept (h : Did P ans w s line w' s') (hup : s.uploads) {f : SFile} (hf : s.file = some f)
    (hp : f.path = some (storagePath f.hash)) (hu : s.state = .opUpload → ¬ UploadLeaves ans w f)
    (hd : s.state = .opUploadDescription → ∀ l, line = some l → ¬ DescriptionLeaves ans s l) :
    (s'.uploads ∧ s'.path = s.path) ∨ (∃ r ∈ w'.files.rows, storagePath r.hash = storagePath f.hash) ∨
      w'.disk (storagePath f.hash) = none := by
  have hne : ∀ {st}, s.state = st → st ≠ .opUpload → st ≠ .opUploadDescription → False := by
    rintro st rfl h1 h2
    exact hup.elim h1 h2
  cases h with
  | removed hst hf' hp' hc hw =>
    rw [hf] at hf'
    cases hf'
    have hcwd : w.cwd = .work := by
      by_contra hcwd
      refine hu hst (.inr ⟨?_, .inr hc⟩)
      cases hd : w.cwd <;> simp_all
    rw [hp] at hp'
    cases hp'
    right
    right
    rcases hw with ⟨-, rfl⟩ | ⟨-, out, -, rfl⟩
    · simp [hcwd]
    · simp [World.uploaded, hcwd]
  | writeFailed hst hf' hp' hc ht =>
    rw [hf] at hf'
    cases hf'
    have hcwd : w.cwd = .work := by
      by_contra hcwd
      refine hu hst (.inr ⟨?_, .inl hc⟩)
      cases hd : w.cwd <;> simp_all
    rw [hp] at hp'
    cases hp'
    simp [World.uploaded, hcwd, ht.cwd]
  | stored hst hf' _ _ _ _ hst' =>
    left
    rw [hf] at hf'
    cases hf'
    refine ⟨?_, by simp [Session.path, hf]⟩
    rcases hst' with rfl | ⟨rfl, -⟩
    · exact .inl rfl
    · exact .inr rfl
  | ended hst hf' hread h0 =>
    rw [hf] at hf'
    cases hf'
    rcases hst with ⟨hst, -⟩ | hst
    · exact (hne hst (by decide) (by decide)).elim
    · exact absurd (.inl ⟨hread, h0⟩) (hu hst)
  | described hst _ _ hf' =>
    rw [hf] at hf'
    cases hf'
    exact .inl ⟨.inr hst, by simp [Session.path, hf]⟩
  | @saved _ _ _ _ _ _ row _ hst _ _ hf' _ _ _ hrow hi =>
    rw [hf] at hf'
    cases hf'
    refine .inr (.inl ⟨row, ?_, by rw [hrow]⟩)
    rw [World.closeFd_files, World.log_files, (FileTable.insert_rows hi).1]
    simp
  | notSaved hst hl he _ _ _ hi => exact absurd ⟨hi, he⟩ (hd hst _ hl)
  | talked h1 _ h3 => exact (hup.elim h1 h3).elim
  | left hst => rcases hst with hst | hst <;> exact (hne hst (by decide) (by decide)).elim
  | moved hst => rcases hst with hst | hst <;> exact (hne hst (by decide) (by decide)).elim
  | released hst => rcases hst with hst | hst <;> exact (hne hst (by decide) (by decide)).elim
  | registered hst | rolledBack hst | anonymous hst | named hst | welcomed hst | loginAgain hst | dropped hst | refused hst
  | accepted hst | notFound hst | notOpened hst | damaged hst | sending hst =>
    exact (hne hst (by decide) (by decide)).elim

theorem Did.upload_left (h : Did P ans w s line w' s') {f : SFile} (hf : s.file = some f)
    (hl : s.state = .opUpload ∧ UploadLeaves ans w f ∨
      s.state = .opUploadDescription ∧ ∃ l, line = some l ∧ DescriptionLeaves ans s l) (hd : (w.disk p).isSome) :
    ¬ s'.uploads ∧ w'.files = w.files ∧ (w'.disk p).isSome := by
  have hne : ∀ {st}, s.state = st → st ≠ .opUpload → st ≠ .opUploadDescription → False := by
    rintro st rfl h1 h2
    exact hl.elim (fun h => h1 h.1) fun h => h2 h.1
  have hup : ∀ {f'}, s.file = some f' → s.state = .opUpload → UploadLeaves ans w f' := by
    intro f' hf' hst
    rw [hf] at hf'
    cases hf'
    rcases hl with ⟨-, hl⟩ | ⟨hst', -⟩
    · exact hl
    · rw [hst] at hst'; cases hst'
  have hdl : ∀ {l'}, s.state = .opUploadDescription → line = some l' → DescriptionLeaves ans s l' := by
    intro l' hst hl'
    rcases hl with ⟨hst', -⟩ | ⟨-, l, hl, hd⟩
    · rw [hst] at hst'; cases hst'
    · rw [hl] at hl'
      cases hl'
      exact hd
  cases h with
  | removed hst hf' _ hc hw =>
    rcases hup hf' hst with ⟨hread, h0⟩ | ⟨hcwd, -⟩
    · rcases hc with ⟨-, hrest⟩ | ⟨hr, -⟩
      · exact absurd h0 hrest
      · exact absurd hread hr
    · refine ⟨by simp [Session.uploads, Session.cleared], ?_, ?_⟩
      · rcases hw with ⟨-, rfl⟩ | ⟨-, out, -, rfl⟩ <;> simp [World.uploaded]
      · rw [World.closeFd_disk, World.unlink_disk, if_neg]
        · rcases hw with ⟨-, rfl⟩ | ⟨-, out, -, rfl⟩
          · exact hd
          · rwa [World.uploaded, World.append_isSome]
        · rcases hw with ⟨-, rfl⟩ | ⟨-, out, -, rfl⟩ <;> simp [World.uploaded, hcwd]
  | writeFailed hst hf' _ hc ht =>
    rcases hup hf' hst with ⟨hread, -⟩ | ⟨hcwd, -⟩
    · exact absurd hread hc.1
    · refine ⟨by simp [Session.uploads, Session.cleared], by simp [World.uploaded, ht.files], ?_⟩
      rw [World.closeFd_disk, World.unlink_disk, if_neg (by simp [World.uploaded, ht.cwd, hcwd]), World.closeFd_disk,
        ht.disk, World.uploaded, World.append_isSome]
      exact hd
  | stored hst hf' hr hnw hnc =>
    rcases hup hf' hst with ⟨hread, -⟩ | ⟨-, hc⟩
    · exact absurd hread hr
    · exact absurd hc (not_or.mpr ⟨hnw, hnc⟩)
  | ended hst hf' =>
    refine ⟨by simp [Session.uploads], rfl, hd⟩
  | described hst hl' he => exact absurd (hdl hst hl').2 he
  | saved hst hl' _ _ _ _ hi =>
    have := (hdl hst hl').1
    rw [hi] at this
    cases this
  | notSaved => exact ⟨by simp [Session.uploads, Session.cleared], by simp, by simpa using hd⟩
  | talked h1 _ h3 => exact (hl.elim (fun h => h1 h.1) fun h => h3 h.1).elim
  | left hst => rcases hst with hst | hst <;> exact (hne hst (by decide) (by decide)).elim
  | moved hst => rcases hst with hst | hst <;> exact (hne hst (by decide) (by decide)).elim
  | released hst => rcases hst with hst | hst <;> exact (hne hst (by decide) (by decide)).elim
  | registered hst | rolledBack hst | anonymous hst | named hst | welcomed hst | loginAgain hst | dropped hst | refused hst
  | accepted hst | notFound hst | notOpened hst | damaged hst | sending hst =>
    exact (hne hst (by decide) (by decide)).elim

/-! ## One event -/

variable {v v' : Server} {e : Event} {es : List Event} {i : Nat}

def Made (v : Server) : Prop :=
  ∀ ⦃i s p⦄, v.connections i = some s → s.uploads → s.path = some p →
    ∃ sd d n, Act.created sd p d n ∈ v.world.trace

/-- An event on the session `s` of slot `i` leaves no orphan, if what it creates and what
becomes of the file of `s` is accounted for. -/
theorem noOrphan_set (hn : NoOrphan v) (hs : v.connections i = some s) {x : Option Session}
    (hrows : ∀ r ∈ v.world.files.rows, r ∈ w.files.rows)
    (hnew : ∀ sd p d n, Act.created sd p d n ∈ w.trace → Act.created sd p d n ∈ v.world.trace ∨
      ∃ t, x = some t ∧ t.uploads ∧ t.path = some p)
    (hdisk : ∀ p, (w.disk p).isSome → (v.world.disk p).isSome ∨ ∃ t, x = some t ∧ t.uploads ∧ t.path = some p)
    (hend : ∀ p, s.uploads → s.path = some p → (w.disk p).isSome → (∃ t, x = some t ∧ t.uploads ∧ t.path = some p) ∨
      ∃ r ∈ w.files.rows, storagePath r.hash = p) : NoOrphan (v.set i w x) := by
  have hself : ∀ {p}, (∃ t, x = some t ∧ t.uploads ∧ t.path = some p) → (v.set i w x).Accounts p := by
    rintro p ⟨t, rfl, htu, htp⟩
    exact .inr ⟨i, t, Server.set_connections.mpr (.inl ⟨rfl, rfl⟩), htu, htp⟩
  intro sd p d n hc hd
  rcases hnew _ _ _ _ hc with hc | hx
  · rcases hdisk p hd with hd' | hx
    · rcases hn hc hd' with ⟨r, hr, hp⟩ | ⟨j, t, ht, htu, htp⟩
      · exact .inl ⟨r, hrows r hr, hp⟩
      · by_cases hj : j = i
        · subst hj
          obtain rfl : s = t := Option.some.inj (hs.symm.trans ht)
          rcases hend p htu htp hd with hx | hr
          · exact hself hx
          · exact .inl hr
        · exact .inr ⟨j, t, Server.set_connections.mpr (.inr ⟨hj, ht⟩), htu, htp⟩
    · exact hself hx
  · exact hself hx

/-- An upload that ends without a row leaves an orphan. -/
theorem orphan_set (h : Wf v) (hm : Made v) (hs : v.connections i = some s) (hup : s.uploads) {f : SFile}
    (hf : s.file = some f) {x : Option Session} (hx : ∀ t, x = some t → ¬ t.uploads)
    (hfiles : w.files = v.world.files)
    (htrace : ∀ a ∈ v.world.trace, a ∈ w.trace) (hd : (w.disk (storagePath f.hash)).isSome)
    (hn : NoOrphan (v.set i w x)) : ∃ r ∈ v.world.files.rows, s.path = some (storagePath r.hash) := by
  obtain ⟨f', d, hf', -, hp, -⟩ := h.upload hs hup
  obtain rfl : f = f' := Option.some.inj (hf.symm.trans hf')
  have hpath : s.path = some (storagePath f.hash) := by rw [Session.path, hf, Option.bind_some, hp]
  obtain ⟨sd, d, n, hc⟩ := hm hs hup hpath
  rcases hn (htrace _ hc) hd with ⟨r, hr, he⟩ | ⟨j, t, ht, htu, htp⟩
  · rw [Server.set_world, hfiles] at hr
    exact ⟨r, hr, by rw [hpath, he]⟩
  · exfalso
    rcases Server.set_connections.mp ht with ⟨-, he⟩ | ⟨hj, ht⟩
    · exact hx t he htu
    · obtain ⟨g, d, hg, -, hgp, -⟩ := h.upload ht htu
      rw [Session.path, hg, Option.bind_some, hgp, Option.some.injEq] at htp
      exact h.paths hj ht hs htu hup hg hf htp

theorem Did.noOrphan {b : Bytes}
    (h : Did P ans (v.world.log (.handled s.sd s.state line)) { s with buf := b } line w' s')
    (hn : NoOrphan v) (hs : v.connections i = some s) (hend : ∀ p, s.uploads → s.path = some p → (w'.disk p).isSome →
      (s'.uploads ∧ s'.path = s.path) ∨ ∃ r ∈ w'.files.rows, storagePath r.hash = p) :
    NoOrphan (v.set i w' (some s')) := by
  refine noOrphan_set hn hs (fun _ => h.files_subset) (fun sd p d n hc => ?_) (fun p hd => ?_) fun p hup hp hd => ?_
  · rcases h.logs.old hc with hc | ⟨-, -, hu, hp⟩
    · rw [World.log_trace, List.mem_cons] at hc
      exact .inl (hc.resolve_left (by simp))
    · exact .inr ⟨s', rfl, hu, hp⟩
  · rcases h.disk_old hd with hd | ⟨hu, hp⟩
    · exact .inl hd
    · exact .inr ⟨s', rfl, hu, hp⟩
  · rcases hend p hup hp hd with ⟨hu, he⟩ | hr
    · exact .inl ⟨s', rfl, hu, he.trans hp⟩
    · exact .inr hr

theorem noOrphan_close (hn : NoOrphan v) (hs : v.connections i = some s) (x : Session) (hend : ∀ p, s.uploads →
    s.path = some p → ∃ r ∈ v.world.files.rows, storagePath r.hash = p) :
    NoOrphan (v.set i (closeSession v.world x i) none) := by
  refine noOrphan_set hn hs (fun r hr => by simpa using hr) (fun sd p d n hc => ?_)
    (fun p hd => .inl (by simpa using hd))
    fun p hup hp _ => .inr (by simpa using hend p hup hp)
  rcases (Logs.closeSession ..).old hc with hc | hc
  · exact .inl hc
  · simp [Act.isPlain] at hc

theorem Did.description_state (h : Did P ans w s line w' s') (hst : s.state = .opUploadDescription) :
    s'.state ≠ .err := by
  cases h with
  | dropped h => simp [hst] at h
  | moved h => simp [hst] at h
  | released h => simp [hst] at h
  | left h => simp [hst] at h
  | ended h => simp [hst] at h
  | described => simp [hst]
  | _ => simp_all [Session.cleared]

def Leaves (ans : Answers) (w : World) (s : Session) (line : Option Bytes) : Prop :=
  (s.state = .opUpload ∧ ∃ f ∈ s.file, UploadLeaves ans w f) ∨
    (s.state = .opUploadDescription ∧ ∃ l, line = some l ∧ DescriptionLeaves ans s l)

theorem Leaves.uploads (h : Leaves ans w s line) : s.uploads := h.imp And.left And.left

theorem storage_act {b : Bytes} (h : Wf v) (hm : Made v) (hn : NoOrphan v) (hs : v.connections i = some s)
    (hd : Did P ans (v.world.log (.handled s.sd s.state line)) { s with buf := b } line w' s') :
    NoOrphan (v.set i w' (some s')) ↔ ((∃ r ∈ v.world.files.rows, s.path = some (storagePath r.hash)) ∨
      ¬ Leaves ans v.world { s with buf := b } line) := by
  constructor
  · intro hn'
    by_cases hl : Leaves ans v.world { s with buf := b } line
    · obtain ⟨f, d, hf, -, -, -, -, hdisk⟩ := h.upload hs hl.uploads
      obtain ⟨hup, hfiles, hstays⟩ := hd.upload_left hf (hl.imp_left fun ⟨hst, f', hf', hl⟩ => ⟨hst, by
        obtain rfl : f = f' := Option.some.inj (hf.symm.trans hf')
        exact hl⟩) hdisk
      refine .inl (orphan_set h hm hs hl.uploads hf (fun t ht => ?_) hfiles (fun a ha => ?_) hstays hn')
      · cases ht; exact hup
      · exact hd.logs.subset (List.mem_cons_of_mem _ ha)
    · exact .inr hl
  · intro hk
    refine hd.noOrphan hn hs fun p hup hp hdisk => ?_
    obtain ⟨f, d, hf, -, hfp, -⟩ := h.upload hs hup
    rw [Session.path, hf, Option.bind_some, hfp] at hp
    cases hp
    rcases hk with ⟨r, hr, hp⟩ | hl
    · rw [Session.path, hf, Option.bind_some, hfp] at hp
      exact .inr ⟨r, hd.files_subset hr, (Option.some.inj hp).symm⟩
    · have hkept := hd.upload_kept hup hf hfp (fun hst hu => hl (.inl ⟨hst, f, hf, hu⟩))
        fun hst l hline hd => hl (.inr ⟨hst, l, hline, hd⟩)
      rcases hkept with hkept | hkept | hkept
      · exact .inl hkept
      · exact .inr hkept
      · rw [hkept] at hdisk
        cases hdisk

/-- **One event** leaves no orphan exactly if it ends no upload whose file stays. -/
theorem storage_step (h : Wf v) (hm : Made v) (hn : NoOrphan v) (hs : Steps P v e v') : NoOrphan v' ↔
    KeepsStored v e := by
  cases step_stepped hs with
  | @accepted sd uid privileges w' hfree _ ht =>
    refine iff_of_true (fun sd' p d n hc hd => ?_) trivial
    rw [Server.set_world] at hc hd
    rw [ht.disk] at hd
    have hc' : Act.created sd' p d n ∈ v.world.trace := by
      rcases (Logs.talks ht).old hc with hc | hc
      · exact (List.mem_cons.mp hc).resolve_left (by simp)
      · simp [Act.isPlain] at hc
    rcases hn hc' hd with ⟨r, hr, hp⟩ | ⟨j, t, hj, htu, htp⟩
    · exact .inl ⟨r, by rw [Server.set_world, ht.files]; exact hr, hp⟩
    · refine .inr ⟨j, t, Server.set_connections.mpr (.inr ⟨?_, hj⟩), htu, htp⟩
      rintro rfl
      rw [h.socket hj] at hfree
      cases hfree
  | idle hi =>
    refine iff_of_true hn ?_
    cases e with
    | ready i ans =>
      intro s hs
      obtain ⟨hst, hfd⟩ := hi i ans s rfl hs
      have hdl := h.idle_download hs hst hfd
      exact .inr ⟨fun hup => by simp [hdl] at hup, fun hd => by simp [hdl] at hd⟩
    | _ => trivial
  | @transfer i ans s w' s' hc hst hfd hx =>
    rw [storage_act (b := s.buf) h hm hn hc (performSessionAction_did hx)]
    constructor
    · intro hk t ht
      obtain rfl : s = t := Option.some.inj (hc.symm.trans ht)
      exact hk.imp_right fun hl => ⟨fun hup f hf hu => hl (.inl ⟨hup, f, hf, hu⟩), fun hd => by simp [hd] at hst⟩
    · intro hk
      refine (hk s hc).imp_right fun hk hl => ?_
      rcases hl with ⟨hup, f, hf, hu⟩ | ⟨-, l, hl, -⟩
      · exact hk.1 hup f hf hu
      · cases hl
  | @line i ans s bs l b w' s' hc hup hdl hread hne _ hq hx =>
    have hd := performSessionAction_did hx
    rw [← lineOf_eq hread hne] at hq
    have hk : KeepsStored v (.ready i ans) ↔ ((∃ r ∈ v.world.files.rows, s.path = some (storagePath r.hash)) ∨
        ¬ Leaves ans v.world { s with buf := b } (some l)) := by
      constructor
      · intro hk
        refine (hk s hc).imp_right fun hk hl => ?_
        rcases hl with ⟨hst, -⟩ | ⟨hst, l', hl, hd⟩
        · exact hup hst
        · cases hl
          exact (hk.2 hst).2.2 _ hq hd
      · intro hk t ht
        obtain rfl : s = t := Option.some.inj (hc.symm.trans ht)
        refine hk.imp_right fun hl => ⟨fun hst => absurd hst hup,
          fun hst => ⟨by simp [hread], by simp [hread, hne], ?_⟩⟩
        intro r hr hd
        obtain rfl : r = (l, b) := Option.some.inj ((Option.mem_def.mp hr).symm.trans hq)
        exact hl (.inr ⟨hst, l, rfl, hd⟩)
    rw [hk, ← storage_act h hm hn hc hd]
    split
    · rename_i herr
      have hnu : ¬ s'.uploads := by simp [Session.uploads, herr]
      have hn' : NoOrphan (v.set i w' (some s')) := hd.noOrphan (s := s) hn hc fun p hu _ _ => by
        rcases hu with hst | hst
        · exact absurd hst hup
        · exact absurd herr (hd.description_state hst)
      have := noOrphan_close hn' (Server.set_self ..) s' fun p hu => absurd hu hnu
      rw [Server.set_set] at this
      exact iff_of_true this hn'
    · exact Iff.rfl
  | @closed i ans s st b hc hup hdl hend =>
    by_cases hst : s.state = .opUploadDescription
    · have hk : KeepsStored v (.ready i ans) ↔ ∃ r ∈ v.world.files.rows, s.path = some (storagePath r.hash) := by
        constructor
        · intro hk
          refine (hk s hc).resolve_right fun hk => ?_
          obtain ⟨h1, h2, -⟩ := hk.2 hst
          rcases hend with he | he | he
          · exact h1 he
          · exact h2 he
          · rw [hst] at he; cases he
        · intro hr t ht
          obtain rfl : s = t := Option.some.inj (hc.symm.trans ht)
          exact .inl hr
      rw [hk]
      obtain ⟨f, d, hf, -, hfp, -, -, hdisk⟩ := h.upload hc (.inr hst)
      constructor
      · exact fun hn' => orphan_set h hm hc (.inr hst) hf (fun t ht => by cases ht) (by simp)
          (fun a ha => (Logs.closeSession ..).subset ha) (by simpa using hdisk) hn'
      · rintro ⟨r, hr, he⟩
        refine noOrphan_close hn hc _ fun p _ hp => ⟨r, hr, ?_⟩
        rw [hp] at he
        exact (Option.some.inj he).symm
    · refine iff_of_true (noOrphan_close hn hc _ fun p hu _ => ?_) fun t ht => ?_
      · exact (hu.elim hup hst).elim
      · obtain rfl : s = t := Option.some.inj (hc.symm.trans ht)
        exact .inr ⟨fun h => absurd h hup, fun h => absurd h hst⟩

/-! ## Runs -/

theorem Did.made (h : Did P ans w s line w' s') (hup : s'.uploads) (hp : s'.path = some p) :
    (∃ sd d n, Act.created sd p d n ∈ w'.trace) ∨ (s.uploads ∧ s.path = some p) := by
  cases h with
  | @accepted _ size _ hash d _ _ _ _ _ hc ht =>
    obtain ⟨-, rfl⟩ := World.create_ok hc
    obtain rfl : storagePath hash = p := Option.some.inj hp
    exact .inl ⟨s.sd, d, size, (Logs.talks ht).subset (List.mem_cons_self ..)⟩
  | stored hst hf =>
    rw [Session.path, Option.bind_some] at hp
    exact .inr ⟨.inl hst, by rw [Session.path, hf]; exact hp⟩
  | described hst _ _ hf =>
    rw [Session.path, Option.bind_some] at hp
    exact .inr ⟨.inr hst, by rw [Session.path, hf]; exact hp⟩
  | moved _ _ hst => rcases hst with rfl | rfl <;> simp [Session.uploads] at hup
  | released _ _ hst => rcases hst with rfl | ⟨rfl, -⟩ <;> simp [Session.uploads, Session.cleared] at hup
  | _ => simp_all [Session.uploads, Session.cleared]

theorem Made.step (hm : Made v) (hs : Steps P v e v') : Made v' := by
  have keep : ∀ {w : World} {i : Nat} {x : Option Session}, (∀ a ∈ v.world.trace, a ∈ w.trace) →
      (∀ s p, x = some s → s.uploads → s.path = some p → ∃ sd d n, Act.created sd p d n ∈ w.trace) →
      Made (v.set i w x) := by
    intro w i x ht hx j t p hj hu hp
    rcases Server.set_connections.mp hj with ⟨-, he⟩ | ⟨-, hj⟩
    · exact hx t p he hu hp
    · obtain ⟨sd, d, n, hc⟩ := hm hj hu hp
      exact ⟨sd, d, n, ht _ hc⟩
  have act : ∀ {i s b ans line w' s'}, v.connections i = some s →
      Did P ans (v.world.log (.handled s.sd s.state line)) { s with buf := b } line w' s' →
      Made (v.set i w' (some s')) := by
    intro i s b ans line w' s' hc hd
    have hsub : ∀ a ∈ v.world.trace, a ∈ w'.trace := fun a ha => hd.logs.subset (List.mem_cons_of_mem _ ha)
    refine keep hsub fun t p ht hu hp => ?_
    cases ht
    rcases hd.made hu hp with hnew | ⟨hu, hp⟩
    · exact hnew
    · obtain ⟨sd, d, n, hcr⟩ := hm hc hu hp
      exact ⟨sd, d, n, hsub _ hcr⟩
  cases step_stepped hs with
  | accepted _ _ ht =>
    refine keep (fun a ha => (Logs.talks ht).subset (List.mem_cons_of_mem _ ha)) fun s p hs hu => ?_
    cases hs
    simp [Session.uploads] at hu
  | idle => exact hm
  | @transfer i ans s w' s' hc _ _ hx => exact act (b := s.buf) hc (performSessionAction_did hx)
  | @line i ans s _ _ b _ _ hc _ _ _ _ _ _ hx =>
    have := act (s := s) (b := b) hc (performSessionAction_did hx)
    split
    · intro j t p hj hu hp
      rcases Server.set_connections.mp hj with ⟨-, he⟩ | ⟨hne, hj⟩
      · cases he
      · obtain ⟨sd, d, n, hcr⟩ := this (Server.set_connections.mpr (.inr ⟨hne, hj⟩)) hu hp
        exact ⟨sd, d, n, (Logs.closeSession ..).subset hcr⟩
    · exact this
  | closed => exact keep (fun a ha => (Logs.closeSession ..).subset ha) fun s p hs => by cases hs

/-- **Storage.** In every state of a run no created file is an orphan, exactly if no event
of the run ends an upload whose file stays without a row. -/
theorem noOrphan_iff {disk : Bytes → Option Bytes} {users : UserTable} {files : FileTable}
    (r : Run (Steps P) (.start disk users files) es v) :
    Always (Steps P) (.start disk users files) es NoOrphan ↔
      Run (Guarded KeepsStored (Steps P)) (.start disk users files) es v :=
  always_iff_guarded Steps.det (fun v => Wf v ∧ Made v) NoOrphan (fun _ _ _ h hs => ⟨h.1.step hs, Made.step h.2 hs⟩)
    (fun _ _ _ h hn hs => storage_step h.1 h.2 hn hs) r
    ⟨start_wf disk users files, fun _ _ _ h => by cases h⟩ (fun _ _ _ _ h => by cases h)

end

/-! ### A client that leaves before the description -/

def partUpload : List Event :=
  [.accept 4 0 0, .ready 4 { read := some (ascii "anonymous") },
    .ready 4 { read := some (ascii "file upload \"a\" 1 0\n"), availableSpace := 1, probes := [{ opened := .fd 5 }] },
    .ready 4 { read := some (leBytes 8 0 ++ leBytes 8 1 ++ ascii "x") }, .ready 4 { read := some [] }]

theorem noOrphan_part_upload : ∃ v, Run (Steps default) .fresh partUpload v ∧ ¬ NoOrphan v := by
  have h : (Server.exec (fun _ _ => True) default .fresh partUpload).map (fun v =>
      (v.world.trace.any fun a => a == .created 4 (storagePath (murmurHash3X86_32 (ascii "a") fileHashSeed)) 5 1,
        v.world.disk (storagePath (murmurHash3X86_32 (ascii "a") fileHashSeed)), v.world.files.rows,
        (v.connections 4).isSome)) = some (true, some (ascii "x"), [], false) := by
    decide +kernel
  obtain ⟨v, hv, h⟩ := Option.map_eq_some_iff.mp h
  simp only [Prod.mk.injEq, List.any_eq_true, beq_iff_eq] at h
  obtain ⟨⟨a, ha, rfl⟩, hdisk, hrows, hgone⟩ := h
  have hr := (Server.exec_run hv).unguard
  refine ⟨v, hr, fun hn => ?_⟩
  rcases hn ha (by rw [hdisk]; rfl) with ⟨r, hr, -⟩ | ⟨j, t, ht, -⟩
  · rw [hrows] at hr
    cases hr
  · obtain ⟨uid, privileges, hj⟩ := connected hr rfl ht
    obtain rfl : j = 4 := by
      simp only [partUpload, List.mem_cons, Event.accept.injEq, reduceCtorEq, List.not_mem_nil, or_false] at hj
      exact hj.1
    rw [ht] at hgone
    cases hgone

theorem noOrphan_iff_part_upload : ∃ v, Always (Steps default) .fresh partUpload NoOrphan ↔
    Run (Guarded KeepsStored (Steps default)) .fresh partUpload v := by
  have h : (Server.exec (fun _ _ => True) default .fresh partUpload).isSome := by decide +kernel
  obtain ⟨v, hv⟩ := Option.isSome_iff_exists.mp h
  exact ⟨v, noOrphan_iff (Server.exec_run hv).unguard⟩

end BbsServer
