import BbsServer.ExclusiveSound
import BbsServer.HandoverSound

/-!
# From the upload to the download

An upload whose reads are in step has its content in the file of its session
(`receiving_step`); when its description ends, the row is saved with the session's id and
the file stays as it is. A later download by name then succeeds exactly if the row was
inserted, its owner is a user, and the name fits `args.name` (`retrieved_iff`).
-/

namespace BbsServer

open CStr Function Packages Runs

/-! ## The content of a running upload -/

/-- The session has received what the decoder has: content, what is left, and the header's end. -/
structure Receiving (w : World) (s : Session) (d : Dec UInt8) : Prop where
  file : ∃ f, s.file = some f ∧ w.disk (storagePath f.hash) = some d.out ∧ f.rest = d.rest ∧
    f.size = d.out.length + d.rest ∧ (s.state = .opUpload → f.packageRest = d.left) ∧ ∃ n, f.name = some n ∧ n ≠ []
  rest : d.rest < 2 ^ 64
  left : s.state = .opUpload → d.left < 2 ^ 64 ∧ d.hdr = []
  done : s.state = .opUploadDescription → d.rest = 0

def ReceivingAt (i : Nat) (v : Server) : Prop :=
  ∀ ⦃s⦄, v.connections i = some s → s.uploads → Receiving v.world s (uploadRead i v.world.trace)

/-- A read of the upload in slot `i`, if it is not the end of the stream, is in step and its writes
are complete. -/
def ReadsInStep (i : Nat) (v : Server) : Event → Prop
  | .ready j ans => j = i → ∀ s ∈ v.connections i, s.state = .opUpload → ans.read ≠ none ∧ (ans.read ≠ some [] →
      ans.write1 = .full ∧ ans.write2 = .full ∧
      InStep filePd (uploadRead i v.world.trace).rest (uploadRead i v.world.trace).left (ans.read.getD []))
  | _ => True

instance (i : Nat) (v : Server) : ∀ e, Decidable (ReadsInStep i v e)
  | .accept .. => .isTrue trivial
  | .acceptFailed => .isTrue trivial
  | .ready .. => by unfold ReadsInStep; infer_instance

section
variable {P : Platform} {ans : Answers} {w w' : World} {s s' t : Session} {line : Option Bytes} {v v' : Server}
  {e : Event} {i j : Nat} {d : Dec UInt8}

theorem InStep.length {bs : Bytes} (hd : d.hdr = []) (hin : InStep filePd d.rest d.left bs) :
    (feedAll filePd d bs).out.length + (feedAll filePd d bs).rest = d.out.length + d.rest := by
  rcases hin with ⟨h1, h2⟩ | ⟨h1, h2⟩ | ⟨h1, h2, n, hn, h3⟩
  · rw [feedAll_payload filePd bs d h1 h2]
    simp only [List.length_append]
    omega
  · rw [feedAll_end filePd (Nat.le_of_lt h1) h2]
    simp only [List.length_append, List.length_take]
    omega
  · obtain ⟨e1, -, -, e4⟩ := feedAll_next filePd hd h1 h2 hn h3
    rw [e1, e4]
    simp only [List.length_append, List.length_take, List.length_drop]
    omega

theorem Receiving.congr (h : Receiving w s d)
    (hd : ∀ f, s.file = some f → w'.disk (storagePath f.hash) = w.disk (storagePath f.hash)) : Receiving w' s d where
  file := by
    obtain ⟨f, hf, hdisk, h⟩ := h.file
    exact ⟨f, hf, by rw [hd f hf]; exact hdisk, h⟩
  rest := h.rest
  left := h.left
  done := h.done

theorem Receiving.log (h : Receiving w s d) (a : Act) (b : Bytes) : Receiving (w.log a) { s with buf := b } d :=
  ⟨h.file, h.rest, h.left, h.done⟩

def Act.Elsewhere (i : Nat) : Act → Prop
  | .created sd .. => sd ≠ i
  | .received sd _ => sd ≠ i
  | _ => True

theorem uploadRead_elsewhere (h : Logs (Act.Elsewhere i) w w') : uploadRead i w'.trace = uploadRead i w.trace := by
  obtain ⟨ext, hext, he⟩ := h
  rw [hext]
  clear hext
  induction ext with
  | nil => rfl
  | cons a ext ih =>
    rw [List.cons_append, ← ih fun b hb => he b (List.mem_cons_of_mem _ hb)]
    have := he a (List.mem_cons_self ..)
    cases a with
    | created sd p d n => exact if_neg this
    | received sd bs => exact if_neg this
    | _ => rfl

theorem Act.elsewhere_own {a : Act} (hne : s.sd ≠ i) (h : a.Own w s) : a.Elsewhere i := by
  cases a with
  | created sd p d n => rw [show sd = s.sd from h.1]; exact hne
  | received sd bs => rw [show sd = s.sd from h]; exact hne
  | _ => trivial

theorem Act.elsewhere_mild {a : Act} (h : a.isMild) : a.Elsewhere i := by
  cases a <;> simp_all [Act.isMild, Act.Elsewhere]

/-! ## The session's own steps -/

theorem receiveArgs_name {l : Bytes} {a : Bytes × Nat × Int} (h : receiveArgs ans l = some a) : a.1 ≠ [] := by
  obtain ⟨b, -, h⟩ := Option.bind_eq_some_iff.mp h
  obtain ⟨n, hn, h⟩ := Option.bind_eq_some_iff.mp h
  split at h
  · cases h
  · rename_i h0
    have hlen := (strrchr_eq_some hn).2.2
    cases h
    intro he
    have := congrArg List.length he
    simp only [List.length_take, List.length_nil] at this
    omega

theorem receiving_accepted (h : Did P ans w s line w' s') (hl : line ≠ none) (hst : s.state ≠ .opUpload)
    (hst' : s'.state = .opUpload) : Receiving w' s' (uploadRead s.sd w'.trace) := by
  obtain ⟨l, rfl⟩ := Option.ne_none_iff_exists'.mp hl
  cases h with
  | @accepted name size perm hash d w₁ w' hw ha hsize hc ht =>
    have hdisk := World.create_content hc
    obtain ⟨-, rfl⟩ := World.create_ok hc
    obtain ⟨-, hargs⟩ := ha l rfl
    have hname : name ≠ [] := receiveArgs_name hargs
    have hread : uploadRead s.sd w'.trace = .start size := by
      rw [uploadRead_talks ht]
      exact if_pos rfl
    rw [hread]
    refine ⟨⟨_, rfl, ?_, rfl, (Nat.zero_add _).symm, fun _ => rfl, name, rfl, hname⟩, hsize, fun _ => ⟨?_, rfl⟩,
      fun h => by cases h⟩
    · rw [ht.disk]
      exact hdisk
    · exact Nat.two_pow_pos 64
  | talked => exact absurd hst' hst
  | dropped => rw [clearFileFromSess_state] at hst'; exact absurd hst' hst
  | moved _ _ hst₁ => rcases hst₁ with rfl | rfl <;> cases hst'
  | released _ _ hst₁ => rcases hst₁ with rfl | ⟨rfl, -⟩ <;> cases hst'
  | stored h => exact absurd h hst
  | notFound | notOpened | damaged | described => exact absurd hst' hst
  | _ => cases hst'

theorem fileUpload_length {r : World × Session} (h : fileUpload ans w s = .ok r) :
    (ans.read.getD []).length ≤ inBufSize := by
  unfold fileUpload fileUploadWith at h
  obtain ⟨f, -, h⟩ := bind_ok.mp h
  dsimp only at h
  by_contra hlen
  rw [if_pos (by omega)] at h
  cases h

/-- A read in step gives the file what it gives the decoder. -/
theorem receiving_read {bs : Bytes} (hr : Receiving w s d) (hst : s.state = .opUpload)
    (hfd : ∀ f, s.file = some f → s.fd.bind w.fds = some (.file (storagePath f.hash)))
    (hread : ans.read = some bs) (hne : bs ≠ []) (hw1 : ans.write1 = .full) (hw2 : ans.write2 = .full)
    (hin : InStep filePd d.rest d.left bs) (hx : fileUpload ans w s = .ok (w', s')) :
    Receiving w' s' (feedAll filePd d bs) := by
  have hlen := fileUpload_length hx
  rw [hread, Option.getD_some] at hlen
  obtain ⟨f, hf, hdisk, hrest, hsize, hleft, hname⟩ := hr.file
  obtain ⟨hl64, hhdr⟩ := hr.left hst
  obtain ⟨ext, pr, he, hout, hnext⟩ := fileUpload_inStep (w := w) hf hread hne hlen hw1 hw2 hrest
    (hleft hst) hr.rest hl64
    hhdr hin
  have hdisk' : (w.uploaded s bs ext).disk (storagePath f.hash) = some (feedAll filePd d bs).out := by
    rw [World.uploaded_disk, if_pos (hfd f hf), hdisk, hout]
    rfl
  have hlt : (feedAll filePd d bs).rest < 2 ^ 64 := Nat.lt_of_le_of_lt (feedAll_rest_le filePd bs d) hr.rest
  have hsize' : f.size = (feedAll filePd d bs).out.length + (feedAll filePd d bs).rest := by
    rw [hsize, InStep.length hhdr hin]
  rw [he] at hx
  unfold uploadFin uploadFinWith at hx
  by_cases h0 : (feedAll filePd d bs).rest = 0
  · rw [if_pos h0] at hx
    obtain ⟨w₁, ht, hx⟩ := bind_ok.mp hx
    cases hx
    refine ⟨⟨_, rfl, ?_, rfl, hsize', fun h => (by cases h), hname⟩, hlt, fun h => (by cases h), fun _ => h0⟩
    rw [(sessionSendString_talks ht).disk]
    exact hdisk'
  · rw [if_neg h0] at hx
    cases hx
    obtain ⟨hpr, hpr64, hhdr'⟩ := hnext h0
    refine ⟨⟨_, rfl, hdisk', rfl, hsize', fun _ => hpr, hname⟩, hlt, fun _ => ⟨hpr ▸ hpr64, hhdr'⟩, fun h => ?_⟩
    rw [show s.state = .opUploadDescription from h] at hst
    cases hst

theorem receiving_act {b : Bytes} (h : Wf v) (hs : v.connections i = some s)
    (hr : s.uploads → Receiving v.world s (uploadRead i v.world.trace))
    (hx : performSessionAction P ans v.world { s with buf := b } line = .ok (w', s'))
    (hl : s.state ≠ .opUpload → s.state ≠ .opDownload → line ≠ none)
    (hok : ReadsInStep i v (.ready i ans)) (hup : s'.uploads) : Receiving w' s' (uploadRead i w'.trace) := by
  have hd := performSessionAction_did hx
  have hsd : s.sd = i := h.sd hs
  subst hsd
  by_cases hst : s.state = .opUpload
  · obtain ⟨hnone, hread⟩ := hok rfl s hs hst
    have hdec : uploadRead s.sd w'.trace = feedAll filePd (uploadRead s.sd v.world.trace) (ans.read.getD []) :=
      hd.uploadRead hst
    rw [hdec]
    cases hbs : ans.read with
    | none => exact absurd hbs hnone
    | some bs =>
    by_cases hne : bs = []
    · -- the end of the stream ends the upload
      subst hne
      cases hd with
      | stored _ _ hread => exact absurd hbs hread
      | talked h => exact absurd hst h
      | ended => simp [Session.uploads] at hup
      | removed | writeFailed => simp [Session.uploads, Session.cleared] at hup
      | _ => simp_all
    · obtain ⟨hw1, hw2, hin⟩ := hread (by rw [hbs]; simpa using hne)
      rw [hbs] at hin
      have hx' := hx
      rw [performSessionAction_upload (s := { s with buf := b }) hst] at hx'
      rw [Option.getD_some]
      refine receiving_read ((hr (.inl hst)).log _ b) hst (fun f hf => ?_) hbs hne hw1 hw2 hin hx'
      · obtain ⟨g, d, hg, -, -, hgd, hfds, -⟩ := h.upload_path hs (.inl hst)
        obtain rfl : g = f := Option.some.inj (hg.symm.trans hf)
        simp only [hgd, Option.bind_some, World.log_fds, hfds]
  by_cases hst' : s.state = .opUploadDescription
  · have hr := hr (.inr hst')
    cases hd with
    | described _ _ _ hf =>
      obtain ⟨f, hf', hdisk, hrest, hsize, hleft, hname⟩ := hr.file
      obtain rfl := Option.some.inj (hf.symm.trans hf')
      exact ⟨⟨_, rfl, hdisk, hrest, hsize, hleft, hname⟩, hr.rest, hr.left, hr.done⟩
    | talked _ _ h => exact absurd hst' h
    | saved | notSaved => simp [Session.uploads, Session.cleared] at hup
    | _ => simp_all
  · rcases hd.upload hup with ⟨f, d, hw, hst₁, -⟩ | ⟨hup, -⟩
    · have hw : s.state = .opWait := hw
      exact (receiving_accepted (s := { s with buf := b }) hd (hl hst (by simp [hw])) hst hst₁ :)
    · exact (hup.elim hst hst').elim

/-! ## One event -/

theorem receiving_other {b : Bytes} {st : Act} (h : Wf v) (hs : v.connections i = some s)
    (ht : v.connections j = some t) (hij : j ≠ i)
    (hd : Did P ans (v.world.log st) { s with buf := b } line w' s') (hst : Act.Elsewhere j st) (hup : t.uploads)
    (hr : Receiving v.world t (uploadRead j v.world.trace)) : Receiving w' t (uploadRead j w'.trace) := by
  have hlog : Logs (Act.Elsewhere j) v.world w' := by
    refine .trans (.cons rfl hst) (hd.own.mono fun a => Act.elsewhere_own ?_)
    rw [show ({ s with buf := b } : Session).sd = i from (h.sd hs :)]
    exact Ne.symm hij
  rw [uploadRead_elsewhere hlog]
  refine hr.congr fun f hf => ?_
  obtain ⟨g, d, hg, hp, -, -, -, hdisk⟩ := h.upload_path ht hup
  obtain rfl : g = f := Option.some.inj (hg.symm.trans hf)
  refine Did.kept_disk h hs hd hdisk fun hst => ?_
  rw [← hp]
  exact h.path_ne (Ne.symm hij) hs ht (.inl hst) hup

theorem receiving_step (h : Wf v) (hr : ReceivingAt i v) (hok : ReadsInStep i v e) (hs : Steps P v e v') :
    ReceivingAt i v' := by
  have act : ∀ {j ans s b line w' s'}, e = .ready j ans → v.connections j = some s →
      performSessionAction P ans v.world { s with buf := b } line = .ok (w', s') →
      (s.state ≠ .opUpload → s.state ≠ .opDownload → line ≠ none) → ReceivingAt i (v.set j w' (some s')) := by
    intro j ans s b line w' s' he hc hx hl t ht hup
    subst he
    rcases Server.set_connections.mp ht with ⟨rfl, he⟩ | ⟨hne, ht⟩
    · cases he
      exact receiving_act h hc (fun hu => hr hc hu) hx hl hok hup
    · exact receiving_other h hc ht hne (performSessionAction_did hx) (by trivial) hup (hr ht hup)
  have close : ∀ {u : Server} (x : Session) (j : Nat), ReceivingAt i u →
    ReceivingAt i (u.set j (closeSession u.world x j) none) := by
    intro u x j hu t ht hup
    rcases Server.set_connections.mp ht with ⟨-, he⟩ | ⟨-, ht⟩
    · cases he
    · rw [Server.set_world, uploadRead_elsewhere ((closeSession_mild ..).mono fun a => Act.elsewhere_mild)]
      exact (hu ht hup).congr fun _ _ => by rw [closeSession_disk]
  cases step_stepped hs with
  | accepted _ _ ht =>
    intro t hj hup
    rcases Server.set_connections.mp hj with ⟨-, he⟩ | ⟨-, hj⟩
    · cases he; simp [Session.uploads] at hup
    · rw [Server.set_world, uploadRead_talks ht]
      exact (hr hj hup).congr fun _ _ => by rw [ht.disk]
  | idle => exact hr
  | @transfer j ans s w' s' hc hst _ hx => exact act (b := s.buf) rfl hc hx fun h1 h2 => (hst.elim h1 h2).elim
  | @line j ans s bs l b w' s' hc _ _ _ _ _ _ hx =>
    have hset := act rfl hc hx fun _ _ => by simp
    split
    · have := close s' j hset
      rwa [Server.set_set, Server.set_world] at this
    · exact hset
  | closed => exact close _ _ hr

/-! ## The end of the description -/

/-- The session in slot `i` is handed the line that ends the description of `f`, named `N`. -/
structure Completes (v : Server) (i : Nat) (ans : Answers) (s : Session) (f : SFile) (N : Bytes) : Prop where
  conn : v.connections i = some s
  state : s.state = .opUploadDescription
  ends : ∃ r ∈ lineOf ans s, EndsDescription ans { s with buf := r.2 } r.1
  file : s.file = some f
  name : f.name = some N

/-- The file `p` holds `c` and is that of the row, if there is one. -/
structure Filed (v : Server) (p c : Bytes) (row : Option FileRow) : Prop where
  kept : Kept v p c
  row : ∀ r, r ∈ v.world.files.rows ∧ r.path = p ↔ row = some r

/-- The row of an upload has another file. -/
theorem Filed.inserted {p c : Bytes} {row : Option FileRow} {row' r : FileRow} {files : FileTable}
    (hf : Filed v p c row)
    (hc : v.connections i = some s) (hst : s.state = .opUploadDescription) (hp : s.path = some row'.path)
    (hins : v.world.files.insert row' = some files) : r ∈ files.rows ∧ r.path = p ↔ row = some r := by
  have hne : row'.path ≠ p := fun e => hf.kept.free hc (.inr hst) (by rw [hp, e])
  rw [(FileTable.insert_rows hins).1, List.mem_append, List.mem_singleton, ← hf.row r]
  constructor
  · rintro ⟨hr | rfl, hrp⟩
    · exact ⟨hr, hrp⟩
    · exact absurd hrp hne
  · exact fun ⟨hr, hrp⟩ => ⟨.inl hr, hrp⟩

theorem Filed.step {p c : Bytes} {row : Option FileRow} (hf : Filed v p c row) (h : Wf v) (hs : Steps P v e v') :
    Filed v' p c row where
  kept := hf.kept.step h hs
  row r := by
    rcases hs.row h with he | ⟨i, s, row', c', -, hc, hst, hp, hins, -⟩
    · rw [he]
      exact hf.row r
    · exact hf.inserted hc hst hp hins

/-- The end of a description: the answer is always that the file is saved. -/
theorem Did.complete {l N : Bytes} {f : SFile} (h : Did P ans w s (some l) w' s')
    (hst : s.state = .opUploadDescription)
    (he : EndsDescription ans s l) (hf : s.file = some f) (hn : f.name = some N) :
    s'.state = .opWait ∧ .said s.sd (savedText N) ∈ w'.trace ∧ ((ans.insert = none ∧ w'.files = w.files) ∨
      ∃ row, ans.insert = some row.id ∧ w.files.insert row = some w'.files ∧ row.userId = s.uid ∧ row.name = N ∧
        row.size = f.size ∧ row.hash = f.hash) := by
  have hsaid : ∀ (w : World), Act.said s.sd (savedText N) ∈ ((w.log (.said s.sd (savedText N))).closeFd s).trace := fun w =>
    (Logs.closeFd _ s).subset (List.mem_cons_self ..)
  cases h with
  | saved _ hl _ hf' _ hn' hi hrow hins =>
    obtain rfl := Option.some.inj (hf.symm.trans hf')
    obtain rfl := Option.some.inj (hn.symm.trans hn')
    subst hrow
    exact ⟨rfl, hsaid _, .inr ⟨_, hi, by simpa using hins, rfl, rfl, rfl, rfl⟩⟩
  | notSaved _ hl _ hf' _ hn' hi =>
    obtain rfl := Option.some.inj (hf.symm.trans hf')
    obtain rfl := Option.some.inj (hn.symm.trans hn')
    exact ⟨rfl, hsaid _, .inl ⟨hi, by simp⟩⟩
  | described _ hl hno => cases hl; exact absurd he hno
  | talked _ _ h => exact absurd hst h
  | _ => simp_all

theorem completes_step {f : SFile} {N : Bytes} (h : Wf v) (hc : Completes v i ans s f N)
    (hs : Steps P v (.ready i ans) v') :
    .said i (savedText N) ∈ v'.world.trace ∧ v'.world.disk (storagePath f.hash) = v.world.disk (storagePath f.hash) ∧
      (∀ t, v'.connections i = some t → ¬ t.uploads) ∧ ((ans.insert = none ∧ v'.world.files = v.world.files) ∨
      ∃ row, ans.insert = some row.id ∧ v.world.files.insert row = some v'.world.files ∧ row.userId = s.uid ∧
        row.name = N ∧ row.size = f.size ∧ row.hash = f.hash) := by
  obtain ⟨⟨l, b⟩, hl, hends⟩ := hc.ends
  obtain ⟨w', s', hx, hv⟩ := hs.line hc.conn (by simp [hc.state]) (by simp [hc.state]) (by simp [hc.state]) hl
  have hd := performSessionAction_did hx
  obtain ⟨hst', hsaid, hrow⟩ := hd.complete hc.state hends hc.file hc.name
  obtain ⟨g, d, hg, -, -, -, -, hdisk⟩ := h.upload_path hc.conn (.inr hc.state)
  obtain rfl : g = f := Option.some.inj (hg.symm.trans hc.file)
  rw [if_neg (by rw [hst']; decide)] at hv
  subst hv
  refine ⟨?_, ?_, fun t ht => ?_, hrow⟩
  · rwa [show ({ s with buf := b } : Session).sd = i from (h.sd hc.conn :)] at hsaid
  · exact hd.disk hdisk fun h => by simp [hc.state] at h
  · rw [Server.set_self] at ht
    cases ht
    simp [Session.uploads, hst']

theorem completes_filed {f : SFile} {N : Bytes} (h : Wf v) (hx : Exclusive v) (hr : ReceivingAt i v)
    (hc : Completes v i ans s f N) (hs : Steps P v (.ready i ans) v') :
    ∃ row, Filed v' (storagePath f.hash) (uploadRead i v.world.trace).out row ∧ (row.isSome ↔ ans.insert.isSome) ∧
      ∀ r ∈ row, r.userId = s.uid ∧ r.name = N ∧ r.size = (uploadRead i v.world.trace).out.length ∧
        r.hash = f.hash := by
  obtain ⟨g, hg, hcont, -, hsize, -⟩ := (hr hc.conn (.inr hc.state)).file
  obtain rfl : g = f := Option.some.inj (hg.symm.trans hc.file)
  rw [(hr hc.conn (.inr hc.state)).done hc.state, Nat.add_zero] at hsize
  obtain ⟨g', d, hg', hp, -⟩ := h.upload_path hc.conn (.inr hc.state)
  obtain rfl : g = g' := Option.some.inj (hg.symm.trans hg')
  obtain ⟨-, hdisk, hidle, hrow⟩ := completes_step h hc hs
  have hold : ∀ r ∈ v.world.files.rows, r.path ≠ storagePath g.hash := by
    intro r hr he
    obtain ⟨c, hk⟩ := hx.stored hr
    exact hk.free hc.conn (.inr hc.state) (by rw [hp, he])
  have hkept : Kept v' (storagePath g.hash) (uploadRead i v.world.trace).out := by
    refine ⟨by rw [hdisk, hcont], fun j t ht hup => ?_⟩
    by_cases hij : j = i
    · subst hij
      exact absurd hup (hidle t ht)
    · rcases hs.session ht with ⟨_, _, he, -⟩ | ht | ⟨_, _, _, _, he, -⟩
      · cases he
      · rw [← hp]
        exact h.path_ne hij ht hc.conn hup (.inr hc.state)
      · cases he
        exact absurd rfl hij
  rcases hrow with ⟨hi, hfiles⟩ | ⟨row, hi, hins, huid, hname, hrsize, hhash⟩
  · refine ⟨none, ⟨hkept, fun r => ?_⟩, by simp [hi], fun r hr => by cases hr⟩
    rw [hfiles]
    exact iff_of_false (fun ⟨hr, he⟩ => hold r hr he) (by simp)
  · refine ⟨some row, ⟨hkept, fun r => ?_⟩, by simp [hi], fun r hr => ?_⟩
    · rw [(FileTable.insert_rows hins).1, List.mem_append, List.mem_singleton]
      constructor
      · rintro ⟨hr | rfl, he⟩
        · exact absurd he (hold r hr)
        · rfl
      · rintro ⟨⟩
        exact ⟨.inr rfl, by rw [FileRow.path, hhash]⟩
    · cases hr
      exact ⟨huid, hname, by rw [hrsize, hsize], hhash⟩

/-! ## The download -/

/-- `file download [N]` from a session in `OP_WAIT` sends a file that holds `c`: whenever the
database answers and `open` returns a free descriptor. -/
def Retrievable (w : World) (N c : Bytes) : Prop :=
  ∀ (t : Session) ans l, t.state = .opWait → fileCommand ans l = some (ascii "download") → sendName l = some N →
    ans.answered = true → (∃ d, ans.opened = some d ∧ w.fds d = none) →
    ∃ w' t' g p, fileSendPrepare ans (w.log (.handled t.sd t.state (some l))) t l = .ok (0, w', t') ∧
      t'.file = some g ∧ g.path = some p ∧ w'.disk p = some c

theorem mem_joined {r : FileRow} : r ∈ (joined w).map (·.1) ↔ r ∈ w.files.rows ∧
    ∃ u ∈ w.users.rows, u.id = r.userId := by
  simp only [joined, List.map_flatMap, List.map_map, List.mem_flatMap, List.mem_map, Function.comp_apply,
    List.mem_filter, beq_iff_eq]
  constructor
  · rintro ⟨r', hr', u, ⟨hu, hid⟩, rfl⟩
    exact ⟨hr', u, hu, hid⟩
  · rintro ⟨hr, u, hu, hid⟩
    exact ⟨r, hr, u, ⟨hu, hid⟩, rfl⟩

theorem dbGetFile_by_name {N : Bytes} {sf : SFile} (ha : ans.answered = true) (hne : N ≠ []) :
    dbGetFile ans w { id := 0, userId := 0, name := N } = some sf ↔
      ∃ r, (((joined w).map (·.1)).filter (·.name == N)).getLast? = some r ∧ dbGetFileDb r = sf := by
  simp [dbGetFile, ha, hne, Option.map_eq_some_iff]

theorem sendFound_zero {sf : SFile} : sendFound ans w s sf = .ok (0, w', s') ↔
    ∃ d, ans.opened = some d ∧ w.openRead s (storagePath sf.hash) d = .ok w' ∧
      sf.size = ((w.disk (storagePath sf.hash)).getD []).length ∧
      s' = { s with file := some { sf.stored with rest := sf.size, packageRest := packageSize }, fd := some d } := by
  unfold sendFound sendFoundWith
  cases ho : ans.opened with
  | none => simp
  | some d =>
    simp only [Option.some.injEq, exists_eq_left', bind_ok]
    constructor
    · rintro ⟨w₁, hop, h⟩
      rw [World.openRead_disk hop] at h
      split at h
      · cases h
      · rename_i hs
        cases h
        have hs := not_not.mp hs
        exact ⟨hop, hs, by rw [← hs]; rfl⟩
    · rintro ⟨hop, hs, rfl⟩
      refine ⟨w', hop, ?_⟩
      rw [World.openRead_disk hop, if_neg (not_not.mpr hs), ← hs]
      rfl

theorem fileSendPrepare_zero {l N : Bytes} (hn : sendName l = some N) : fileSendPrepare ans w s l = .ok (0, w', s') ↔
    N.length < fileNameLen ∧ ∃ sf, dbGetFile ans w { id := 0, userId := 0, name := N } = some sf ∧
      sendFound ans w s sf = .ok (0, w', s') := by
  rw [fileSendPrepare_eq hn]
  by_cases hlen : fileNameLen ≤ N.length
  · rw [if_pos hlen]
    exact iff_of_false (by simp) fun h => absurd h.1 (by omega)
  · rw [if_neg hlen, and_iff_right (show N.length < fileNameLen by omega)]
    split
    · rename_i hg
      simp [hg]
    · rename_i sf hg
      simp [hg]

def downloadLine (N : Bytes) : Bytes := ascii "file" ++ (32 :: (ascii "download" ++ (32 :: 91 :: (N ++ [93]))))

theorem fileCommand_downloadLine (N : Bytes) : fileCommand ans (downloadLine N) = some (ascii "download") := by
  have h1 : scanWord (downloadLine N) = some (ascii "file", 32 :: (ascii "download" ++ (32 :: 91 :: (N ++ [93])))) :=
    scanWord_word (by decide) (by decide +kernel) (by simp; decide)
  have h2 : scanWord (32 :: (ascii "download" ++ (32 :: 91 :: (N ++ [93])))) =
    some (ascii "download", 32 :: 91 :: (N ++ [93])) := by
    rw [scanWord_space (by decide)]
    exact scanWord_word (by decide) (by decide +kernel) (by simp; decide)
  have hargs : scanArgs ans (downloadLine N) = .ok (2, ascii "file", ascii "download") := by
    unfold scanArgs
    simp only [h1, h2]
    rfl
  simp [fileCommand, hargs]

theorem downloadLine_brackets (N : Bytes) : strchr (downloadLine N) 91 = some 14 ∧
    strrchr (downloadLine N) 93 = some (15 + N.length) := by
  refine ⟨strchr_append (a := ascii "file download ") (b := N ++ [93]) (by decide), ?_⟩
  have := strrchr_append (a := ascii "file download [" ++ N) (b := []) (c := 93) (by simp)
  rwa [List.length_append, List.append_assoc] at this

theorem sendName_downloadLine {N : Bytes} (hN : N ≠ []) : sendName (downloadLine N) = some N := by
  obtain ⟨hb, he⟩ := downloadLine_brackets N
  have hpos : 0 < N.length := List.length_pos_iff.mpr hN
  unfold sendName
  rw [hb, he]
  dsimp only
  rw [if_pos (by omega), show 15 + N.length - (14 + 1) = N.length by omega]
  congr 1
  exact List.take_left ..

/-! ## A free descriptor -/

def FdsBounded (w : World) : Prop := ∃ n, ∀ d, n ≤ d → w.fds d = none

theorem Did.opens (h : Did P ans w s line w' s') : ∃ x, ∀ d, d ≠ x → w.fds d = none → w'.fds d = none := by
  cases h with
  | registered _ _ _ _ ht => exact ⟨0, fun d _ hd => by rw [ht.fds]; exact hd⟩
  | dropped _ _ ht =>
    refine ⟨0, fun d _ hd => ?_⟩
    unfold clearFileFromSess
    split <;> simp [ht.fds, hd]
  | refused _ _ hw ht => rcases hw with rfl | rfl | ⟨rfl, -⟩ <;> exact ⟨0, fun d _ hd => by simp [ht.fds, hd]⟩
  | accepted _ _ _ hc ht =>
    obtain ⟨-, rfl⟩ := World.create_ok hc
    exact ⟨_, fun d hne hd => by rw [ht.fds]; exact (update_of_ne hne ..).trans hd⟩
  | damaged _ _ _ _ ho _ ht =>
    obtain ⟨-, rfl⟩ := World.openRead_ok ho
    exact ⟨_, fun d hne hd => by rw [ht.fds]; exact (update_of_ne hne ..).trans hd⟩
  | sending _ _ _ _ ho _ =>
    obtain ⟨-, rfl⟩ := World.openRead_ok ho
    exact ⟨_, fun d hne hd => (update_of_ne hne ..).trans hd⟩
  | released _ _ _ ht => exact ⟨0, fun d _ hd => by simp [ht.fds, hd]⟩
  | removed _ _ _ _ hw =>
    refine ⟨0, fun d _ hd => ?_⟩
    rcases hw with ⟨-, rfl⟩ | ⟨-, out, -, rfl⟩ <;> simp [hd]
  | writeFailed _ _ _ _ ht => exact ⟨0, fun d _ hd => by simp [ht.fds, hd]⟩
  | stored _ _ _ _ _ _ _ ht => exact ⟨0, fun d _ hd => by simp [ht.fds, hd]⟩
  | saved | notSaved => exact ⟨0, fun d _ hd => by simp [hd]⟩
  | notFound | ended | described => exact ⟨0, fun d _ hd => hd⟩
  | talked _ _ _ _ ht | left _ _ _ ht | rolledBack _ _ _ _ _ ht | anonymous _ _ _ _ _ ht | named _ _ _ ht
  | welcomed _ _ _ _ ht | loginAgain _ ht | notOpened _ _ _ _ ht | moved _ _ _ ht =>
    exact ⟨0, fun d _ hd => by rw [ht.fds]; exact hd⟩

theorem FdsBounded.one {x : Nat} (hb : FdsBounded w) (h : ∀ d, d ≠ x → w.fds d = none → w'.fds d = none) :
    FdsBounded w' := by
  obtain ⟨n, hn⟩ := hb
  exact ⟨max n (x + 1), fun d hd => h d (by omega) (hn d (by omega))⟩

theorem FdsBounded.closeSession (hb : FdsBounded w) (s : Session) (i : Nat) : FdsBounded (closeSession w s i) := by
  refine hb.one (x := i) fun d hne hd => ?_
  rw [closeSession_eq, World.close]
  dsimp only
  rw [update_of_ne hne]
  unfold clearFileFromSess
  split <;> simp [hd]

theorem FdsBounded.step (hb : FdsBounded v.world) (hs : Steps P v e v') : FdsBounded v'.world := by
  cases step_stepped hs with
  | @accepted sd uid privileges w' _ _ ht =>
    refine hb.one (x := sd) fun d hne hd => ?_
    rw [Server.set_world, ht.fds]
    exact (update_of_ne hne ..).trans hd
  | idle => exact hb
  | transfer _ _ _ hx =>
    obtain ⟨x, h⟩ := (performSessionAction_did hx).opens
    exact hb.one h
  | line _ _ _ _ _ _ _ hx =>
    obtain ⟨x, h⟩ := (performSessionAction_did hx).opens
    have hb' := hb.one h
    split
    · exact hb'.closeSession ..
    · exact hb'
  | closed => exact hb.closeSession ..

/-! ## From the saved row to the download -/

theorem getLast?_of_all {r : FileRow} {l : List FileRow} (hmem : r ∈ l) (hall : ∀ x ∈ l, x = r) :
    l.getLast? = some r := by
  cases hl : l.getLast? with
  | none => rw [List.getLast?_eq_none_iff.mp hl] at hmem; cases hmem
  | some x => rw [hall x (List.mem_of_getLast? hl)]

/-- When the upload's file is the only one named `N`, it can be downloaded by name exactly if it has
a row whose owner is a user, and the name and the working directory allow it. -/
theorem retrievable_of_filed {u : Server} {p N c : Bytes} {row : Option FileRow} (hf : Filed u p c row) (hN : N ≠ [])
    (hb : FdsBounded u.world) (hp : ∀ r ∈ row, storagePath r.hash = p ∧ r.name = N ∧ r.size = c.length)
    (hother : ∀ r ∈ u.world.files.rows, r.name = N → r.path = p) :
    Retrievable u.world N c ↔ (∃ r ∈ row, ∃ user ∈ u.world.users.rows, user.id = r.userId) ∧ N.length < fileNameLen ∧
      u.world.cwd = .work := by
  have hnamed : ∀ x, x ∈ ((joined u.world).map (·.1)).filter (·.name == N) → row = some x := by
    intro x hx
    obtain ⟨hx, hname⟩ := List.mem_filter.mp hx
    have hx := (mem_joined.mp hx).1
    exact (hf.row x).mp ⟨hx, hother x hx (by simpa using hname)⟩
  constructor
  · intro hr
    obtain ⟨n, hn⟩ := hb
    obtain ⟨w', t', g, q, hsend, -⟩ := hr (Session.waiting 0 [] 0) { opened := some n } (downloadLine N) rfl
      (fileCommand_downloadLine N) (sendName_downloadLine hN) rfl ⟨n, rfl, hn n (Nat.le_refl n)⟩
    obtain ⟨hlen, sf, hget, hfound⟩ := (fileSendPrepare_zero (sendName_downloadLine hN)).mp hsend
    obtain ⟨r, hlast, -⟩ := (dbGetFile_by_name rfl hN).mp hget
    have hmem := List.mem_of_getLast? hlast
    obtain ⟨d, -, hop, -⟩ := sendFound_zero.mp hfound
    exact ⟨⟨r, hnamed r hmem, (mem_joined.mp (List.mem_filter.mp hmem).1).2⟩, hlen, (World.openRead_ok hop).1.1⟩
  · rintro ⟨⟨r, hr, huser⟩, hlen, hcwd⟩ t ans l hst hcmd hname ha ⟨d, ho, hfree⟩
    obtain ⟨hrp, hrn, hrs⟩ := hp r hr
    have hrow := (hf.row r).mpr hr
    have hget : dbGetFile ans (u.world.log (.handled t.sd t.state (some l))) { id := 0, userId := 0, name := N } =
        some (dbGetFileDb r) := by
      refine (dbGetFile_by_name ha hN).mpr ⟨r, getLast?_of_all ?_ fun x hx => ?_, rfl⟩
      · exact List.mem_filter.mpr ⟨mem_joined.mpr ⟨hrow.1, huser⟩, by simpa using hrn⟩
      · have := hnamed x hx
        rw [Option.mem_def.mp hr] at this
        exact (Option.some.inj this).symm
    have hdisk : u.world.disk (storagePath (dbGetFileDb r).hash) = some c := by
      rw [show storagePath (dbGetFileDb r).hash = p from hrp]
      exact hf.kept.content
    obtain ⟨w', hop⟩ : ∃ w', (u.world.log (.handled t.sd t.state (some l))).openRead t (storagePath (dbGetFileDb r).hash) d =
        .ok w' := ⟨_, if_pos ⟨hcwd, by rw [World.log_disk, hdisk]; rfl, hfree⟩⟩
    refine ⟨w', _, _, _, (fileSendPrepare_zero hname).mpr ⟨hlen, _, hget, sendFound_zero.mpr ⟨d, ho, hop, ?_, rfl⟩⟩,
      rfl, rfl, ?_⟩
    · rw [World.log_disk, hdisk]
      exact hrs
    · rw [World.openRead_disk hop]
      exact hdisk

end

/-- **Retrieval.** An upload whose reads are in step is answered as saved. As long as no other file has
its name, it can then be downloaded by that name, with the content sent, exactly if its row was
inserted, the session's id is that of a user, the name fits `args.name` and `chdir` has not left the
server in the storage folder. -/
theorem retrieved_iff {P : Platform} {disk : Bytes → Option Bytes} {users : UserTable} {files : FileTable}
    (hcons : Consistent disk files) {es₁ es₂ : List Event} {v v' u : Server}
    {i : Nat} {ans : Answers} {s : Session} {f : SFile}
    {N : Bytes} (r₁ : Run (Guarded (ReadsInStep i) (Steps P)) (.start disk users files) es₁ v)
    (hc : Completes v i ans s f N) (hs : Steps P v (.ready i ans) v') (r₂ : Run (Steps P) v' es₂ u)
    (hother : ∀ r ∈ u.world.files.rows, r.name = N → r.path = storagePath f.hash) :
    .said i (savedText N) ∈ v'.world.trace ∧
    (Retrievable u.world N (uploadRead i v.world.trace).out ↔
      ans.insert ≠ none ∧ (∃ user ∈ u.world.users.rows, user.id = s.uid) ∧ N.length < fileNameLen ∧
        u.world.cwd = .work) := by
  have hstart : Exclusive (.start disk users files) := by
    refine ⟨hcons.1, fun r hr => ?_⟩
    obtain ⟨c, hc⟩ := Option.isSome_iff_exists.mp (hcons.2 r hr)
    exact ⟨c, hc, fun i s hs => by cases hs⟩
  have hwf₀ := start_wf disk users files
  have hwf : Wf v := r₁.unguard.inv Wf (fun _ _ _ h hs => h.step hs) hwf₀
  have hx : Exclusive v := r₁.unguard.inv_under Wf Exclusive (fun _ _ _ h hs => h.step hs)
    (fun _ _ _ h hx hs => hx.step h hs) hwf₀ hstart
  have hr : ReceivingAt i v := r₁.inv_under Wf (ReceivingAt i) (fun _ _ _ h hs => h.step hs.2)
    (fun _ _ _ h hr hs => receiving_step h hr hs.1 hs.2) hwf₀ fun _ h => by cases h
  have hb : FdsBounded u.world := by
    have h₀ : FdsBounded (Server.start disk users files).world := ⟨0, fun _ _ => rfl⟩
    exact r₂.inv (fun v => FdsBounded v.world) (fun _ _ _ h hs => h.step hs)
      ((r₁.unguard.inv (fun v => FdsBounded v.world) (fun _ _ _ h hs => h.step hs) h₀).step hs)
  refine ⟨(completes_step hwf hc hs).1, ?_⟩
  obtain ⟨row, hfiled, hrow, hdata⟩ := completes_filed hwf hx hr hc hs
  have hfiled : Filed u (storagePath f.hash) (uploadRead i v.world.trace).out row :=
    r₂.inv_under Wf (Filed · _ _ row) (fun _ _ _ h hs => h.step hs) (fun _ _ _ h hf hs => hf.step h hs) (hwf.step hs) hfiled
  obtain ⟨g, hg, -, -, -, -, n, hn, hne⟩ := (hr hc.conn (.inr hc.state)).file
  obtain rfl : g = f := Option.some.inj (hg.symm.trans hc.file)
  obtain rfl : n = N := Option.some.inj (hn.symm.trans hc.name)
  have howner : (∃ r ∈ row, ∃ user ∈ u.world.users.rows, user.id = r.userId) ↔
      ans.insert ≠ none ∧ ∃ user ∈ u.world.users.rows, user.id = s.uid := by
    rw [← Option.isSome_iff_ne_none, ← hrow]
    constructor
    · rintro ⟨r, hr, user, huser, hid⟩
      exact ⟨by rw [Option.mem_def.mp hr]; rfl, user, huser, by rw [hid, (hdata r hr).1]⟩
    · rintro ⟨hrow, user, huser, hid⟩
      obtain ⟨r, hr⟩ := Option.isSome_iff_exists.mp hrow
      exact ⟨r, hr, user, huser, by rw [hid, (hdata r hr).1]⟩
  rw [retrievable_of_filed hfiled hne hb (fun r hr => ?_) hother, howner, and_assoc]
  exact ⟨by rw [(hdata r hr).2.2.2], (hdata r hr).2.1, (hdata r hr).2.2.1⟩

/-! ### An anonymous upload

The session's `uid` is what `malloc` returned. -/

/-- Session 4 runs `es`, and `last` completes its upload of `a`: whether that is so, `a` is the only row, and `q`
holds afterwards. -/
def completesBy (es : List Event) (last : Answers) (q : World → Session → Bool) : Bool :=
  (Server.exec (ReadsInStep 4) default .fresh es).any fun v =>
    (v.connections 4).any fun s => s.state == .opUploadDescription &&
      (lineOf last s).any (fun r =>
        (fileUploadDescription last { s with buf := r.2 } r.1).toOption.map (·.1) == some true) &&
      s.file.any fun f => f.name == some (ascii "a") &&
        (v.step default (.ready 4 last)).toOption.any fun v' =>
          v'.world.files.rows.all (·.hash == f.hash) && q v'.world s

theorem completesBy_run {es : List Event} {last : Answers} {q : World → Session → Bool}
    (h : completesBy es last q = true) : ∃ v v' s f, Run (Guarded (ReadsInStep 4) (Steps default)) .fresh es v ∧
    Completes v 4 last s f (ascii "a") ∧ Steps default v (.ready 4 last) v' ∧
    (∀ r ∈ v'.world.files.rows, r.name = ascii "a" → r.path = storagePath f.hash) ∧ q v'.world s = true := by
  simp only [completesBy, Option.any_eq_true, Bool.and_eq_true, beq_iff_eq, List.all_eq_true] at h
  obtain ⟨v, hv, s, hs, ⟨hst, r, hr, hends⟩, f, hf, hname, v', hv', hrows, hq⟩ := h
  have hstep : Steps default v (.ready 4 last) v' := .of_toOption hv'
  refine ⟨v, v', s, f, Server.exec_run hv, ⟨hs, hst, ⟨r, hr, hends⟩, hf, hname⟩, hstep, fun r hr _ => ?_, hq⟩
  rw [FileRow.path, hrows r hr]

theorem anonymousUpload_completes :
    completesBy anonymousUpload anonymousEnd (fun w _ => w.users.rows == []) = true := by
  decide +kernel

/-- The client is told that the file is saved, and no download of it succeeds. -/
theorem anonymousUpload_not_retrieved : ∃ v v' s f, Run (Guarded (ReadsInStep 4) (Steps default)) .fresh anonymousUpload v ∧
    Completes v 4 anonymousEnd s f (ascii "a") ∧ Steps default v (.ready 4 anonymousEnd) v' ∧
    (∀ r ∈ v'.world.files.rows, r.name = ascii "a" → r.path = storagePath f.hash) ∧
    anonymousEnd.insert = some 1 ∧ .said 4 (savedText (ascii "a")) ∈ v'.world.trace ∧
    ¬ Retrievable v'.world (ascii "a") (uploadRead 4 v.world.trace).out := by
  obtain ⟨v, v', s, f, r, hc, hs, hother, husers⟩ := completesBy_run anonymousUpload_completes
  have hwf : Wf v := r.unguard.inv Wf (fun _ _ _ h hs => h.step hs) (start_wf ..)
  refine ⟨v, v', s, f, r, hc, hs, hother, rfl, (completes_step hwf hc hs).1, fun hr => ?_⟩
  have hb : FdsBounded v'.world :=
    (r.unguard.inv (fun v => FdsBounded v.world) (fun _ _ _ h hs => h.step hs) ⟨0, fun _ _ => rfl⟩).step hs
  obtain ⟨n, hn⟩ := hb
  obtain ⟨w', t', g, q, hsend, -⟩ := hr (Session.waiting 0 [] 0) { opened := some n } (downloadLine (ascii "a")) rfl
    (fileCommand_downloadLine _) (sendName_downloadLine (by decide)) rfl ⟨n, rfl, hn n (Nat.le_refl n)⟩
  obtain ⟨-, sf, hget, -⟩ := (fileSendPrepare_zero (sendName_downloadLine (by decide))).mp hsend
  obtain ⟨row, hlast, -⟩ := (dbGetFile_by_name rfl (by decide)).mp hget
  obtain ⟨u, hu, -⟩ := (mem_joined.mp (List.mem_filter.mp (List.mem_of_getLast? hlast)).1).2
  rw [show (v'.world.log _).users.rows = [] from beq_iff_eq.mp husers] at hu
  cases hu

/-! ### An upload of a registered user -/

def bobUpload : List Event :=
  [.accept 4 0 0, .ready 4 { read := some (ascii "register bob pw b@b\n"), insert := some 1 },
    .ready 4 { read := some (ascii "file upload \"a\" 1 0\n"), availableSpace := 1, probes := [{ opened := .fd 5 }] },
    .ready 4 { read := some (fpdHeader 1 ++ ascii "x") }]

def bobEnd : Answers := { read := some (ascii "text:END:\n"), insert := some 1 }

theorem retrieved_iff_bob : ∃ v v' s f, Run (Guarded (ReadsInStep 4) (Steps default)) .fresh bobUpload v ∧
    Completes v 4 bobEnd s f (ascii "a") ∧ Steps default v (.ready 4 bobEnd) v' ∧
    Retrievable v'.world (ascii "a") (uploadRead 4 v.world.trace).out := by
  have h : completesBy bobUpload bobEnd (fun w s => w.users.rows.any (·.id == s.uid) && w.cwd == .work) = true := by
    decide +kernel
  obtain ⟨v, v', s, f, r, hc, hs, hother, huser⟩ := completesBy_run h
  have hcons : Consistent (fun _ => none) .empty := ⟨List.nodup_nil, by simp [FileTable.empty]⟩
  simp only [Bool.and_eq_true, beq_iff_eq, List.any_eq_true] at huser
  obtain ⟨huser, hcwd⟩ := huser
  exact ⟨v, v', s, f, r, hc, hs, (retrieved_iff hcons r hc hs .nil hother).2.mpr ⟨by decide, huser, by decide, hcwd⟩⟩

end BbsServer
