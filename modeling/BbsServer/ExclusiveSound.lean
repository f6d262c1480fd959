import BbsServer.WellFormed

/-!
# Storage paths

A file that no session is receiving keeps its content (`Kept.step`). So a row keeps the
file with which it was saved, whatever other sessions upload, cancel or fail to store:
the paths of rows and of running uploads are pairwise distinct, and no step unlinks or
creates a file under a path that is in use (`paths_exclusive`).
-/

namespace BbsServer

open CStr Function Runs

structure Kept (v : Server) (p c : Bytes) : Prop where
  content : v.world.disk p = some c
  free : ∀ ⦃i s⦄, v.connections i = some s → s.uploads → s.path ≠ some p

def FileRow.path (r : FileRow) : Bytes := storagePath r.hash

/-- Rows and uploads have their own files. -/
structure Exclusive (v : Server) : Prop where
  rows : (v.world.files.rows.map (·.path)).Nodup
  stored : ∀ ⦃r⦄, r ∈ v.world.files.rows → ∃ c, Kept v r.path c

/-- The path belongs to a row, or to the upload of a session that the event does not serve. -/
def InUse (v : Server) (e : Event) (p : Bytes) : Prop :=
  (∃ r ∈ v.world.files.rows, r.path = p) ∨
    ∃ i s, v.connections i = some s ∧ s.uploads ∧ s.path = some p ∧ ∀ ans, e ≠ .ready i ans

/-- Neither an unlink nor a creation of a path in use. -/
def Spares (v : Server) (e : Event) : Act → Prop
  | .unlinked p => ¬ InUse v e p
  | .created _ p _ _ => ¬ InUse v e p
  | _ => True

def SparesPaths (v : Server) (e : Event) (v' : Server) : Prop := Logs (Spares v e) v.world v'.world

section
variable {P : Platform} {ans : Answers} {w w' : World} {s s' t : Session} {line : Option Bytes} {v v' : Server}
  {e : Event} {i j : Nat} {p c : Bytes}

/-! ## One action -/

theorem Wf.upload_path (h : Wf v) (hs : v.connections i = some s) (hup : s.uploads) : ∃ f d, s.file = some f ∧
    s.path = some (storagePath f.hash) ∧ f.path = some (storagePath f.hash) ∧ s.fd = some d ∧
    v.world.fds d = some (.file (storagePath f.hash)) ∧ (v.world.disk (storagePath f.hash)).isSome := by
  obtain ⟨f, d, hf, -, hp, hd, hfd, hdisk⟩ := h.upload hs hup
  exact ⟨f, d, hf, by rw [Session.path, hf, Option.bind_some, hp], hp, hd, hfd, hdisk⟩

theorem Wf.path_ne (h : Wf v) (hij : i ≠ j) (hs : v.connections i = some s) (ht : v.connections j = some t)
    (hsu : s.uploads) (htu : t.uploads) : s.path ≠ t.path := by
  obtain ⟨f, -, hf, hp, -⟩ := h.upload_path hs hsu
  obtain ⟨g, -, hg, hq, -⟩ := h.upload_path ht htu
  rw [hp, hq]
  exact fun e => h.paths hij hs ht hsu htu hf hg (Option.some.inj e)

theorem Did.kept_disk (h : Wf v) (hs : v.connections i = some s) {b : Bytes} {st : Act}
    (hd : Did P ans (v.world.log st) { s with buf := b } line w' s') (hp : (v.world.disk p).isSome)
    (hne : s.state = .opUpload → s.path ≠ some p) : w'.disk p = v.world.disk p := by
  refine hd.disk hp fun hst => ?_
  obtain ⟨f, d, hf, hsp, hfp, hfd, hfds, -⟩ := h.upload_path hs (.inl hst)
  have hpf : storagePath f.hash ≠ p := fun e => hne hst (by rw [hsp, e])
  refine ⟨?_, fun g hg => ?_⟩
  · simp only [hfd, Option.bind_some, World.log_fds, hfds]
    simpa using hpf
  · obtain rfl : f = g := Option.some.inj (hf.symm.trans hg)
    rw [hfp]
    simpa using hpf

theorem Did.upload_path (h : Did P ans w s line w' s') (hup : s'.uploads) :
    (s.uploads ∧ s'.path = s.path) ∨ ∃ q, s'.path = some q ∧ w.disk q = none := by
  rcases h.upload hup with ⟨f, d, -, -, hf, -, hp, -, hnone, -⟩ | ⟨hsu, f, f', hf, hf', -, hp, -⟩
  · exact .inr ⟨_, by rw [Session.path, hf, Option.bind_some, hp], hnone⟩
  · exact .inl ⟨hsu, by rw [Session.path, Session.path, hf, hf', Option.bind_some, Option.bind_some, hp]⟩

theorem Kept.act (hk : Kept v p c) (h : Wf v) (hs : v.connections i = some s) {b : Bytes} {st : Act}
    (hd : Did P ans (v.world.log st) { s with buf := b } line w' s') : Kept (v.set i w' (some s')) p c where
  content := by
    rw [Server.set_world, Did.kept_disk h hs hd (by rw [hk.content]; rfl) fun hst => hk.free hs (.inl hst)]
    exact hk.content
  free := by
    intro j t ht hup
    rcases Server.set_connections.mp ht with ⟨rfl, he⟩ | ⟨-, ht⟩
    · cases he
      rcases hd.upload_path hup with ⟨hsu, hp⟩ | ⟨q, hq, hnone⟩
      · rw [hp]
        exact (hk.free hs hsu :)
      · rw [hq]
        rintro ⟨⟩
        rw [World.log_disk, hk.content] at hnone
        cases hnone
    · exact hk.free ht hup

/-! ## One event -/

theorem Kept.close (hk : Kept v p c) (x : Session) (i : Nat) :
    Kept (v.set i (closeSession v.world x i) none) p c where
  content := by rw [Server.set_world, closeSession_disk]; exact hk.content
  free := by
    intro j t ht hup
    rcases Server.set_connections.mp ht with ⟨-, he⟩ | ⟨-, ht⟩
    · cases he
    · exact hk.free ht hup

/-- **A file that is there** is changed by its own upload only. -/
theorem Steps.disk (h : Wf v) (hs : Steps P v e v') (hp : (v.world.disk p).isSome)
    (hne : ∀ i s, e.At i → v.connections i = some s → s.state = .opUpload → s.path ≠ some p) :
    v'.world.disk p = v.world.disk p := by
  cases step_stepped hs with
  | accepted _ _ ht => rw [Server.set_world, ht.disk]
  | idle => rfl
  | transfer hc _ _ hx => exact Did.kept_disk h hc (performSessionAction_did hx) hp (hne _ _ rfl hc)
  | line hc _ _ _ _ _ _ hx =>
    have hkept := Did.kept_disk h hc (performSessionAction_did hx) hp (hne _ _ rfl hc)
    split
    · rw [Server.set_world, closeSession_disk, hkept]
    · exact hkept
  | closed => rw [Server.set_world, closeSession_disk]

/-- **A file that nobody receives** stays as it is. -/
theorem Kept.step (hk : Kept v p c) (h : Wf v) (hs : Steps P v e v') : Kept v' p c := by
  cases step_stepped hs with
  | accepted _ _ ht =>
    constructor
    · rw [Server.set_world, ht.disk]; exact hk.content
    · intro j t hj hup
      rcases Server.set_connections.mp hj with ⟨-, he⟩ | ⟨-, hj⟩
      · cases he; simp [Session.uploads] at hup
      · exact hk.free hj hup
  | idle => exact hk
  | transfer hc _ _ hx => exact hk.act h hc (performSessionAction_did hx)
  | @line i ans s bs l b w' s' hc _ _ _ _ _ _ hx =>
    have := hk.act h hc (performSessionAction_did hx)
    split
    · have := this.close s' i
      rwa [Server.set_set, Server.set_world] at this
    · exact this
  | closed hc => exact hk.close _ _

theorem Steps.row (h : Wf v) (hs : Steps P v e v') : v'.world.files = v.world.files ∨
    ∃ i s row c, e.At i ∧ v.connections i = some s ∧ s.state = .opUploadDescription ∧ s.path = some row.path ∧
      v.world.files.insert row = some v'.world.files ∧ Kept v' row.path c := by
  cases step_stepped hs with
  | accepted _ _ ht => exact .inl ht.files
  | idle => exact .inl rfl
  | transfer hc hst _ hx =>
    refine .inl ((performSessionAction_did hx).files.resolve_right fun h => ?_)
    rw [h.1] at hst
    simp at hst
  | @line i ans s bs l b w' s' hc _ _ _ _ _ _ hx =>
    have hd := performSessionAction_did hx
    rcases hd.files with hf | ⟨hst, f, row, hf, hins, hrow⟩
    · left
      split
      · simpa using hf
      · exact hf
    have hst : s.state = .opUploadDescription := hst
    obtain ⟨g, d, hg, hgp, -, -, -, hdisk⟩ := h.upload_path hc (.inr hst)
    obtain rfl : g = f := Option.some.inj (hg.symm.trans hf)
    have hpath : storagePath g.hash = row.path := by rw [FileRow.path, hrow]
    rw [hpath] at hgp hdisk
    have hs' : s'.state = .opWait := by
      cases hd with
      | saved => rfl
      | notSaved | described =>
        simp only [World.closeFd_files, World.log_files] at hins
        have := (FileTable.insert_rows hins).1
        simp at this
      | _ => simp_all
    obtain ⟨c, hcont⟩ := Option.isSome_iff_exists.mp hdisk
    rw [if_neg (by rw [hs']; decide)]
    refine .inr ⟨i, s, row, c, rfl, hc, hst, hgp, hins, ?_, fun j t ht hup => ?_⟩
    · rw [Server.set_world, ← hcont]
      exact hd.disk hdisk fun h => by simp [hst] at h
    · rcases Server.set_connections.mp ht with ⟨rfl, he⟩ | ⟨hne, ht⟩
      · cases he
        simp [Session.uploads, hs'] at hup
      · rw [← hgp]
        exact (h.path_ne (Ne.symm hne) hc ht (.inr hst) hup).symm
  | closed => exact .inl (by simp)

theorem Exclusive.step (hx : Exclusive v) (h : Wf v) (hs : Steps P v e v') : Exclusive v' := by
  rcases hs.row h with hf | ⟨i, s, row, c, -, hc, hst, hp, hins, hk⟩
  · constructor
    · rw [hf]; exact hx.rows
    · intro r hr
      rw [hf] at hr
      obtain ⟨c, hk⟩ := hx.stored hr
      exact ⟨c, hk.step h hs⟩
  · have hrows := (FileTable.insert_rows hins).1
    constructor
    · rw [hrows]
      refine nodup_map_snoc hx.rows fun hmem => ?_
      obtain ⟨r, hr, he⟩ := List.mem_map.mp hmem
      obtain ⟨c', hk'⟩ := hx.stored hr
      exact hk'.free hc (.inr hst) (by rw [hp, he])
    · intro r hr
      rw [hrows] at hr
      rcases List.mem_append.mp hr with hr | hr
      · obtain ⟨c, hk⟩ := hx.stored hr
        exact ⟨c, hk.step h hs⟩
      · rw [List.mem_singleton.mp hr]
        exact ⟨c, hk⟩

/-! ## Unlinks, creations and reads -/

def Act.isMild : Act → Bool
  | .unlinked .. | .created .. | .received .. => false
  | _ => true

theorem Logs.talks_mild (h : Talks w w') : Logs (·.isMild) w w' := by
  obtain ⟨acts, ha, rfl⟩ := h
  refine ⟨acts, rfl, fun a h => ?_⟩
  have := ha a h
  cases a <;> simp_all [Act.isTalk, Act.isMild]

theorem Logs.closeFd_mild (w : World) (s : Session) : Logs (·.isMild) w (w.closeFd s) := by
  unfold World.closeFd
  split
  · exact .cons rfl rfl
  · exact .refl w

def Act.Own (w : World) (s : Session) : Act → Prop
  | .unlinked p => s.uploads ∧ s.path = some p
  | .created sd p _ _ => sd = s.sd ∧ w.disk p = none
  | .received sd _ => sd = s.sd
  | _ => True

theorem Act.own_mild {a : Act} (h : a.isMild) : a.Own w s := by
  cases a <;> simp_all [Act.isMild, Act.Own]

theorem Did.own (h : Did P ans w s line w' s') : Logs (Act.Own w s) w w' := by
  have mild : ∀ {a b}, Logs (·.isMild) a b → Logs (Act.Own w s) a b := fun h => h.mono fun _ => Act.own_mild
  have cleared : ∀ {w₁ f p}, s.state = .opUpload → s.file = some f → f.path = some p →
      Logs (Act.Own w s) w₁ ((w₁.unlink p).closeFd s) := by
    intro w₁ f p hst hf hp
    refine .trans (.cons (World.unlink_trace ..) ?_) (mild (.closeFd_mild _ s))
    exact ⟨.inl hst, by rw [Session.path, hf, Option.bind_some, hp]⟩
  cases h with
  | registered _ _ _ _ ht => exact .trans (.cons rfl (by trivial)) (mild (.talks_mild ht))
  | dropped _ _ ht =>
    refine mild (.trans (.talks_mild ht) ?_)
    unfold clearFileFromSess
    split
    · exact .refl _
    · exact .closeFd_mild _ s
  | refused _ _ hw ht =>
    refine mild (.trans ?_ (.trans (.talks_mild ht) (.closeFd_mild _ s)))
    rcases hw with rfl | rfl | ⟨rfl, -⟩
    · exact .refl _
    · exact ⟨[], rfl, by simp⟩
    · exact ⟨[], rfl, by simp⟩
  | accepted _ _ _ hc ht =>
    obtain ⟨⟨-, hp, -⟩, rfl⟩ := World.create_ok hc
    exact .trans (.cons rfl (by exact ⟨rfl, hp⟩)) (mild (.talks_mild ht))
  | damaged _ _ _ _ ho _ ht =>
    obtain ⟨-, rfl⟩ := World.openRead_ok ho
    exact .trans (.cons rfl (by trivial)) (mild (.talks_mild ht))
  | sending _ _ _ _ ho _ =>
    obtain ⟨-, rfl⟩ := World.openRead_ok ho
    exact .cons rfl (by trivial)
  | released _ _ _ ht => exact mild (.trans (.talks_mild ht) (.closeFd_mild _ s))
  | notFound | ended | described => exact .refl w
  | removed hst hf hp _ hw =>
    refine .trans ?_ (cleared hst hf hp)
    rcases hw with ⟨-, rfl⟩ | ⟨-, out, -, rfl⟩
    · exact .refl _
    · exact .cons (World.append_trace ..) (by exact rfl)
  | writeFailed hst hf hp _ ht =>
    exact .trans (.cons (World.append_trace ..) (by exact rfl))
      (.trans (mild (.trans (.talks_mild ht) (.closeFd_mild _ s)))
      (cleared hst hf hp))
  | stored _ _ _ _ _ _ _ ht => exact .trans (.cons (World.append_trace ..) (by exact rfl)) (mild (.talks_mild ht))
  | saved => exact .trans (.cons rfl (by trivial)) (mild (.trans (.cons rfl rfl) (.closeFd_mild _ s)))
  | notSaved => exact mild (.trans (.cons rfl rfl) (.closeFd_mild _ s))
  | _ => exact mild (.talks_mild ‹_›)

theorem InUse.disk (hx : Exclusive v) (h : Wf v) (hu : InUse v e p) : (v.world.disk p).isSome := by
  rcases hu with ⟨r, hr, rfl⟩ | ⟨i, s, hs, hup, hp, -⟩
  · obtain ⟨c, hk⟩ := hx.stored hr
    rw [hk.content]
    rfl
  · obtain ⟨f, d, -, hsp, -, -, -, hdisk⟩ := h.upload_path hs hup
    rw [hsp] at hp
    cases hp
    exact hdisk

theorem spares_of_own (hx : Exclusive v) (h : Wf v) (hs : v.connections i = some s) {b : Bytes} {st : Act}
    (hl : Logs (Act.Own (v.world.log st) { s with buf := b }) w w') : Logs (Spares v (.ready i ans)) w w' := by
  refine hl.mono fun a ha => ?_
  cases a with
  | unlinked p =>
    obtain ⟨hup, hsp⟩ := ha
    rintro (⟨r, hr, rfl⟩ | ⟨j, t, ht, htu, htp, hne⟩)
    · obtain ⟨c, hk⟩ := hx.stored hr
      exact hk.free hs hup hsp
    · have hij : i ≠ j := fun e' => hne ans (by rw [e'])
      exact h.path_ne hij hs ht hup htu (hsp.trans htp.symm)
  | created sd p d n =>
    intro hu
    have := hu.disk hx h
    rw [show v.world.disk p = none from ha.2] at this
    cases this
  | _ => trivial

theorem spares_mild (hl : Logs (·.isMild) w w') : Logs (Spares v e) w w' := by
  refine hl.mono fun a ha => ?_
  cases a with
  | unlinked | created => cases ha
  | _ => trivial

theorem closeSession_mild (w : World) (s : Session) (i : Nat) : Logs (·.isMild) w (closeSession w s i) := by
  rw [closeSession_eq]
  refine .trans ?_ (.cons rfl rfl)
  unfold clearFileFromSess
  split
  · exact .refl _
  · exact .closeFd_mild ..

theorem Exclusive.spares (hx : Exclusive v) (h : Wf v) (hs : Steps P v e v') : SparesPaths v e v' := by
  unfold SparesPaths
  cases step_stepped hs with
  | accepted _ _ ht => exact .trans (spares_mild (.cons rfl rfl)) (spares_mild (.talks_mild ht))
  | idle => exact .refl _
  | transfer hc _ _ hx' =>
    exact .trans (spares_mild (.cons rfl rfl)) (spares_of_own hx h hc (performSessionAction_did hx').own)
  | @line i ans s bs l b w' s' hc _ _ _ _ _ _ hx' =>
    have : Logs (Spares v (.ready i ans)) v.world w' :=
      .trans (spares_mild (.cons rfl rfl)) (spares_of_own hx h hc (performSessionAction_did hx').own)
    split
    · exact this.trans (spares_mild (closeSession_mild ..))
    · exact this
  | closed => exact spares_mild (closeSession_mild ..)

end

/-- A storage folder that has the files of its rows, each under its own path. -/
def Consistent (disk : Bytes → Option Bytes) (files : FileTable) : Prop :=
  (files.rows.map (·.path)).Nodup ∧ ∀ r ∈ files.rows, (disk r.path).isSome

/-- **Storage paths.** In every reachable state the paths of the rows and of the running uploads are
pairwise distinct and the rows' files exist, and no step unlinks or creates a path in use. -/
theorem paths_exclusive {P : Platform} {disk : Bytes → Option Bytes} {users : UserTable} {files : FileTable}
    (hcons : Consistent disk files) {es : List Event} {v : Server}
    (r : Run (Steps P) (.start disk users files) es v) :
    (v.world.files.rows.map (·.path)).Nodup ∧
    (∀ i s, v.connections i = some s → s.uploads → ∃ p, s.path = some p ∧ (∀ r ∈ v.world.files.rows, r.path ≠ p) ∧
      ∀ j t, j ≠ i → v.connections j = some t → t.uploads → t.path ≠ some p) ∧
    (∀ r ∈ v.world.files.rows, (v.world.disk r.path).isSome) ∧
    ∀ e v', Steps P v e v' → SparesPaths v e v' := by
  have hwf : Wf v := r.inv Wf (fun _ _ _ h hs => h.step hs) (start_wf disk users files)
  have hx : Exclusive v := by
    refine r.inv_under Wf Exclusive (fun _ _ _ h hs => h.step hs) (fun _ _ _ h hx hs => hx.step h hs)
      (start_wf disk users files)
      ⟨hcons.1, fun r hr => ?_⟩
    obtain ⟨c, hc⟩ := Option.isSome_iff_exists.mp (hcons.2 r hr)
    exact ⟨c, hc, fun i s hs => by cases hs⟩
  refine ⟨hx.rows, fun i s hs hup => ?_, fun r hr => ?_, fun e v' hs => hx.spares hwf hs⟩
  · obtain ⟨f, d, -, hp, -⟩ := hwf.upload_path hs hup
    refine ⟨_, hp, fun r hr he => ?_, fun j t hne ht htu => ?_⟩
    · obtain ⟨c, hk⟩ := hx.stored hr
      exact hk.free hs hup (by rw [hp, he])
    · rw [← hp]
      exact hwf.path_ne hne ht hs htu hup
  · obtain ⟨c, hk⟩ := hx.stored hr
    rw [hk.content]
    rfl

/-! ### Two files of one name -/

def sameName : List Event :=
  [.accept 4 0 0, .ready 4 { read := some (ascii "anonymous") },
    .ready 4 { read := some (ascii "file upload \"a\" 1 0\n"), availableSpace := 1, probes := [{ opened := .fd 5 }] },
    .ready 4 { read := some (leBytes 8 0 ++ leBytes 8 1 ++ ascii "x") },
    .ready 4 { read := some (ascii "first:END:\n"), insert := some 1 },
    .accept 6 0 0, .ready 6 { read := some (ascii "anonymous") },
    .ready 6 {
      read := some (ascii "file upload \"a\" 1 0\n")
      availableSpace := 1
      probes := [{ opened := .eexist }, { opened := .fd 5 }] }]

theorem paths_exclusive_same_name : ∃ v s r, Run (Steps default) .fresh sameName v ∧ v.connections 6 = some s ∧
    s.state = .opUpload ∧ v.world.files.rows = [r] ∧ s.path ≠ some r.path := by
  have h : (Server.exec (fun _ _ => True) default .fresh sameName).map
      (fun v => ((v.connections 6).map (·.state), v.world.files.rows.length)) = some (some .opUpload, 1) := by
    decide +kernel
  obtain ⟨v, hv, hs⟩ := Option.map_eq_some_iff.mp h
  simp only [Prod.mk.injEq, Option.map_eq_some_iff] at hs
  obtain ⟨⟨s, hs, hst⟩, hrows⟩ := hs
  obtain ⟨r, hr⟩ := List.length_eq_one_iff.mp hrows
  have hrun := (Server.exec_run hv).unguard
  have hcons : Consistent (fun _ => none) .empty := ⟨List.nodup_nil, by simp [FileTable.empty]⟩
  obtain ⟨-, hup, -⟩ := paths_exclusive hcons hrun
  obtain ⟨p, hp, hne, -⟩ := hup 6 s hs (.inl hst)
  refine ⟨v, s, r, hrun, hs, hst, hr, fun he => hne r (by simp [hr]) ?_⟩
  rw [hp] at he
  exact (Option.some.inj he).symm

end BbsServer
