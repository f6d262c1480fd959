import BbsServer.WellFormed

/-!
# Active sessions

What the handlers rely on without a test: a session in a transfer has its file, with name
and path, and its descriptor; a session beyond the name has `uname`. So the only null
pointer that a dispatched handler can reach is the local one of `file search`
(`sessions_active`).
-/

namespace BbsServer

open CStr Function Runs

def Session.transfers (s : Session) : Prop :=
  s.state = .opDownload ∨ s.state = .opDownloadWaitConfirmPackage ∨ s.state = .opUpload ∨
    s.state = .opUploadDescription

structure Session.Active (s : Session) : Prop where
  file : s.transfers → ∃ f, s.file = some f ∧ f.name.isSome ∧ f.path.isSome
  fd : s.transfers → s.fd.isSome
  uname : s.state = .opLoginPss ∨ s.state = .opWait ∨ s.transfers → s.uname.isSome

section
variable {P : Platform} {ans : Answers} {w w' : World} {s s' : Session} {line : Option Bytes} {l : Bytes}

theorem dbGetFile_name {arg : GetFile} {sf : SFile} (h : dbGetFile ans w arg = some sf) : sf.name.isSome := by
  unfold dbGetFile at h
  dsimp only at h
  split at h
  · obtain ⟨row, -, rfl⟩ := Option.map_eq_some_iff.mp h
    rfl
  · cases h

theorem sendRow_name {sf : SFile} (h : sendRow ans w l = some sf) : sf.name.isSome := by
  obtain ⟨-, n, -, hn⟩ := sendRow_some h
  exact dbGetFile_name hn

theorem Session.Active.idle (hu : s.uname.isSome) (h : ¬ s.transfers) : s.Active :=
  ⟨fun ht => absurd ht h, fun ht => absurd ht h, fun _ => hu⟩

theorem Session.Active.out (h1 : ¬ s.transfers) (h2 : s.state ≠ .opLoginPss) (h3 : s.state ≠ .opWait) : s.Active :=
  ⟨fun h => absurd h h1, fun h => absurd h h1, fun h => by rcases h with h | h | h <;> contradiction⟩

theorem Did.active (h : Did P ans w s line w' s') (hs : s.Active) : s'.Active := by
  have huname : s.state = .opWait → s.uname.isSome := fun h => hs.uname (.inr (.inl h))
  cases h with
  | talked => exact hs
  | left | loginAgain => exact .out (by simp [Session.transfers]) (by simp) (by simp)
  | registered | rolledBack => exact .idle rfl (by simp [Session.transfers])
  | anonymous => exact .idle rfl (by simp [Session.transfers])
  | named => exact .idle rfl (by simp [Session.transfers])
  | welcomed _ _ hu => exact .idle (by simp [hu]) (by simp [Session.transfers])
  | dropped hst =>
    refine .idle ?_ (by simp [Session.transfers, hst])
    unfold clearFileFromSess
    split <;> exact huname hst
  | refused hst => exact .idle (huname hst) (by simp [Session.transfers, Session.cleared])
  | accepted hst => exact ⟨fun _ => ⟨_, rfl, rfl, rfl⟩, fun _ => rfl, fun _ => huname hst⟩
  | notFound hst | notOpened hst | damaged hst => exact .idle (huname hst) (by simp [Session.transfers, hst])
  | sending hst _ hr =>
    have hn := sendRow_name hr
    exact ⟨fun _ => ⟨_, rfl, hn, rfl⟩, fun _ => rfl, fun _ => huname hst⟩
  | moved hst hf =>
    have ht : s.transfers := by rcases hst with h | h <;> simp [Session.transfers, h]
    obtain ⟨f, hf', hn, hp⟩ := hs.file ht
    obtain rfl := Option.some.inj (hf.symm.trans hf')
    exact ⟨fun _ => ⟨_, rfl, hn, hp⟩, fun _ => hs.fd ht, fun _ => hs.uname (.inr (.inr ht))⟩
  | released hst hf hst' =>
    have ht : s.transfers := by rcases hst with h | h <;> simp [Session.transfers, h]
    rcases hst' with rfl | ⟨rfl, -⟩
    · exact .idle (hs.uname (.inr (.inr ht))) (by simp [Session.transfers, Session.cleared])
    · exact .out (by simp [Session.transfers, Session.cleared]) (by simp [Session.cleared])
        (by simp [Session.cleared])
  | ended hst =>
    have ht : s.transfers := by rcases hst with ⟨h, -⟩ | h <;> simp [Session.transfers, h]
    exact .idle (hs.uname (.inr (.inr ht))) (by simp [Session.transfers])
  | removed hst | writeFailed hst =>
    exact .idle (hs.uname (.inr (.inr (.inr (.inr (.inl hst)))))) (by simp [Session.transfers, Session.cleared])
  | stored hst hf =>
    have ht : s.transfers := .inr (.inr (.inl hst))
    obtain ⟨f, hf', hn, hp⟩ := hs.file ht
    obtain rfl := Option.some.inj (hf.symm.trans hf')
    exact ⟨fun _ => ⟨_, rfl, hn, hp⟩, fun _ => hs.fd ht, fun _ => hs.uname (.inr (.inr ht))⟩
  | described hst _ _ hf =>
    have ht : s.transfers := .inr (.inr (.inr hst))
    obtain ⟨f, hf', hn, hp⟩ := hs.file ht
    obtain rfl := Option.some.inj (hf.symm.trans hf')
    exact ⟨fun _ => ⟨_, rfl, hn, hp⟩, fun _ => hs.fd ht, fun _ => hs.uname (.inr (.inr ht))⟩
  | saved hst | notSaved hst =>
    exact .idle (hs.uname (.inr (.inr (.inr (.inr (.inr hst)))))) (by simp [Session.transfers, Session.cleared])

/-! ## No null pointer

A handler does not stop with `nullDeref`; the rules, and then one lemma for each handler. -/

def NoNull {α} (x : M α) : Prop := x ≠ .error (.fault .nullDeref)

@[simp] theorem noNull_ok {α} (a : α) : NoNull (.ok a : M α) := by simp [NoNull]
@[simp] theorem noNull_refused {α} : NoNull (.error .refused : M α) := by simp [NoNull]
@[simp] theorem noNull_overflow {α} : NoNull (.error (.fault .overflow) : M α) := by simp [NoNull]
@[simp] theorem noNull_divByZero {α} : NoNull (.error (.fault .divByZero) : M α) := by simp [NoNull]

theorem noNull_bind {α β} {x : M α} {f : α → M β} (hx : NoNull x) (hf : ∀ a, x = .ok a → NoNull (f a)) :
    NoNull (x >>= f) := by
  cases x with
  | error e =>
    intro he
    cases (show (.error e : M β) = _ from he)
    exact hx rfl
  | ok a => exact hf a rfl

@[simp] theorem noNull_send (t : Bytes) : NoNull (sessionSendString w s t) := by
  unfold sessionSendString
  split <;> simp

theorem noNull_say {α} {t : Bytes} {f : World → α} : NoNull (sessionSendString w s t >>= fun w => .ok (f w)) :=
  noNull_bind (noNull_send _) fun _ _ => noNull_ok _

theorem deref_some {α} {x : Option α} {a : α} (h : x = some a) : deref x = .ok a := deref_ok.mpr h

theorem scanRegister_noNull : NoNull (scanRegister l) := by
  unfold scanRegister
  dsimp only
  split
  · simp
  split
  · simp
  split
  · simp
  split
  · simp
  split
  · simp
  split
  · simp
  split <;> simp

theorem dbUserCreate_noNull {args : DbUserCreate} : NoNull (dbUserCreate P ans w s args) := by
  unfold dbUserCreate
  split
  · simp
  · dsimp only
    split <;> simp

theorem createUser_noNull : NoNull (createUser P ans w s l) := by
  unfold createUser createUserWith
  refine noNull_bind scanRegister_noNull fun p _ => ?_
  cases p with
  | none => simp
  | some p =>
    refine noNull_bind dbUserCreate_noNull fun r _ => ?_
    dsimp only
    split
    · exact noNull_say
    split
    · exact noNull_say
    split <;> exact noNull_say

theorem processUserName_noNull : NoNull (processUserName P ans w s l) := by
  unfold processUserName processUserNameWith
  split
  · exact noNull_say
  split
  · exact createUser_noNull
  split <;> exact noNull_say

theorem login_noNull (hu : s.uname.isSome) : NoNull (login P ans w s l) := by
  obtain ⟨u, hu⟩ := Option.isSome_iff_exists.mp hu
  unfold login loginWith
  rw [tables_dbUserAuth, ok_bind]
  dsimp only
  split
  · rw [deref_some hu, ok_bind]
    exact noNull_say
  · exact noNull_say

theorem fileList_noNull {args : FileListArgs} (hu : s.uname.isSome) : NoNull (fileList P ans w s args) := by
  obtain ⟨u, hu⟩ := Option.isSome_iff_exists.mp hu
  unfold fileList fileListWith
  rw [tables_dbGetFilesData, ok_bind]
  split
  · simp
  · split
    · simp
    · rw [deref_some hu, ok_bind]
      split <;> simp

theorem openRead_noNull {p : Bytes} {d : Nat} : NoNull (w.openRead s p d) := by
  unfold World.openRead
  split <;> simp

theorem create_noNull {p : Bytes} {d size : Nat} : NoNull (w.create s p d size) := by
  unfold World.create
  split <;> simp

theorem fileSendPrepare_noNull : NoNull (fileSendPrepare ans w s l) := by
  unfold fileSendPrepare fileSendPrepareWith
  split
  · exact noNull_say
  dsimp only
  split
  · exact noNull_say
  split
  · exact noNull_say
  split
  · simp
  rw [ok_bind]
  split
  · simp
  unfold sendFound sendFoundWith
  dsimp only
  split
  · simp
  · refine noNull_bind openRead_noNull fun w _ => ?_
    split <;> simp

theorem probeNames_noNull {name : Bytes} {size : Nat} : ∀ {probes : List Probe} {w : World} {seed : Int},
    NoNull (probeNames w s name size seed probes)
  | [], _, _ => noNull_refused
  | p :: probes, w, seed => by
    unfold probeNames
    dsimp only
    split
    · simp
    split
    · split
      · exact probeNames_noNull
      · simp
    · simp
    · exact noNull_bind create_noNull fun w _ => noNull_ok _

theorem fileReceivePrepare_noNull : NoNull (fileReceivePrepare ans w s l) := by
  unfold fileReceivePrepare fileReceivePrepareWith
  split
  · exact noNull_say
  dsimp only
  split
  · exact noNull_say
  split
  · exact noNull_say
  split
  · exact noNull_say
  split
  · exact noNull_say
  refine noNull_bind probeNames_noNull fun r _ => ?_
  split
  · exact noNull_say
  · exact noNull_say
  · simp

theorem scanArgs_noNull : NoNull (scanArgs ans l) := by
  unfold scanArgs
  split
  · simp
  split
  · simp
  split
  · simp
  split <;> simp

theorem clientExit_noNull : NoNull (clientExit w s l) := by
  unfold clientExit clientExitWith
  split
  · exact noNull_say
  · simp

/-- `file search` keeps its null pointer. -/
theorem processClientCommand_noNull (hu : s.uname.isSome) (hsearch : NoNull (fileSearch w s l)) :
    NoNull (processClientCommand P ans w s l) := by
  unfold processClientCommand processClientCommandWith
  refine noNull_bind scanArgs_noNull fun r _ => ?_
  dsimp only
  split
  · split
    · exact noNull_say
    split
    · exact noNull_bind (fileList_noNull hu) fun w _ => noNull_ok _
    split
    · exact noNull_bind fileReceivePrepare_noNull fun r _ => noNull_ok _
    split
    · exact noNull_bind fileSendPrepare_noNull fun r _ => noNull_ok _
    split
    · exact noNull_bind hsearch fun w _ => noNull_ok _
    · exact clientExit_noNull
  · exact clientExit_noNull

theorem fileDownload_noNull {f : SFile} (hf : s.file = some f) : NoNull (fileDownload ans w s) := by
  unfold fileDownload
  rw [deref_some hf, ok_bind]
  split
  · simp
  extract_lets readLen bs rlen
  split
  · simp
  split
  · split <;> simp
  split
  · simp
  · dsimp only
    split
    · simp
    split <;> simp

theorem uploadFin_noNull {f : SFile} : NoNull (uploadFin w s f) := by
  unfold uploadFin uploadFinWith
  split
  · exact noNull_say
  · simp

theorem uploadWriteFailed_noNull {f : SFile} (hp : f.path.isSome) : NoNull (uploadWriteFailed ans w s f) := by
  obtain ⟨p, hp⟩ := Option.isSome_iff_exists.mp hp
  unfold uploadWriteFailed uploadWriteFailedWith
  refine noNull_bind (noNull_send _) fun w _ => ?_
  rw [deref_some hp, ok_bind]
  simp

theorem uploadRemoved_noNull {f : SFile} (hp : f.path.isSome) : NoNull (uploadRemoved w s f) := by
  obtain ⟨p, hp⟩ := Option.isSome_iff_exists.mp hp
  unfold uploadRemoved
  rw [deref_some hp, ok_bind]
  simp

theorem fileUpload_noNull {f : SFile} (hf : s.file = some f) (hp : f.path.isSome) : NoNull (fileUpload ans w s) := by
  refine fileUpload_ends hf (by simp) (by simp) (uploadRemoved_noNull hp) (fun _ _ => by simp) ?_ ?_
    fun _ _ => uploadFin_noNull
  · intro out g hg
    exact uploadRemoved_noNull (by rwa [hg])
  · intro out g hg
    exact uploadWriteFailed_noNull (by rwa [hg])

theorem descriptionLoop_noNull : ∀ {n : Nat} {s : Session} {f : SFile} {line : Option Bytes},
    (line = none → f.description ≠ none) → NoNull (descriptionLoop ans n s f line)
  | 0, _, _, _, _ => by simp [descriptionLoop]
  | n + 1, s, f, some line, _ => by
    unfold descriptionLoop
    dsimp only
    split
    · split <;> simp
    · exact descriptionLoop_noNull (by simp)
  | n + 1, s, f, none, h => by
    unfold descriptionLoop
    split
    · simp
    rename_i hb
    obtain ⟨line, b, -, hq, -⟩ := queryExtractFromBuf_ok ans hb
    rw [if_neg (h rfl), hq]
    exact descriptionLoop_noNull (by simp)

theorem saveFile_noNull {f : SFile} (hf : s.file = some f) (hn : f.name.isSome) (hp : f.path.isSome) :
    NoNull (saveFile ans w s) := by
  obtain ⟨name, hn⟩ := Option.isSome_iff_exists.mp hn
  obtain ⟨p, hp⟩ := Option.isSome_iff_exists.mp hp
  have hdb : NoNull (dbSaveFile ans w s f s.uid) := by
    unfold dbSaveFile
    rw [deref_some hn, ok_bind]
    split
    · simp
    · dsimp only
      split <;> simp
  unfold saveFile saveFileWith
  rw [deref_some hf, ok_bind]
  refine noNull_bind hdb fun r _ => ?_
  dsimp only
  rw [deref_some hn, ok_bind]
  split
  · exact noNull_say
  · refine noNull_bind (noNull_send _) fun w _ => ?_
    rw [deref_some hp]
    simp

theorem downloadConfirm_noNull {f : SFile} (hf : s.file = some f) : NoNull (downloadConfirm w s l) := by
  unfold downloadConfirm
  rw [deref_some hf]
  split
  · simp
  split <;> simp

theorem performSessionAction_noNull (hs : s.Active)
    (hline : s.state ≠ .opUpload → s.state ≠ .opDownload → line.isSome)
    (hsearch : ∀ l, s.state = .opWait → line = some l →
    NoNull (fileSearch (w.log (.handled s.sd s.state line)) s l)) :
    NoNull (performSessionAction P ans w s line) := by
  unfold performSessionAction performSessionActionWith
  cases hst : s.state with
  | opDownload =>
    obtain ⟨f, hf, -⟩ := hs.file (.inl hst)
    exact fileDownload_noNull hf
  | opUpload =>
    obtain ⟨f, hf, -, hp⟩ := hs.file (.inr (.inr (.inl hst)))
    exact fileUpload_noNull hf hp
  | opEditFile | opEditUser | opLoginAnon | err | fin => exact noNull_ok _
  | opLoginUsr =>
    obtain ⟨l, rfl⟩ := Option.isSome_iff_exists.mp (hline (by simp [hst]) (by simp [hst]))
    exact noNull_bind (noNull_ok _) fun l hl => noNull_bind processUserName_noNull fun r _ => noNull_ok _
  | opLoginPss =>
    obtain ⟨l, rfl⟩ := Option.isSome_iff_exists.mp (hline (by simp [hst]) (by simp [hst]))
    exact noNull_bind (noNull_ok _) fun l hl =>
      noNull_bind (login_noNull (hs.uname (.inl hst))) fun r _ => noNull_ok _
  | opWait =>
    obtain ⟨l, rfl⟩ := Option.isSome_iff_exists.mp (hline (by simp [hst]) (by simp [hst]))
    exact processClientCommand_noNull (hs.uname (.inr (.inl hst))) (by simpa only [hst] using hsearch l hst rfl)
  | opUploadDescription =>
    obtain ⟨l, rfl⟩ := Option.isSome_iff_exists.mp (hline (by simp [hst]) (by simp [hst]))
    obtain ⟨f, hf, hn, hp⟩ := hs.file (.inr (.inr (.inr hst)))
    have hdesc : fileUploadDescription ans s l = descriptionLoop ans (2 * s.buf.length + 2) s f (some l) := by
      unfold fileUploadDescription
      rw [deref_some hf, ok_bind]
    refine noNull_bind (noNull_ok _) fun l' hl => ?_
    obtain rfl : l = l' := Except.ok.inj hl
    unfold describeWith
    rw [hdesc]
    refine noNull_bind (descriptionLoop_noNull (by simp)) fun ⟨res, s₁⟩ hr => ?_
    obtain ⟨dsc, b, -, rfl⟩ := descriptionLoop_ok hr
    dsimp only
    split
    · exact saveFile_noNull (f := { f with description := dsc }) rfl hn hp
    · simp
  | opDownloadWaitConfirmPackage =>
    obtain ⟨l, rfl⟩ := Option.isSome_iff_exists.mp (hline (by simp [hst]) (by simp [hst]))
    obtain ⟨f, hf, -⟩ := hs.file (.inr (.inl hst))
    exact downloadConfirm_noNull hf

/-! ## One event, and runs -/

variable {v v' : Server} {e : Event}

def AllActive (v : Server) : Prop := ∀ ⦃i s⦄, v.connections i = some s → s.Active

theorem active_step (h : AllActive v) (hs : Steps P v e v') : AllActive v' := by
  intro i t ht
  rcases hs.session ht with ⟨uid, privileges, -, rfl⟩ | hc | ⟨ans, s, line, b, -, hc, hd⟩
  · exact .out (by simp [Session.transfers, Session.fresh]) (by simp [Session.fresh]) (by simp [Session.fresh])
  · exact h hc
  · have hs := h hc
    exact hd.active ⟨hs.file, hs.fd, hs.uname⟩

theorem Reachable.active (h : Reachable P v) : AllActive v := by
  obtain ⟨disk, users, files, es, r⟩ := h
  exact r.inv AllActive (fun _ _ _ h hs => active_step h hs) fun _ _ h => by cases h

/-- An event that dereferences a null pointer is a command `file search`. -/
theorem step_null (h : AllActive v) (hn : v.step P e = .error (.fault .nullDeref)) :
    ∃ i ans s r, e = .ready i ans ∧ v.connections i = some s ∧ s.state = .opWait ∧ lineOf ans s = some r ∧
      ∃ w, fileSearch w { s with buf := r.2 } r.1 = .error (.fault .nullDeref) := by
  cases e with
  | accept sd uid privileges =>
    refine absurd hn ?_
    show NoNull (acceptClient P v sd uid privileges)
    unfold acceptClient acceptClientWith
    split
    · simp
    split
    · simp
    refine noNull_bind ?_ fun r _ => noNull_ok _
    exact noNull_say
  | acceptFailed => cases hn
  | ready i ans =>
    cases hc : v.connections i with
    | none =>
      simp only [Server.step, Server.stepWith, hc] at hn
      cases hn
    | some s =>
    simp only [Server.step, Server.stepWith, hc] at hn
    by_contra hno
    refine absurd hn ?_
    show NoNull (serveSession P ans v i s)
    unfold serveSession serveSessionWith
    split
    · rename_i hst
      split
      · refine noNull_bind (performSessionAction_noNull (h hc) (fun h1 h2 => (hst.elim h1 h2).elim) fun l hw => ?_)
          fun r _ => noNull_ok _
        rw [hw] at hst
        simp at hst
      · simp
    · rename_i hst
      refine noNull_bind ?_ fun ⟨res, line, w, s₁⟩ hr => ?_
      · unfold sessionDoReadWith
        split
        · simp
        · simp
        split
        · simp
        split
        · simp
        split
        · exact noNull_say
        split <;> simp
      rcases sessionDoRead_cases hr with ⟨rfl, rfl, rfl, hread⟩ | ⟨bs, l, b, hread, hbs, -, rfl, rfl, hq, rfl, -⟩
      · simp
      rw [← lineOf_eq hread hbs] at hq
      dsimp only
      split
      · have hact := h hc
        have hdo : NoNull (performSessionAction P ans v.world { s with buf := b } (some l)) := by
          refine performSessionAction_noNull ⟨hact.file, hact.fd, hact.uname⟩ (fun _ _ => rfl) fun l' hw hl hf => ?_
          cases hl
          exact hno ⟨i, ans, s, (l, b), rfl, hc, hw, hq, _, hf⟩
        refine noNull_bind hdo fun r _ => ?_
        split <;> simp
      · simp

end

/-- **Active sessions.** In every reachable state a session in a transfer has file, name, path and
descriptor, and one beyond the name has its `uname`; the only null pointer that an event can
dereference is the local one of `file search`, and no transfer is skipped by the main loop. -/
theorem sessions_active {P : Platform} {disk : Bytes → Option Bytes} {users : UserTable} {files : FileTable}
    {es : List Event} {v : Server} (r : Run (Steps P) (.start disk users files) es v) :
    (∀ i s, v.connections i = some s →
      (s.transfers → (∃ f, s.file = some f ∧ f.name.isSome ∧ f.path.isSome) ∧ s.fd.isSome) ∧
      (s.state = .opLoginPss ∨ s.state = .opWait ∨ s.transfers → s.uname.isSome)) ∧
    (∀ e, v.step P e = .error (.fault .nullDeref) →
      ∃ i ans s r, e = .ready i ans ∧ v.connections i = some s ∧ s.state = .opWait ∧ lineOf ans s = some r ∧
        ∃ w, fileSearch w { s with buf := r.2 } r.1 = .error (.fault .nullDeref)) ∧
    ∀ i ans s, v.connections i = some s → s.state = .opUpload ∨ s.state = .opDownload →
      serveSession P ans v i s = (performSessionAction P ans v.world s none).bind fun r =>
      .ok (v.set i r.1 (some r.2)) := by
  have h : AllActive v := r.inv AllActive (fun _ _ _ h hs => active_step h hs) fun _ _ h => by cases h
  refine ⟨fun i s hs => ⟨fun ht => ⟨(h hs).file ht, (h hs).fd ht⟩, (h hs).uname⟩, fun e => step_null h,
    fun i ans s hs hst => ?_⟩
  have hfd : s.fd.isSome := (h hs).fd (by rcases hst with hst | hst <;> simp [Session.transfers, hst])
  unfold serveSession serveSessionWith
  rw [if_pos hst, if_pos hfd]
  rfl

/-! ### An upload that has begun -/

def begunUpload : List Event :=
  [.accept 4 0 0, .ready 4 { read := some (ascii "anonymous") },
    .ready 4 { read := some (ascii "file upload \"a\" 0 0\n"), probes := [{ opened := .fd 5 }] }]

theorem sessions_active_upload : ∃ v s, Run (Steps default) .fresh begunUpload v ∧ v.connections 4 = some s ∧
    s.state = .opUpload ∧ (∃ f, s.file = some f ∧ f.name.isSome ∧ f.path.isSome) ∧ s.fd.isSome ∧ s.uname.isSome := by
  have h : (Server.exec (fun _ _ => True) default .fresh begunUpload).map
      (fun v => (v.connections 4).map (·.state)) = some (some .opUpload) := by
    decide +kernel
  obtain ⟨v, hv, hs⟩ := Option.map_eq_some_iff.mp h
  obtain ⟨s, hs, hst⟩ := Option.map_eq_some_iff.mp hs
  have r := (Server.exec_run hv).unguard
  obtain ⟨ht, hu⟩ := (sessions_active r).1 4 s hs
  have htr : s.transfers := .inr (.inr (.inl hst))
  exact ⟨v, s, r, hs, hst, (ht htr).1, (ht htr).2, hu (.inr (.inr htr))⟩

end BbsServer
