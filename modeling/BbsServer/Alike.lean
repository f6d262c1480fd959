import BbsServer.BoardSound
import BbsServer.Lib.Relational

/-!
# One session in two worlds

Two worlds that have the same tables and the same working directory, and agree on the descriptor of a session and
on the files of the rows, are the same to it: given the same answers, an action logs the same and leaves the same
session (`performSessionAction_alike`).
-/

namespace BbsServer

open CStr Function Relational

structure Level (w u : World) : Prop where
  users : w.users = u.users
  files : w.files = u.files
  cwd : w.cwd = u.cwd

/-- `w'` and `u'` come after `w` and `u`. What was the same is the same, and the same has been logged. -/
structure Alike (w u w' u' : World) : Prop extends Level w' u' where
  disk : ∀ ⦃q⦄, w.disk q = u.disk q → w'.disk q = u'.disk q
  fds : ∀ ⦃d⦄, w.fds d = u.fds d → w'.fds d = u'.fds d
  isOpen : ∀ ⦃d⦄, (w.fds d).isSome = (u.fds d).isSome → (w'.fds d).isSome = (u'.fds d).isSome
  log : ∃ ext, w'.trace = ext ++ w.trace ∧ u'.trace = ext ++ u.trace

def Shares (w u : World) (s : Session) : Prop := ∀ ⦃d⦄, s.fd = some d → (w.fds d).isSome = (u.fds d).isSome

def SharesFile (w u : World) (s : Session) : Prop := ∀ ⦃d⦄, s.fd = some d → w.fds d = u.fds d

def SameRows (w u : World) : Prop := ∀ ⦃r⦄, r ∈ w.files.rows → w.disk r.path = u.disk r.path

def Twins {α γ : Type} (world : α → World) (rest : α → γ) (w u : World) (a b : α) : Prop :=
  Alike w u (world a) (world b) ∧ rest a = rest b

section
variable {α γ : Type} {P : Platform} {ans : Answers} {w u w' u' w₁ u₁ : World} {s t : Session} {l p : Bytes}
  {line : Option Bytes} {world : α → World} {rest : α → γ}

theorem Alike.refl (h : Level w u) : Alike w u w u := ⟨h, fun _ h => h, fun _ h => h, fun _ h => h, [], rfl, rfl⟩

theorem Alike.trans (h : Alike w u w₁ u₁) (h' : Alike w₁ u₁ w' u') : Alike w u w' u' where
  toLevel := h'.toLevel
  disk := fun _ hq => h'.disk (h.disk hq)
  fds := fun _ hd => h'.fds (h.fds hd)
  isOpen := fun _ hd => h'.isOpen (h.isOpen hd)
  log := by
    obtain ⟨x, hx, hx'⟩ := h.log
    obtain ⟨y, hy, hy'⟩ := h'.log
    exact ⟨y ++ x, by rw [hy, hx, List.append_assoc], by rw [hy', hx', List.append_assoc]⟩

theorem Shares.after (h : Shares w u s) (ha : Alike w u w' u') : Shares w' u' s := fun _ hd => ha.isOpen (h hd)

theorem SharesFile.after (h : SharesFile w u s) (ha : Alike w u w' u') : SharesFile w' u' s :=
  fun _ hd => ha.fds (h hd)

theorem SharesFile.shares (h : SharesFile w u s) : Shares w u s := fun _ hd => congrArg Option.isSome (h hd)

theorem Twins.after {a b : α} (ha : Alike w u w₁ u₁) (h : Twins world rest w₁ u₁ a b) : Twins world rest w u a b :=
  ⟨ha.trans h.1, h.2⟩

/-! ## Each operation -/

theorem update_same {α β κ : Type} [DecidableEq α] {f f' : α → β} {a x : α} {b : β} {g : β → κ}
    (h : g (f x) = g (f' x)) :
    g (update f a b x) = g (update f' a b x) := by
  by_cases he : x = a
  · subst he
    rw [update_self, update_self]
  · rw [update_of_ne he, update_of_ne he, h]

theorem Level.log (h : Level w u) (a : Act) : Alike w u (w.log a) (u.log a) :=
  ⟨⟨h.users, h.files, h.cwd⟩, fun _ h => h, fun _ h => h, fun _ h => h, [a], rfl, rfl⟩

theorem Level.writes (h : Level w u) (s : Session) (texts : List Bytes) :
    Alike w u (writeTexts w s texts) (writeTexts u s texts) := by
  rw [writeTexts_eq, writeTexts_eq]
  exact ⟨⟨h.users, h.files, h.cwd⟩, fun _ h => h, fun _ h => h, fun _ h => h, _, rfl, rfl⟩

theorem Level.close (h : Level w u) (s : Session) {d : Nat} (hd : (w.fds d).isSome = (u.fds d).isSome) :
    Alike w u (w.close s d) (u.close s d) where
  toLevel := ⟨h.users, h.files, h.cwd⟩
  disk := fun _ h => h
  fds := fun _ hx => update_same (g := id) hx
  isOpen := fun _ hx => update_same (g := Option.isSome) hx
  log := ⟨[.closed s.sd d (s.sd == d || s.fd == some d) (w.fds d).isSome], rfl, by rw [hd]; rfl⟩

theorem Level.closeFd (h : Level w u) (hs : Shares w u s) : Alike w u (w.closeFd s) (u.closeFd s) := by
  unfold World.closeFd
  cases hd : s.fd with
  | none => exact .refl h
  | some d => exact h.close s (hs hd)

theorem Level.clear (h : Level w u) (hs : Shares w u s) :
    Alike w u (clearFileFromSess w s).1 (clearFileFromSess u s).1 := by
  unfold clearFileFromSess
  cases s.file with
  | none => exact .refl h
  | some f => exact h.closeFd hs

theorem clear_snd (w u : World) (s : Session) : (clearFileFromSess w s).2 = (clearFileFromSess u s).2 := by
  unfold clearFileFromSess
  cases s.file <;> rfl

theorem World.unlink_isSome (w : World) (p : Bytes) (d : Nat) : ((w.unlink p).fds d).isSome = (w.fds d).isSome := by
  rw [World.unlink_fds]
  split
  · rename_i hc
    rw [hc.2]
    rfl
  · rfl

theorem Level.unlink (h : Level w u) (p : Bytes) : Alike w u (w.unlink p) (u.unlink p) where
  toLevel := ⟨by simp [h.users], by simp [h.files], by simp [h.cwd]⟩
  disk := fun q hq => by rw [World.unlink_disk, World.unlink_disk, h.cwd, hq]
  fds := fun d hd => by rw [World.unlink_fds, World.unlink_fds, h.cwd, hd]
  isOpen := fun d hd => by rw [World.unlink_isSome, World.unlink_isSome, hd]
  log := ⟨[.unlinked p], World.unlink_trace .., World.unlink_trace ..⟩

theorem Level.append (h : Level w u) (hs : SharesFile w u s) (b : Bytes) :
    Alike w u (w.append s.fd b) (u.append s.fd b) where
  toLevel := ⟨by simp [h.users], by simp [h.files], by simp [h.cwd]⟩
  disk := by
    intro q hq
    have hfd : s.fd.bind w.fds = s.fd.bind u.fds := by
      cases hd : s.fd with
      | none => rfl
      | some d => exact hs hd
    rw [World.append_disk, World.append_disk, hfd, hq]
  fds := fun d hd => by rw [World.append_fds, World.append_fds, hd]
  isOpen := fun d hd => by rw [World.append_fds, World.append_fds, hd]
  log := ⟨[], World.append_trace .., World.append_trace ..⟩

theorem Level.create (h : Level w u) (s : Session) (p : Bytes) (d size : Nat) :
    Both (Alike w u) (w.create s p d size) (u.create s p d size) := by
  intro w' u' hw hu
  obtain ⟨-, rfl⟩ := World.create_ok hw
  obtain ⟨-, rfl⟩ := World.create_ok hu
  refine ⟨⟨h.users, h.files, h.cwd⟩, fun q hq => ?_, fun x hx => ?_, fun x hx => ?_, [.created s.sd p d size],
    rfl, rfl⟩
  · exact update_same (g := id) hq
  · exact update_same (g := id) hx
  · exact update_same (g := Option.isSome) hx

theorem Level.openRead (h : Level w u) (s : Session) (p : Bytes) (d : Nat) :
    Both (Alike w u) (w.openRead s p d) (u.openRead s p d) := by
  intro w' u' hw hu
  obtain ⟨-, rfl⟩ := World.openRead_ok hw
  obtain ⟨-, rfl⟩ := World.openRead_ok hu
  refine ⟨⟨h.users, h.files, h.cwd⟩, fun _ hq => hq, fun x hx => ?_, fun x hx => ?_, [.opened s.sd p d], rfl, rfl⟩
  · exact update_same (g := id) hx
  · exact update_same (g := Option.isSome) hx

theorem Level.chdir (h : Level w u) (dir : Dir) : Alike w u { w with cwd := dir } { u with cwd := dir } :=
  ⟨⟨h.users, h.files, rfl⟩, fun _ h => h, fun _ h => h, fun _ h => h, [], rfl, rfl⟩

theorem Level.send (h : Level w u) (s : Session) (text : Bytes) :
    Both (Alike w u) (sessionSendString w s text) (sessionSendString u s text) := by
  intro w' u' hw hu
  rw [(sessionSendString_ok hw).1, (sessionSendString_ok hu).1]
  exact h.log _

theorem Level.say (h : Level w u) {text : Bytes} {g : World → α} (hg : ∀ w, world (g w) = w)
    (hr : ∀ w u, rest (g w) = rest (g u)) :
    Both (Twins world rest w u) (sessionSendString w s text >>= fun w => .ok (g w))
      (sessionSendString u s text >>= fun u => .ok (g u)) := by
  refine (h.send s text).bind fun w' u' ha => both_ok ⟨?_, hr w' u'⟩
  rwa [hg, hg]

theorem Level.say_clear (h : Level w u) (hs : Shares w u t) {text : Bytes} {g : World → α}
    (hg : ∀ w, world (g w) = (clearFileFromSess w t).1) (hr : ∀ w u, rest (g w) = rest (g u)) :
    Both (Twins world rest w u) (sessionSendString w s text >>= fun w => .ok (g w))
      (sessionSendString u s text >>= fun u => .ok (g u)) := by
  refine (h.send s text).bind fun w' u' ha => both_ok ⟨?_, hr w' u'⟩
  rw [hg, hg]
  exact ha.trans (ha.clear (hs.after ha))

/-! ## Before the login -/

theorem dbUserAuth_level (h : Level w u) (name : Option Bytes) (pass : Bytes) (r : OAuth) :
    dbUserAuth P ans u name pass r = dbUserAuth P ans w name pass r := by
  unfold dbUserAuth
  rw [h.users]

theorem dbUserCreate_alike (h : Level w u) {args : DbUserCreate} :
    Both (Twins (·.2) (·.1) w u) (dbUserCreate P ans w s args) (dbUserCreate P ans u s args) := by
  unfold dbUserCreate
  cases ans.insert with
  | none => exact both_ok ⟨.refl h, rfl⟩
  | some id =>
    dsimp only
    rw [← h.users]
    split
    · cases ans.committed with
      | true => exact both_ok ⟨⟨⟨rfl, h.files, h.cwd⟩, fun _ h => h, fun _ h => h, fun _ h => h, [_], rfl, rfl⟩, rfl⟩
      | false => exact both_ok ⟨.refl h, rfl⟩
    · exact both_error _

theorem createUser_alike (h : Level w u) :
    Both (Twins (·.2.1) (fun a => (a.1, a.2.2)) w u) (createUser P ans w s l) (createUser P ans u s l) := by
  unfold createUser createUserWith
  apply both_value
  intro p _
  cases p with
  | none => exact both_ok ⟨.refl h, rfl⟩
  | some p =>
    refine (dbUserCreate_alike h).bind fun a b hab => ?_
    obtain ⟨ha, hr⟩ := hab
    have hr : a.1 = b.1 := hr
    have say : ∀ {text : Bytes} {t : Session}, Both (Twins (·.2.1) (fun a => (a.1, a.2.2)) w u)
        (sessionSendString a.2 s text >>= fun w => .ok (b.1, w, t))
        (sessionSendString b.2 s text >>= fun w => .ok (b.1, w, t)) := fun {_ _} =>
      (ha.say (g := fun w => (b.1, w, _)) (fun _ => rfl) fun _ _ => rfl).mono fun _ _ => Twins.after ha
    dsimp only
    rw [hr]
    split
    · exact say
    split
    · exact say
    split
    · exact say
    · exact say

theorem processUserName_alike (h : Level w u) :
    Both (Twins (·.2.1) (fun a => (a.1, a.2.2)) w u) (processUserName P ans w s l) (processUserName P ans u s l) := by
  unfold processUserName processUserNameWith
  split
  · exact h.say (fun _ => rfl) fun _ _ => rfl
  split
  · exact createUser_alike h
  split
  · exact h.say (fun _ => rfl) fun _ _ => rfl
  · exact h.say (fun _ => rfl) fun _ _ => rfl

theorem login_alike (h : Level w u) :
    Both (Twins (·.2.1) (fun a => (a.1, a.2.2)) w u) (login P ans w s l) (login P ans u s l) := by
  unfold login loginWith
  rw [tables_dbUserAuth, tables_dbUserAuth, ok_bind, ok_bind, dbUserAuth_level h]
  dsimp only
  split
  · apply both_value
    intro name _
    exact h.say (fun _ => rfl) fun _ _ => rfl
  · exact h.say (fun _ => rfl) fun _ _ => rfl

/-! ## Commands -/

theorem joined_level (h : Level w u) : joined u = joined w := by
  unfold joined
  rw [h.users, h.files]

theorem dbGetFile_level (h : Level w u) (arg : GetFile) : dbGetFile ans u arg = dbGetFile ans w arg := by
  unfold dbGetFile
  rw [joined_level h]

theorem dbGetFilesData_level (h : Level w u) (ptr : Bytes) (arg : GetFiles) :
    dbGetFilesData P ans ptr u arg = dbGetFilesData P ans ptr w arg := by
  unfold dbGetFilesData
  rw [joined_level h, h.files]

theorem fileList_alike (h : Level w u) {args : FileListArgs} :
    Both (Alike w u) (fileList P ans w s args) (fileList P ans u s args) := by
  unfold fileList fileListWith
  rw [tables_dbGetFilesData, tables_dbGetFilesData, ok_bind, ok_bind, dbGetFilesData_level h]
  split
  · exact both_error _
  split
  · exact both_ok (h.log _)
  · apply both_value
    intro name _
    split
    · exact both_ok (h.writes _ _)
    · exact both_error _

theorem sendFound_alike (h : Level w u) {sf : SFile}
    (hdisk : w.disk (storagePath sf.hash) = u.disk (storagePath sf.hash)) :
    Both (Twins (·.2.1) (fun a => (a.1, a.2.2)) w u) (sendFound ans w s sf) (sendFound ans u s sf) := by
  unfold sendFound sendFoundWith
  dsimp only
  cases ans.opened with
  | none => exact both_ok ⟨h.log _, rfl⟩
  | some d =>
    refine (h.openRead s (storagePath sf.hash) d).bind fun w' u' ha => ?_
    rw [ha.disk hdisk]
    split
    · exact both_ok ⟨ha.trans (ha.toLevel.log _), rfl⟩
    · exact both_ok ⟨ha, rfl⟩

theorem dbGetFile_entry {arg : GetFile} {sf : SFile} (h : dbGetFile ans w arg = some sf) :
    ∃ r ∈ w.files.rows, r.path = storagePath sf.hash := by
  unfold dbGetFile at h
  dsimp only at h
  split at h
  · obtain ⟨r, hr, rfl⟩ := Option.map_eq_some_iff.mp h
    exact ⟨r, mem_joined_files (List.mem_of_mem_filter (List.mem_of_getLast? hr)), rfl⟩
  · cases h

theorem fileSendPrepare_alike (h : Level w u) (hs : Shares w u s) (hrows : SameRows w u) :
    Both (Twins (·.2.1) (fun a => (a.1, a.2.2)) w u) (fileSendPrepare ans w s l) (fileSendPrepare ans u s l) := by
  unfold fileSendPrepare fileSendPrepareWith
  split
  · exact h.say_clear hs (fun _ => rfl) fun w u => congrArg _ (clear_snd w u s)
  dsimp only
  split
  · exact h.say_clear hs (fun _ => rfl) fun w u => congrArg _ (clear_snd w u s)
  split
  · exact h.say_clear hs (fun _ => rfl) fun w u => congrArg _ (clear_snd w u s)
  split
  · exact both_error _
  rw [ok_bind, ok_bind, dbGetFile_level h]
  split
  · exact both_ok ⟨.refl h, rfl⟩
  · rename_i sf hsf
    obtain ⟨r, hr, hp⟩ := dbGetFile_entry hsf
    exact sendFound_alike h (hp ▸ hrows hr)

theorem probeNames_alike (h : Level w u) {name : Bytes} {size : Nat} {probes : List Probe} {seed : Int} :
    Both (Twins (·.2) (·.1) w u) (probeNames w s name size seed probes) (probeNames u s name size seed probes) := by
  induction probes generalizing w u seed with
  | nil => exact both_error _
  | cons p probes ih =>
    unfold probeNames
    dsimp only
    split
    · exact both_ok ⟨h.chdir .storage, rfl⟩
    have hc := h.chdir .work
    cases p.opened with
    | eexist =>
      intro a b ha hb
      dsimp only at ha hb
      split at ha
      · split at hb
        · exact Twins.after hc (ih hc.toLevel ha hb)
        · cases hb
      · cases ha
    | failed => exact both_ok ⟨hc, rfl⟩
    | fd d =>
      refine (hc.create s (storagePath (murmurHash3X86_32 name seed)) d size).bind fun w' u' ha => ?_
      exact both_ok ⟨hc.trans ha, rfl⟩

theorem fileReceivePrepare_alike (h : Level w u) (hs : Shares w u s) :
    Both (Twins (·.2.1) (fun a => (a.1, a.2.2)) w u) (fileReceivePrepare ans w s l) (fileReceivePrepare ans u s l) := by
  unfold fileReceivePrepare fileReceivePrepareWith
  split
  · exact h.say_clear hs (fun _ => rfl) fun w u => congrArg _ (clear_snd w u s)
  dsimp only
  split
  · exact h.say_clear hs (fun _ => rfl) fun w u => congrArg _ (clear_snd w u s)
  split
  · exact h.say_clear hs (fun _ => rfl) fun w u => congrArg _ (clear_snd w u s)
  split
  · exact h.say_clear (t := { s with file := some _, state := .opWait }) hs (fun _ => rfl) fun w u =>
      congrArg _ (clear_snd w u _)
  split
  · exact h.say_clear (t := { s with file := some _ }) hs (fun _ => rfl) fun w u => congrArg _ (clear_snd w u _)
  refine (probeNames_alike h).bind fun a b hab => ?_
  obtain ⟨ha, hr⟩ := hab
  have hr : a.1 = b.1 := hr
  rw [hr]
  have hs' := hs.after ha
  refine Both.mono (R := Twins _ _ a.2 b.2) ?_ fun _ _ => Twins.after ha
  split
  · exact ha.say_clear (t := { s with file := some _ }) hs' (fun _ => rfl) fun w u => congrArg _ (clear_snd w u _)
  · exact ha.say_clear (t := { s with file := some _ }) hs' (fun _ => rfl) fun w u =>
      congrArg (fun t : Session => ((-3 : Int), { t with file := none })) (clear_snd w u _)
  · exact both_ok ⟨ha.toLevel.log _, rfl⟩

theorem fileSearch_alike (h : Level w u) : Both (Alike w u) (fileSearch w s l) (fileSearch u s l) := by
  unfold fileSearch fileSearchWith
  split
  · exact h.send s _
  split
  · exact both_error _
  split
  · exact h.send s _
  · exact both_error _

theorem clientExit_alike (h : Level w u) :
    Both (Twins (·.1) (·.2) w u) (clientExit w s l) (clientExit u s l) := by
  unfold clientExit clientExitWith
  split
  · exact h.say (fun _ => rfl) fun _ _ => rfl
  · exact both_ok ⟨.refl h, rfl⟩

theorem processClientCommand_alike (h : Level w u) (hs : Shares w u s) (hrows : SameRows w u) :
    Both (Twins (·.1) (·.2) w u) (processClientCommand P ans w s l) (processClientCommand P ans u s l) := by
  unfold processClientCommand processClientCommandWith
  apply both_value
  intro r _
  dsimp only
  split
  · split
    · exact h.say (fun _ => rfl) fun _ _ => rfl
    split
    · exact (fileList_alike h).bind fun w' u' ha => both_ok ⟨ha, rfl⟩
    split
    · refine (fileReceivePrepare_alike h hs).bind fun a b hab => both_ok ⟨hab.1, ?_⟩
      obtain ⟨hr, ht⟩ := Prod.mk.inj hab.2
      dsimp only at hr ht ⊢
      rw [hr, ht]
    split
    · refine (fileSendPrepare_alike h hs hrows).bind fun a b hab => both_ok ⟨hab.1, ?_⟩
      obtain ⟨hr, ht⟩ := Prod.mk.inj hab.2
      dsimp only at hr ht ⊢
      rw [hr, ht]
    split
    · exact (fileSearch_alike h).bind fun w' u' ha => both_ok ⟨ha, rfl⟩
    · exact clientExit_alike h
  · exact clientExit_alike h

/-! ## Transfers -/

theorem downloadConfirm_alike (h : Level w u) (hs : Shares w u s) :
    Both (Twins (·.1) (·.2) w u) (downloadConfirm w s l) (downloadConfirm u s l) := by
  unfold downloadConfirm
  split
  · exact both_value fun f _ => both_ok ⟨.refl h, rfl⟩
  split
  · exact both_value fun f _ => both_ok ⟨h.clear hs,
      congrArg (fun t : Session => { t with state := .opWait }) (clear_snd ..)⟩
  · exact both_ok ⟨.refl h, rfl⟩

theorem fileDownload_alike (h : Level w u) (hs : Shares w u s) :
    Both (Twins (·.1) (·.2) w u) (fileDownload ans w s) (fileDownload ans u s) := by
  unfold fileDownload
  apply both_value
  intro f _
  split
  · exact both_ok ⟨.refl h, rfl⟩
  extract_lets readLen bs rlen
  split
  · exact both_error _
  split
  · split
    · exact both_ok ⟨h.clear hs, congrArg (fun t : Session => { t with state := .opWait }) (clear_snd ..)⟩
    · exact both_ok ⟨.refl h, rfl⟩
  split
  · exact both_ok ⟨h.clear (s := { s with state := .err }) hs, clear_snd ..⟩
  · rename_i n _
    have hl := h.log (.wrote s.sd (bufSlice ans bs 0 n))
    dsimp only
    split
    · exact both_ok ⟨hl.trans (hl.clear (s := { s with file := some _ }) (hs.after hl)),
        congrArg (fun t : Session => { t with state := .opWait }) (clear_snd ..)⟩
    split
    · exact both_ok ⟨hl, rfl⟩
    · exact both_ok ⟨hl, rfl⟩

theorem uploadWriteFailed_alike (h : Level w u) (hs : Shares w u s) {f : SFile} :
    Both (Twins (·.1) (·.2) w u) (uploadWriteFailed ans w s f) (uploadWriteFailed ans u s f) := by
  unfold uploadWriteFailed uploadWriteFailedWith
  refine (h.send s _).bind fun w₁ u₁ h₁ => both_value fun p _ => both_ok ⟨?_, ?_⟩
  · have h₂ := h₁.trans (h₁.closeFd (hs.after h₁))
    have h₃ := h₂.trans (h₂.unlink p)
    exact h₃.trans (h₃.clear (hs.after h₃))
  · exact congrArg (fun t : Session => { t with state := .opWait }) (clear_snd ..)

theorem uploadRemoved_alike (h : Level w u) (hs : Shares w u s) {f : SFile} :
    Both (Twins (·.1) (·.2) w u) (uploadRemoved w s f) (uploadRemoved u s f) := by
  unfold uploadRemoved
  refine both_value fun p _ => both_ok ⟨?_, congrArg (fun t : Session => { t with state := .opWait }) (clear_snd ..)⟩
  exact (h.unlink p).trans ((h.unlink p).clear (hs.after (h.unlink p)))

theorem uploadFin_alike (h : Level w u) {f : SFile} :
    Both (Twins (·.1) (·.2) w u) (uploadFin w s f) (uploadFin u s f) := by
  unfold uploadFin uploadFinWith
  split
  · exact h.say (fun _ => rfl) fun _ _ => rfl
  · exact both_ok ⟨.refl h, rfl⟩

theorem fileUpload_alike (h : Level w u) (hs : SharesFile w u s) :
    Both (Twins (·.1) (·.2) w u) (fileUpload ans w s) (fileUpload ans u s) := by
  unfold fileUpload fileUploadWith
  apply both_value
  intro f _
  extract_lets bs rlen
  split
  · exact both_error _
  split
  · split
    · exact uploadRemoved_alike h hs.shares
    · exact both_ok ⟨.refl h, rfl⟩
  have hl := h.log (.received s.sd bs)
  have hsl := hs.after hl
  -- after one write, and after two
  have h₁ : ∀ out, Alike w u ((w.log (.received s.sd bs)).append s.fd out) ((u.log (.received s.sd bs)).append s.fd out) :=
    fun out => hl.trans (hl.append hsl out)
  have h₂ : ∀ out out', Alike w u (((w.log (.received s.sd bs)).append s.fd out).append s.fd out')
      (((u.log (.received s.sd bs)).append s.fd out).append s.fd out') :=
    fun out out' => (h₁ out).trans ((h₁ out).append (hs.after (h₁ out)) out')
  have after : ∀ {w₁ u₁ : World} {x y : M (World × Session)}, Alike w u w₁ u₁ → Both (Twins (·.1) (·.2) w₁ u₁) x y →
      Both (Twins (·.1) (·.2) w u) x y := fun ha hb => hb.mono fun _ _ => Twins.after ha
  dsimp only
  split
  · cases ans.write1.accepted f.packageRest with
    | none => exact after hl (uploadWriteFailed_alike hl.toLevel hsl.shares)
    | some n =>
      dsimp only
      split
      · exact both_ok ⟨h₁ _, rfl⟩
      split
      · exact after (h₁ _) (uploadFin_alike (h₁ _).toLevel)
      split
      · split
        · split
          · exact after (h₁ _) (uploadWriteFailed_alike (h₁ _).toLevel (hs.after (h₁ _)).shares)
          · exact after (h₂ _ _) (uploadFin_alike (h₂ _ _).toLevel)
        · exact after (h₁ _) (uploadFin_alike (h₁ _).toLevel)
      split
      · exact after (h₁ _) (uploadRemoved_alike (h₁ _).toLevel (hs.after (h₁ _)).shares)
      · exact after (h₁ _) (uploadFin_alike (h₁ _).toLevel)
  · cases ans.write1.accepted (sizeT rlen) with
    | none => exact after hl (uploadWriteFailed_alike hl.toLevel hsl.shares)
    | some n => exact after (h₁ _) (uploadFin_alike (h₁ _).toLevel)

theorem dbSaveFile_alike (h : Level w u) {f : SFile} {uid : Int} :
    Both (Twins (·.2) (·.1) w u) (dbSaveFile ans w s f uid) (dbSaveFile ans u s f uid) := by
  unfold dbSaveFile
  apply both_value
  intro name _
  cases ans.insert with
  | none => exact both_ok ⟨.refl h, rfl⟩
  | some id =>
    dsimp only
    rw [← h.files]
    split
    · exact both_ok ⟨⟨⟨h.users, rfl, h.cwd⟩, fun _ h => h, fun _ h => h, fun _ h => h, [_], rfl, rfl⟩, rfl⟩
    · exact both_error _

theorem saveFile_alike (h : Level w u) (hs : Shares w u s) :
    Both (Twins (·.1) (·.2) w u) (saveFile ans w s) (saveFile ans u s) := by
  unfold saveFile saveFileWith
  apply both_value
  intro f _
  refine (dbSaveFile_alike h).bind fun a b hab => ?_
  obtain ⟨ha, hr⟩ := hab
  have hr : a.1 = b.1 := hr
  dsimp only
  rw [hr]
  apply both_value
  intro name _
  have hdone : ∀ {w₁ u₁}, Alike w u w₁ u₁ → Both (Twins (·.1) (·.2) w u)
      (.ok ((clearFileFromSess w₁ s).1, { (clearFileFromSess w₁ s).2 with state := .opWait }) : M (World × Session))
      (.ok ((clearFileFromSess u₁ s).1, { (clearFileFromSess u₁ s).2 with state := .opWait })) := fun h₁ =>
    both_ok ⟨h₁.trans (h₁.clear (hs.after h₁)),
      congrArg (fun t : Session => { t with state := .opWait }) (clear_snd ..)⟩
  split
  · exact (ha.send s _).bind fun w₁ u₁ h₁ => hdone (ha.trans h₁)
  · refine (ha.send s _).bind fun w₁ u₁ h₁ => both_value fun p _ => ?_
    exact hdone ((ha.trans h₁).trans (h₁.unlink p))

/-- **One action** is the same in both worlds. -/
theorem performSessionAction_alike (h : Level w u) (hs : Shares w u s)
    (hfile : s.state = .opUpload → SharesFile w u s) (hrows : SameRows w u) :
    Both (Twins (·.1) (·.2) w u) (performSessionAction P ans w s line) (performSessionAction P ans u s line) := by
  unfold performSessionAction performSessionActionWith
  have hl := h.log (.handled s.sd s.state line)
  have hsl := hs.after hl
  have hrl : SameRows (w.log (.handled s.sd s.state line)) (u.log (.handled s.sd s.state line)) := hrows
  refine Both.mono (R := Twins _ _ (w.log (.handled s.sd s.state line)) (u.log (.handled s.sd s.state line))) ?_
    fun _ _ => Twins.after hl
  dsimp only
  split
  · refine both_value fun l _ => (processUserName_alike hl.toLevel).bind fun a b hab => both_ok ⟨hab.1, ?_⟩
    exact (Prod.mk.inj hab.2).2
  · refine both_value fun l _ => (login_alike hl.toLevel).bind fun a b hab => both_ok ⟨hab.1, ?_⟩
    exact (Prod.mk.inj hab.2).2
  · exact both_value fun l _ => processClientCommand_alike hl.toLevel hsl hrl
  · exact fileDownload_alike hl.toLevel hsl
  · rename_i hst
    exact fileUpload_alike hl.toLevel ((hfile hst).after hl)
  · refine both_value fun l _ => both_value fun r hr => ?_
    have hfd : r.2.fd = s.fd := by
      obtain ⟨f, -, hr⟩ := bind_ok.mp hr
      obtain ⟨dsc, b, -, ht⟩ := descriptionLoop_ok hr
      rw [ht]
    dsimp only
    split
    · exact saveFile_alike hl.toLevel fun d hd => hsl (hfd ▸ hd)
    · exact both_ok ⟨.refl hl.toLevel, rfl⟩
  · exact both_value fun l _ => downloadConfirm_alike hl.toLevel hsl
  · exact both_ok ⟨.refl hl.toLevel, rfl⟩

theorem closeSession_alike (h : Level w u) (hs : Shares w u s) {i : Nat}
    (hi : (w.fds i).isSome = (u.fds i).isSome) : Alike w u (closeSession w s i) (closeSession u s i) := by
  unfold closeSession
  have hc := h.clear hs
  dsimp only
  rw [← clear_snd w u s]
  exact hc.trans (hc.close _ (hc.isOpen hi))

end

end BbsServer
