import BbsServer.Outcome

/-!
# What an action leaves alone

The log of an action (`Did.logs`), its session's descriptor (`Did.sd_eq`), and what it can do to
the descriptors and the files of other sessions (`Did.fds`, `Did.disk`).
-/

namespace BbsServer

open CStr Function

/-! ## The log -/

/-- `w'` has logged more than `w`, only entries that meet `p`. -/
def Logs (p : Act → Prop) (w w' : World) : Prop := ∃ ext : List Act, w'.trace = ext ++ w.trace ∧ ∀ a ∈ ext, p a

/-- The entries that no handler makes on its own account: everything but the marks of the main
loop, new rows and new files. -/
def Act.isPlain : Act → Bool
  | .accepted .. | .handled .. | .insertedUser .. | .insertedFile .. | .created .. => false
  | _ => true

namespace Logs

variable {p q : Act → Prop} {a b c w w' : World}

theorem refl (w : World) : Logs p w w := ⟨[], rfl, by simp⟩

theorem trans (h : Logs p a b) (h' : Logs p b c) : Logs p a c := by
  obtain ⟨x, hx, hx'⟩ := h
  obtain ⟨y, hy, hy'⟩ := h'
  refine ⟨y ++ x, by rw [hy, hx, List.append_assoc], fun a ha => ?_⟩
  rcases List.mem_append.mp ha with ha | ha
  · exact hy' a ha
  · exact hx' a ha

theorem cons {x : Act} (h : w'.trace = x :: w.trace) (hx : p x) : Logs p w w' := ⟨[x], h, by simpa using hx⟩

theorem mono (hpq : ∀ a, p a → q a) (h : Logs p w w') : Logs q w w' := by
  obtain ⟨ext, hext, hp⟩ := h
  exact ⟨ext, hext, fun a ha => hpq a (hp a ha)⟩

theorem subset (h : Logs p w w') {x : Act} (hx : x ∈ w.trace) : x ∈ w'.trace := by
  obtain ⟨ext, hext, -⟩ := h
  rw [hext]
  exact List.mem_append_right _ hx

theorem old (h : Logs p w w') {x : Act} (hx : x ∈ w'.trace) : x ∈ w.trace ∨ p x := by
  obtain ⟨ext, hext, hp⟩ := h
  rw [hext] at hx
  rcases List.mem_append.mp hx with hx | hx
  · exact .inr (hp x hx)
  · exact .inl hx

theorem talks (h : Talks w w') : Logs (·.isPlain) w w' := by
  obtain ⟨acts, ha, rfl⟩ := h
  refine ⟨acts, rfl, fun a h => ?_⟩
  have := ha a h
  cases a <;> simp_all [Act.isTalk, Act.isPlain]

theorem closeFd (w : World) (s : Session) : Logs (·.isPlain) w (w.closeFd s) := by
  unfold World.closeFd
  split
  · exact cons rfl rfl
  · exact refl w

theorem unlink (w : World) (p : Bytes) : Logs (·.isPlain) w (w.unlink p) := cons (World.unlink_trace w p) rfl

theorem uploaded (w : World) (s : Session) (bs out : Bytes) : Logs (·.isPlain) w (w.uploaded s bs out) :=
  cons (World.append_trace ..) rfl

theorem clear (w : World) (s : Session) : Logs (·.isPlain) w (clearFileFromSess w s).1 := by
  unfold clearFileFromSess
  split
  · exact refl w
  · exact closeFd w s

theorem closeSession (w : World) (s : Session) (i : Nat) : Logs (·.isPlain) w (closeSession w s i) :=
  (clear w s).trans (cons rfl rfl)

end Logs

def Session.uploads (s : Session) : Prop := s.state = .opUpload ∨ s.state = .opUploadDescription

def Session.path (s : Session) : Option Bytes := s.file.bind (·.path)

def Act.Of (s s' : Session) : Act → Prop
  | .accepted .. | .handled .. => False
  | .created sd p _ _ => sd = s.sd ∧ s.state = .opWait ∧ s'.uploads ∧ s'.path = some p
  | .insertedUser sd row =>
    sd = s.sd ∧ s.state = .opLoginUsr ∧ s'.state = .opWait ∧ s'.uname = some row.username ∧ s'.uid = row.id
  | .insertedFile sd row => sd = s.sd ∧ s.state = .opUploadDescription ∧ ∃ f, s.file = some f ∧
    some row.name = f.name ∧ row.size = f.size ∧ row.hash = f.hash ∧ row.userId = s.uid
  | _ => True

theorem Act.of_plain {s s' : Session} {a : Act} (h : a.isPlain) : a.Of s s' := by
  cases a <;> simp_all [Act.isPlain, Act.Of]

section
variable {P : Platform} {ans : Answers} {w w' : World} {s s' : Session} {line : Option Bytes}

theorem Did.logs (h : Did P ans w s line w' s') : Logs (Act.Of s s') w w' := by
  have plain : ∀ {a b}, Logs (·.isPlain) a b → Logs (Act.Of s s') a b := fun h => h.mono fun _ => Act.of_plain
  cases h with
  | registered hst _ _ _ ht => exact .trans (.cons rfl (by exact ⟨rfl, hst, rfl, rfl, rfl⟩)) (plain (.talks ht))
  | dropped _ _ ht => exact plain (.trans (.talks ht) (.clear _ s))
  | refused _ _ hw ht =>
    refine plain (.trans ?_ (.trans (.talks ht) (.closeFd _ s)))
    rcases hw with rfl | rfl | ⟨rfl, -⟩
    · exact .refl _
    · exact ⟨[], rfl, by simp⟩
    · exact ⟨[], rfl, by simp⟩
  | accepted hst _ _ hc ht =>
    obtain ⟨-, rfl⟩ := World.create_ok hc
    exact .trans (.cons rfl (by exact ⟨rfl, hst, .inl rfl, rfl⟩)) (plain (.talks ht))
  | damaged _ _ _ _ ho _ ht =>
    obtain ⟨-, rfl⟩ := World.openRead_ok ho
    exact .trans (.cons rfl (by trivial)) (plain (.talks ht))
  | sending _ _ _ _ ho _ =>
    obtain ⟨-, rfl⟩ := World.openRead_ok ho
    exact .cons rfl (by trivial)
  | released _ _ _ ht => exact plain (.trans (.talks ht) (.closeFd _ s))
  | notFound | ended | described => exact .refl w
  | removed _ _ _ _ hw =>
    refine plain (.trans ?_ (.trans (.unlink _ _) (.closeFd _ s)))
    rcases hw with ⟨-, rfl⟩ | ⟨-, out, -, rfl⟩
    · exact .refl _
    · exact .uploaded w s _ out
  | writeFailed _ _ _ _ ht =>
    exact plain (.trans (.trans (.uploaded w s _ _) (.talks ht))
      (.trans (.closeFd _ s) (.trans (.unlink _ _) (.closeFd _ s))))
  | stored _ _ _ _ _ _ _ ht => exact plain (.trans (.uploaded w s _ _) (.talks ht))
  | saved hst _ _ hf _ hn _ hr =>
    subst hr
    exact .trans (.cons rfl (by exact ⟨rfl, hst, _, hf, hn.symm, rfl, rfl, rfl⟩))
      (plain (.trans (.cons rfl rfl) (.closeFd _ s)))
  | notSaved => exact plain (.trans (.cons rfl rfl) (.closeFd _ s))
  | _ => exact plain (.talks ‹_›)

theorem Did.sd_eq (h : Did P ans w s line w' s') : s'.sd = s.sd := by
  cases h with
  | dropped => exact clearFileFromSess_sd ..
  | _ => rfl

theorem Did.live (h : Did P ans w s line w' s') (hs : s.state ≠ .fin) : s'.state ≠ .fin := by
  cases h with
  | dropped => rwa [clearFileFromSess_state]
  | moved _ _ hst => rcases hst with rfl | rfl <;> simp
  | released _ _ hst => rcases hst with rfl | ⟨rfl, -⟩ <;> simp [Session.cleared]
  | stored _ _ _ _ _ _ hst => rcases hst with rfl | ⟨rfl, -⟩ <;> simp
  | talked | notFound | notOpened | damaged | described => exact hs
  | _ => simp [Session.cleared]

theorem Did.buf_eq (h : Did P ans w s line w' s') (hst : s.state ≠ .opUploadDescription) : s'.buf = s.buf := by
  cases h with
  | dropped => exact clearFileFromSess_buf ..
  | described h => exact absurd h hst
  | saved h => exact absurd h hst
  | notSaved h => exact absurd h hst
  | _ => rfl

theorem Did.buf_suffix (h : Did P ans w s line w' s') : s'.buf <:+ s.buf := by
  by_cases hst : s.state = .opUploadDescription
  · cases h with
    | dropped => simp only [clearFileFromSess_buf, List.suffix_refl]
    | described _ _ _ _ hb => exact hb
    | saved _ _ _ _ hb => exact hb
    | notSaved _ _ _ _ hb => exact hb
    | _ => exact List.suffix_refl _
  · simp only [h.buf_eq hst, List.suffix_refl]

/-! ## Descriptors and files of others -/

theorem clear_fds {x : Nat} {k : Handle} (hx : w.fds x = some k) (hne : s.fd ≠ some x) :
    (clearFileFromSess w s).1.fds x = some k := by
  unfold clearFileFromSess
  split
  · exact hx
  · simp [hne, hx]

theorem removed_fds {x : Nat} {k : Handle} {p : Bytes} {w₁ : World} (hx : w₁.fds x = some k) (hne : s.fd ≠ some x) :
    ((w₁.unlink p).closeFd s).fds x = some k ∨ (((w₁.unlink p).closeFd s).fds x = some .removed ∧ k = .file p) := by
  rw [World.closeFd_fds, if_neg hne, World.unlink_fds, hx]
  by_cases h : w₁.cwd = .work ∧ some k = some (.file p)
  · rw [if_pos h]; exact .inr ⟨rfl, Option.some.inj h.2⟩
  · rw [if_neg h]; exact .inl rfl

theorem Did.fds (h : Did P ans w s line w' s') {x : Nat} {k : Handle} (hx : w.fds x = some k) (hne : s.fd ≠ some x) :
    w'.fds x = some k ∨ (w'.fds x = some .removed ∧ s.state = .opUpload ∧
      ∃ f p, s.file = some f ∧ f.path = some p ∧ k = .file p) := by
  cases h with
  | registered _ _ _ _ ht => rw [ht.fds]; exact .inl hx
  | dropped _ _ ht => exact .inl (clear_fds (by rw [ht.fds]; exact hx) hne)
  | refused _ _ hw ht =>
    rcases hw with rfl | rfl | ⟨rfl, -⟩ <;> exact .inl (by simp [hne, ht.fds, hx])
  | accepted _ _ _ hc ht => rw [ht.fds]; exact .inl (World.create_fds hc hx)
  | notFound => exact .inl hx
  | damaged _ _ _ _ ho _ ht => rw [ht.fds]; exact .inl (World.openRead_fds ho hx)
  | sending _ _ _ _ ho _ => exact .inl (World.openRead_fds ho hx)
  | released _ _ _ ht => exact .inl (by simp [hne, ht.fds, hx])
  | ended => exact .inl hx
  | removed hst hf hp _ hw =>
    refine (removed_fds ?_ hne).imp_right fun ⟨h1, h2⟩ => ⟨h1, hst, _, _, hf, hp, h2⟩
    rcases hw with ⟨-, rfl⟩ | ⟨-, out, -, rfl⟩ <;> simpa using hx
  | writeFailed hst hf hp _ ht =>
    exact (removed_fds (by simp [hne, ht.fds, hx]) hne).imp_right fun ⟨h1, h2⟩ => ⟨h1, hst, _, _, hf, hp, h2⟩
  | stored _ _ _ _ _ _ _ ht => rw [ht.fds, World.uploaded_fds]; exact .inl hx
  | described => exact .inl hx
  | saved => exact .inl (by simp [hne, hx])
  | notSaved => exact .inl (by simp [hne, hx])
  | talked _ _ _ _ ht | left _ _ _ ht | rolledBack _ _ _ _ _ ht | anonymous _ _ _ _ _ ht | named _ _ _ ht
  | welcomed _ _ _ _ ht | loginAgain _ ht | notOpened _ _ _ _ ht | moved _ _ _ ht => rw [ht.fds]; exact .inl hx

@[simp] theorem clear_disk (w : World) (s : Session) : (clearFileFromSess w s).1.disk = w.disk := by
  unfold clearFileFromSess; split <;> simp

theorem uploaded_disk_of_ne {q bs out : Bytes} (hq : s.fd.bind w.fds ≠ some (.file q)) :
    (w.uploaded s bs out).disk q = w.disk q := by
  rw [World.uploaded_disk, if_neg hq]

theorem unlink_disk_of_ne {p q : Bytes} (h : q ≠ p) : (w.unlink p).disk q = w.disk q := by
  rw [World.unlink_disk, if_neg (fun e => h e.2)]

/-- A file that exists keeps its content, unless the session is uploading it. -/
theorem Did.disk (h : Did P ans w s line w' s') {q : Bytes} (hq : (w.disk q).isSome)
    (hne : s.state = .opUpload → s.fd.bind w.fds ≠ some (.file q) ∧ ∀ f, s.file = some f → f.path ≠ some q) :
    w'.disk q = w.disk q := by
  cases h with
  | registered _ _ _ _ ht => rw [ht.disk]
  | dropped _ _ ht => rw [clear_disk, ht.disk]
  | refused _ _ hw ht => rcases hw with rfl | rfl | ⟨rfl, -⟩ <;> simp [ht.disk]
  | accepted _ _ _ hc ht =>
    have := World.create_disk hc hq
    rwa [← ht.disk] at this
  | damaged _ _ _ _ ho _ ht => rw [ht.disk, World.openRead_disk ho]
  | sending _ _ _ _ ho _ => rw [World.openRead_disk ho]
  | released _ _ _ ht => simp [ht.disk]
  | removed hst hf hp _ hw =>
    obtain ⟨h1, h2⟩ := hne hst
    have hqp : q ≠ _ := fun e => h2 _ hf (e ▸ hp)
    rw [World.closeFd_disk, unlink_disk_of_ne hqp]
    rcases hw with ⟨-, rfl⟩ | ⟨-, out, -, rfl⟩
    · rfl
    · exact uploaded_disk_of_ne h1
  | writeFailed hst hf hp _ ht =>
    obtain ⟨h1, h2⟩ := hne hst
    have hqp : q ≠ _ := fun e => h2 _ hf (e ▸ hp)
    rw [World.closeFd_disk, unlink_disk_of_ne hqp, World.closeFd_disk, ht.disk, uploaded_disk_of_ne h1]
  | stored hst _ _ _ _ _ _ ht => rw [ht.disk, uploaded_disk_of_ne (hne hst).1]
  | saved => simp
  | notSaved => simp
  | notFound | ended | described => rfl
  | talked _ _ _ _ ht | left _ _ _ ht | rolledBack _ _ _ _ _ ht | anonymous _ _ _ _ _ ht | named _ _ _ ht
  | welcomed _ _ _ _ ht | loginAgain _ ht | notOpened _ _ _ _ ht | moved _ _ _ ht => rw [ht.disk]

/-! ## The session's own file -/

/-- Afterwards the session has no descriptor, or the one it had, or a new one. -/
theorem Did.fd_cases (h : Did P ans w s line w' s') {d : Nat} (hd : s'.fd = some d) :
    (s.fd = some d ∧ w'.fds d = w.fds d) ∨ (w.fds d = none ∧ ∃ p, w'.fds d = some (.file p)) := by
  cases h with
  | registered _ _ _ _ ht => exact .inl ⟨hd, by rw [ht.fds]⟩
  | dropped _ _ ht =>
    unfold clearFileFromSess at hd ⊢
    split at hd
    · exact .inl ⟨hd, by rw [ht.fds]⟩
    · cases hd
  | accepted _ _ _ hc ht =>
    obtain ⟨⟨-, -, hfree⟩, rfl⟩ := World.create_ok hc
    cases hd
    exact .inr ⟨hfree, _, by rw [ht.fds]; exact update_self ..⟩
  | @damaged _ _ e _ _ _ _ _ _ ho _ ht =>
    obtain ⟨⟨-, -, hfree⟩, rfl⟩ := World.openRead_ok ho
    rw [ht.fds]
    by_cases he : d = e
    · subst he; exact .inr ⟨hfree, _, update_self ..⟩
    · exact .inl ⟨hd, update_of_ne he ..⟩
  | sending _ _ _ _ ho _ =>
    obtain ⟨⟨-, -, hfree⟩, rfl⟩ := World.openRead_ok ho
    cases hd
    exact .inr ⟨hfree, _, update_self ..⟩
  | stored _ _ _ _ _ _ _ ht => exact .inl ⟨hd, by rw [ht.fds, World.uploaded_fds]⟩
  | refused | released | removed | writeFailed | saved | notSaved => cases hd
  | notFound | ended | described => exact .inl ⟨hd, rfl⟩
  | talked _ _ _ _ ht | left _ _ _ ht | rolledBack _ _ _ _ _ ht | anonymous _ _ _ _ _ ht | named _ _ _ ht
  | welcomed _ _ _ _ ht | loginAgain _ ht | notOpened _ _ _ _ ht | moved _ _ _ ht => exact .inl ⟨hd, by rw [ht.fds]⟩

/-- A session that uploads afterwards has just begun, or goes on with its file. -/
theorem Did.upload (h : Did P ans w s line w' s') (hup : s'.uploads) :
    (∃ f d, s.state = .opWait ∧ s'.state = .opUpload ∧ s'.file = some f ∧ f.name.isSome ∧
      f.path = some (storagePath f.hash) ∧ s'.fd = some d ∧ w.disk (storagePath f.hash) = none ∧
      w'.disk (storagePath f.hash) = some [] ∧ w'.fds d = some (.file (storagePath f.hash))) ∨
    (s.uploads ∧ ∃ f f', s.file = some f ∧ s'.file = some f' ∧ f'.name = f.name ∧ f'.path = f.path ∧
    f'.hash = f.hash ∧
      f'.size = f.size ∧ s'.fd = s.fd ∧ w'.fds = w.fds ∧ ∀ q, (w'.disk q).isSome = (w.disk q).isSome) := by
  cases h with
  | accepted hst _ _ hc ht =>
    have hdisk := World.create_content hc
    obtain ⟨⟨-, hp, -⟩, rfl⟩ := World.create_ok hc
    refine .inl ⟨_, _, hst, rfl, rfl, rfl, rfl, rfl, hp, ?_, ?_⟩
    · rw [ht.disk, hdisk]
    · rw [ht.fds]; exact update_self ..
  | stored hst hf _ _ _ _ _ ht =>
    refine .inr ⟨.inl hst, _, _, hf, rfl, rfl, rfl, rfl, rfl, rfl, by rw [ht.fds, World.uploaded_fds], fun q => ?_⟩
    rw [ht.disk, World.uploaded_disk]
    split <;> simp
  | described hst _ _ hf => exact .inr ⟨.inr hst, _, _, hf, rfl, rfl, rfl, rfl, rfl, rfl, rfl, fun q => rfl⟩
  | moved _ _ hst => rcases hst with rfl | rfl <;> simp [Session.uploads] at hup
  | released _ _ hst => rcases hst with rfl | ⟨rfl, -⟩ <;> simp [Session.uploads, Session.cleared] at hup
  | _ => simp_all [Session.uploads, Session.cleared]

/-! ## Tables and names -/

theorem Did.files (h : Did P ans w s line w' s') :
    w'.files = w.files ∨ s.state = .opUploadDescription ∧ ∃ f row, s.file = some f ∧
    w.files.insert row = some w'.files ∧
      row.hash = f.hash := by
  cases h with
  | registered _ _ _ _ ht => rw [ht.files]; exact .inl rfl
  | dropped _ _ ht =>
    left
    unfold clearFileFromSess
    split <;> simp [ht.files]
  | refused _ _ hw ht => rcases hw with rfl | rfl | ⟨rfl, -⟩ <;> exact .inl (by simp [ht.files])
  | accepted _ _ _ hc ht =>
    obtain ⟨-, rfl⟩ := World.create_ok hc
    rw [ht.files]
    exact .inl rfl
  | damaged _ _ _ _ ho _ ht =>
    obtain ⟨-, rfl⟩ := World.openRead_ok ho
    rw [ht.files]
    exact .inl rfl
  | sending _ _ _ _ ho _ =>
    obtain ⟨-, rfl⟩ := World.openRead_ok ho
    exact .inl rfl
  | released _ _ _ ht => exact .inl (by simp [ht.files])
  | removed _ _ _ _ hw => rcases hw with ⟨-, rfl⟩ | ⟨-, out, -, rfl⟩ <;> exact .inl (by simp [World.uploaded])
  | writeFailed _ _ _ _ ht => exact .inl (by simp [ht.files, World.uploaded])
  | stored _ _ _ _ _ _ _ ht => exact .inl (by simp [ht.files, World.uploaded])
  | saved hst _ _ hf _ _ _ hrow hi =>
    subst hrow
    exact .inr ⟨hst, _, _, hf, by simpa using hi, rfl⟩
  | notSaved => exact .inl (by simp)
  | notFound | ended | described => exact .inl rfl
  | talked _ _ _ _ ht | left _ _ _ ht | rolledBack _ _ _ _ _ ht | anonymous _ _ _ _ _ ht | named _ _ _ ht
  | welcomed _ _ _ _ ht | loginAgain _ ht | notOpened _ _ _ _ ht | moved _ _ _ ht => rw [ht.files]; exact .inl rfl

theorem Did.files_subset (h : Did P ans w s line w' s') {r : FileRow} (hr : r ∈ w.files.rows) :
    r ∈ w'.files.rows := by
  rcases h.files with he | ⟨-, f, row, -, hi, -⟩
  · rwa [he]
  · rw [(FileTable.insert_rows hi).1]
    exact List.mem_append_left _ hr

theorem Did.users (h : Did P ans w s line w' s') :
    w'.users = w.users ∨ ∃ row, w.users.insert row = some w'.users := by
  cases h with
  | registered _ _ _ hins ht => rw [ht.users]; exact .inr ⟨_, hins⟩
  | dropped _ _ ht =>
    left
    unfold clearFileFromSess
    split <;> simp [ht.users]
  | refused _ _ hw ht => rcases hw with rfl | rfl | ⟨rfl, -⟩ <;> exact .inl (by simp [ht.users])
  | accepted _ _ _ hc ht =>
    obtain ⟨-, rfl⟩ := World.create_ok hc
    rw [ht.users]
    exact .inl rfl
  | damaged _ _ _ _ ho _ ht =>
    obtain ⟨-, rfl⟩ := World.openRead_ok ho
    rw [ht.users]
    exact .inl rfl
  | sending _ _ _ _ ho _ =>
    obtain ⟨-, rfl⟩ := World.openRead_ok ho
    exact .inl rfl
  | released _ _ _ ht => exact .inl (by simp [ht.users])
  | removed _ _ _ _ hw => rcases hw with ⟨-, rfl⟩ | ⟨-, out, -, rfl⟩ <;> exact .inl (by simp [World.uploaded])
  | writeFailed _ _ _ _ ht => exact .inl (by simp [ht.users, World.uploaded])
  | stored _ _ _ _ _ _ _ ht => exact .inl (by simp [ht.users, World.uploaded])
  | saved | notSaved => exact .inl (by simp)
  | notFound | ended | described => exact .inl rfl
  | talked _ _ _ _ ht | left _ _ _ ht | rolledBack _ _ _ _ _ ht | anonymous _ _ _ _ _ ht | named _ _ _ ht
  | welcomed _ _ _ _ ht | loginAgain _ ht | notOpened _ _ _ _ ht | moved _ _ _ ht => rw [ht.users]; exact .inl rfl

theorem Did.users_subset (h : Did P ans w s line w' s') {r : UserRow} (hr : r ∈ w.users.rows) :
    r ∈ w'.users.rows := by
  rcases h.users with he | ⟨row, hi⟩
  · rwa [he]
  · rw [(UserTable.insert_rows hi).1]
    exact List.mem_append_left _ hr

theorem Did.user (h : Did P ans w s line w' s') (h1 : s.state ≠ .opLoginUsr) (h2 : s.state ≠ .opLoginPss) :
    s'.uname = s.uname ∧ s'.uid = s.uid := by
  cases h with
  | registered h | rolledBack h | anonymous h | named h => exact absurd h h1
  | welcomed h | loginAgain h => exact absurd h h2
  | dropped =>
    unfold clearFileFromSess
    split <;> exact ⟨rfl, rfl⟩
  | _ => exact ⟨rfl, rfl⟩

theorem Did.login_back (h : Did P ans w s line w' s') (ht : s'.state = .opLoginUsr ∨ s'.state = .opLoginPss) :
    s.state = .opLoginUsr ∨ s.state = .opLoginPss := by
  cases h with
  | named hst => exact .inl hst
  | loginAgain hst => exact .inr hst
  | dropped hst => rw [clearFileFromSess_state, hst] at ht; simp at ht
  | moved _ _ hst => rcases hst with rfl | rfl <;> simp at ht
  | released _ _ hst => rcases hst with rfl | ⟨rfl, -⟩ <;> simp [Session.cleared] at ht
  | stored _ _ _ _ _ _ hst => rcases hst with rfl | ⟨rfl, -⟩ <;> simp at ht
  | _ => simp_all [Session.cleared]

theorem Did.disk_old (h : Did P ans w s line w' s') {q : Bytes} (hq : (w'.disk q).isSome) :
    (w.disk q).isSome ∨ (s'.uploads ∧ s'.path = some q) := by
  cases h with
  | registered _ _ _ _ ht => rw [ht.disk] at hq; exact .inl hq
  | dropped _ _ ht => rw [clear_disk, ht.disk] at hq; exact .inl hq
  | refused _ _ hw ht =>
    rw [World.closeFd_disk, ht.disk] at hq
    rcases hw with rfl | rfl | ⟨rfl, -⟩ <;> exact .inl hq
  | @accepted _ _ _ hash d _ _ _ _ _ hc ht =>
    obtain ⟨-, rfl⟩ := World.create_ok hc
    rw [ht.disk] at hq
    by_cases he : q = storagePath hash
    · subst he; exact .inr ⟨.inl rfl, rfl⟩
    · left
      dsimp only at hq
      rwa [update_of_ne he] at hq
  | damaged _ _ _ _ ho _ ht => rw [ht.disk, World.openRead_disk ho] at hq; exact .inl hq
  | sending _ _ _ _ ho _ => rw [World.openRead_disk ho] at hq; exact .inl hq
  | released _ _ _ ht => rw [World.closeFd_disk, ht.disk] at hq; exact .inl hq
  | removed _ _ _ _ hw =>
    rw [World.closeFd_disk, World.unlink_disk] at hq
    split at hq
    · cases hq
    · rcases hw with ⟨-, rfl⟩ | ⟨-, out, -, rfl⟩
      · exact .inl hq
      · rw [World.uploaded, World.append_isSome] at hq; exact .inl hq
  | writeFailed _ _ _ _ ht =>
    rw [World.closeFd_disk, World.unlink_disk] at hq
    split at hq
    · cases hq
    · rw [World.closeFd_disk, ht.disk, World.uploaded, World.append_isSome] at hq; exact .inl hq
  | stored _ _ _ _ _ _ _ ht => rw [ht.disk, World.uploaded, World.append_isSome] at hq; exact .inl hq
  | saved | notSaved => left; simpa using hq
  | notFound | ended | described => exact .inl hq
  | talked _ _ _ _ ht | left _ _ _ ht | rolledBack _ _ _ _ _ ht | anonymous _ _ _ _ _ ht | named _ _ _ ht
  | welcomed _ _ _ _ ht | loginAgain _ ht | notOpened _ _ _ _ ht | moved _ _ _ ht => rw [ht.disk] at hq; exact .inl hq

end

end BbsServer
