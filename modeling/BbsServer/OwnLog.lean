import BbsServer.WellFormed

/-!
# Whose entries an action makes

Every handler gets the session that it works for, and all it logs is about that session's socket
(`performSessionAction_logsOwn`). An event for another slot adds nothing about slot `i`
(`Steps.mine`, `Steps.logOf_eq`).
-/

namespace BbsServer

open CStr Function Runs

def Act.owner : Act → Option Nat
  | .accepted sd => some sd
  | .handled sd _ _ => some sd
  | .said sd _ => some sd
  | .wrote sd _ => some sd
  | .received sd _ => some sd
  | .insertedUser sd _ => some sd
  | .insertedFile sd _ => some sd
  | .created sd _ _ _ => some sd
  | .opened sd _ _ => some sd
  | .closed sd _ _ _ => some sd
  | .unlinked _ => none

def Act.Mine (i : Nat) (a : Act) : Prop := ∀ j ∈ a.owner, j = i

def LogsOwn {α : Type} (i : Nat) (w : World) (x : M α) (world : α → World) : Prop :=
  ∀ a, x = .ok a → Logs (Act.Mine i) w (world a)

section
variable {α β : Type} {P : Platform} {ans : Answers} {i : Nat} {w w' : World} {s : Session} {l : Bytes}
  {line : Option Bytes} {x : M α} {f : α → M β} {ρ : α → World} {π : β → World}

theorem logsOwn_ok {a : α} (h : Logs (Act.Mine i) w (ρ a)) : LogsOwn i w (.ok a) ρ := by
  intro b hb
  cases hb
  exact h

@[simp] theorem logsOwn_error (e : Halt) : LogsOwn i w (.error e) ρ := fun _ h => by cases h

theorem logsOwn_bind (hx : LogsOwn i w x ρ) (hf : ∀ a, x = .ok a → LogsOwn i (ρ a) (f a) π) :
    LogsOwn i w (x >>= f) π := by
  intro b hb
  obtain ⟨a, ha, hb⟩ := bind_ok.mp hb
  exact (hx a ha).trans (hf a ha b hb)

theorem logsOwn_value (hf : ∀ a, x = .ok a → LogsOwn i w (f a) π) : LogsOwn i w (x >>= f) π := by
  intro b hb
  obtain ⟨a, ha, hb⟩ := bind_ok.mp hb
  exact hf a ha b hb

theorem Act.mine_of {a : Act} (h : a.owner = some i) : a.Mine i := by
  intro j hj
  rw [h] at hj
  exact (Option.some.inj hj).symm

theorem mine_log {a : Act} (h : a.owner = some i) : Logs (Act.Mine i) w (w.log a) := .cons rfl (Act.mine_of h)

theorem mine_writes {texts : List Bytes} : Logs (Act.Mine s.sd) w (writeTexts w s texts) := by
  refine ⟨(texts.map (.wrote s.sd)).reverse, congrArg World.trace writeTexts_eq, fun a ha => ?_⟩
  obtain ⟨t, -, rfl⟩ := List.mem_map.mp (List.mem_reverse.mp ha)
  exact Act.mine_of rfl

theorem mine_closeFd (w : World) (s : Session) : Logs (Act.Mine s.sd) w (w.closeFd s) := by
  unfold World.closeFd
  split
  · exact .cons rfl (Act.mine_of rfl)
  · exact .refl w

theorem mine_unlink (w : World) (p : Bytes) : Logs (Act.Mine i) w (w.unlink p) :=
  .cons (World.unlink_trace w p) fun _ h => by cases h

theorem mine_append (w : World) (d : Option Nat) (b : Bytes) : Logs (Act.Mine i) w (w.append d b) :=
  ⟨[], World.append_trace .., by simp⟩

theorem mine_clear (w : World) (s : Session) : Logs (Act.Mine s.sd) w (clearFileFromSess w s).1 := by
  unfold clearFileFromSess
  split
  · exact .refl w
  · exact mine_closeFd w s

theorem mine_closeSession (w : World) (s : Session) (i : Nat) (hs : s.sd = i) :
    Logs (Act.Mine i) w (closeSession w s i) := by
  subst hs
  refine (mine_clear w s).trans (.cons rfl ?_)
  apply Act.mine_of
  show some (clearFileFromSess w s).2.sd = some s.sd
  rw [clearFileFromSess_sd]

theorem logsOwn_send (text : Bytes) : LogsOwn s.sd w (sessionSendString w s text) id := by
  intro w' h
  rw [id, (sessionSendString_ok h).1]
  exact mine_log rfl

theorem logsOwn_say {text : Bytes} {g : World → β} (hg : ∀ w, π (g w) = w) :
    LogsOwn s.sd w (sessionSendString w s text >>= fun w => .ok (g w)) π := by
  apply logsOwn_bind (logsOwn_send text)
  intro w' _
  apply logsOwn_ok
  rw [hg]
  exact .refl _

theorem logsOwn_say_clear {text : Bytes} {t u : Session} {ret : Int} {g : World → Session}
    (ht : t.sd = i) (hu : u.sd = i) :
    LogsOwn i w (sessionSendString w t text >>= fun w => .ok (ret, (clearFileFromSess w u).1, g w)) (·.2.1) := by
  subst ht
  apply logsOwn_bind (logsOwn_send text)
  intro w' _
  apply logsOwn_ok
  rw [← hu]
  exact mine_clear ..

/-! ## Before the login -/

theorem dbUserCreate_logsOwn {args : DbUserCreate} : LogsOwn s.sd w (dbUserCreate P ans w s args) (·.2) := by
  rintro ⟨ret, w'⟩ h
  rcases dbUserCreate_cases h with ⟨-, rfl⟩ | ⟨row, users, -, -, -, -, rfl⟩
  · exact .refl _
  · cases ans.committed with
    | true => exact .cons rfl (Act.mine_of rfl)
    | false => exact .refl _

theorem createUser_logsOwn : LogsOwn s.sd w (createUser P ans w s l) (·.2.1) := by
  unfold createUser createUserWith
  apply logsOwn_value
  intro p _
  cases p with
  | none => exact logsOwn_ok (.refl w)
  | some p =>
    apply logsOwn_bind dbUserCreate_logsOwn
    intro r _
    dsimp only
    split
    · exact logsOwn_say fun _ => rfl
    split
    · exact logsOwn_say fun _ => rfl
    split
    · exact logsOwn_say fun _ => rfl
    · exact logsOwn_say fun _ => rfl

theorem processUserName_logsOwn : LogsOwn s.sd w (processUserName P ans w s l) (·.2.1) := by
  unfold processUserName processUserNameWith
  split
  · exact logsOwn_say fun _ => rfl
  split
  · exact createUser_logsOwn
  split
  · exact logsOwn_say fun _ => rfl
  · exact logsOwn_say fun _ => rfl

theorem login_logsOwn : LogsOwn s.sd w (login P ans w s l) (·.2.1) := by
  unfold login loginWith
  rw [tables_dbUserAuth, ok_bind]
  dsimp only
  split
  · apply logsOwn_value
    intro u _
    exact logsOwn_say fun _ => rfl
  · exact logsOwn_say fun _ => rfl

/-! ## Commands -/

theorem fileList_logsOwn {args : FileListArgs} : LogsOwn s.sd w (fileList P ans w s args) id := by
  unfold fileList fileListWith
  rw [tables_dbGetFilesData, ok_bind]
  split
  · simp
  split
  · exact logsOwn_ok (mine_log rfl)
  · apply logsOwn_value
    intro u _
    split
    · exact logsOwn_ok mine_writes
    · simp

theorem sendFound_logsOwn {sf : SFile} : LogsOwn s.sd w (sendFound ans w s sf) (·.2.1) := by
  unfold sendFound sendFoundWith
  dsimp only
  split
  · exact logsOwn_ok (mine_log rfl)
  · refine logsOwn_bind (ρ := id) (fun w' h => ?_) fun w' _ => ?_
    · obtain ⟨-, rfl⟩ := World.openRead_ok h
      exact .cons rfl (Act.mine_of rfl)
    · split
      · exact logsOwn_ok (mine_log rfl)
      · exact logsOwn_ok (.refl _)

theorem fileSendPrepare_logsOwn : LogsOwn s.sd w (fileSendPrepare ans w s l) (·.2.1) := by
  unfold fileSendPrepare fileSendPrepareWith
  split
  · exact logsOwn_say_clear rfl rfl
  dsimp only
  split
  · exact logsOwn_say_clear rfl rfl
  split
  · exact logsOwn_say_clear rfl rfl
  split
  · simp
  rw [ok_bind]
  split
  · exact logsOwn_ok (.refl w)
  · exact sendFound_logsOwn

theorem probeNames_logsOwn {name : Bytes} {size : Nat} {probes : List Probe} {seed : Int} :
    LogsOwn s.sd w (probeNames w s name size seed probes) (·.2) := by
  induction probes generalizing w seed with
  | nil => exact logsOwn_error _
  | cons p probes ih =>
    unfold probeNames
    dsimp only
    split
    · exact logsOwn_ok ⟨[], rfl, by simp⟩
    split
    · split
      · exact ih
      · simp
    · exact logsOwn_ok ⟨[], rfl, by simp⟩
    · refine logsOwn_bind (ρ := id) (fun w' h => ?_) fun w' _ => logsOwn_ok (.refl _)
      obtain ⟨-, rfl⟩ := World.create_ok h
      exact .cons rfl (Act.mine_of rfl)

theorem fileReceivePrepare_logsOwn : LogsOwn s.sd w (fileReceivePrepare ans w s l) (·.2.1) := by
  unfold fileReceivePrepare fileReceivePrepareWith
  split
  · exact logsOwn_say_clear rfl rfl
  dsimp only
  split
  · exact logsOwn_say_clear rfl rfl
  split
  · exact logsOwn_say_clear rfl rfl
  split
  · exact logsOwn_say_clear rfl rfl
  split
  · exact logsOwn_say_clear rfl rfl
  apply logsOwn_bind probeNames_logsOwn
  intro r _
  split
  · exact logsOwn_say_clear rfl rfl
  · exact logsOwn_say_clear rfl rfl
  · exact logsOwn_ok (mine_log rfl)

theorem fileSearch_logsOwn : LogsOwn s.sd w (fileSearch w s l) id := by
  unfold fileSearch fileSearchWith
  split
  · exact logsOwn_send _
  split
  · simp
  split
  · exact logsOwn_send _
  · simp

theorem clientExit_logsOwn : LogsOwn s.sd w (clientExit w s l) (·.1) := by
  unfold clientExit clientExitWith
  split
  · exact logsOwn_say fun _ => rfl
  · exact logsOwn_ok (.refl w)

theorem processClientCommand_logsOwn : LogsOwn s.sd w (processClientCommand P ans w s l) (·.1) := by
  unfold processClientCommand processClientCommandWith
  apply logsOwn_value
  intro r _
  dsimp only
  split
  · split
    · exact logsOwn_say fun _ => rfl
    split
    · exact logsOwn_bind fileList_logsOwn fun _ _ => logsOwn_ok (.refl _)
    split
    · exact logsOwn_bind fileReceivePrepare_logsOwn fun _ _ => logsOwn_ok (.refl _)
    split
    · exact logsOwn_bind fileSendPrepare_logsOwn fun _ _ => logsOwn_ok (.refl _)
    split
    · exact logsOwn_bind fileSearch_logsOwn fun _ _ => logsOwn_ok (.refl _)
    · exact clientExit_logsOwn
  · exact clientExit_logsOwn

/-! ## Transfers -/

theorem downloadConfirm_logsOwn : LogsOwn s.sd w (downloadConfirm w s l) (·.1) := by
  unfold downloadConfirm
  split
  · exact logsOwn_value fun f _ => logsOwn_ok (.refl w)
  split
  · exact logsOwn_value fun f _ => logsOwn_ok (mine_clear w s)
  · exact logsOwn_ok (.refl w)

theorem fileDownload_logsOwn : LogsOwn s.sd w (fileDownload ans w s) (·.1) := by
  unfold fileDownload
  apply logsOwn_value
  intro f _
  split
  · exact logsOwn_ok (.refl w)
  extract_lets readLen bs rlen
  split
  · simp
  split
  · split
    · exact logsOwn_ok (mine_clear w s)
    · exact logsOwn_ok (.refl w)
  split
  · exact logsOwn_ok (mine_clear w { s with state := .err })
  · dsimp only
    split
    · exact logsOwn_ok (.trans (mine_log rfl) (mine_clear _ { s with file := some _ }))
    split
    · exact logsOwn_ok (mine_log rfl)
    · exact logsOwn_ok (mine_log rfl)

theorem uploadWriteFailed_logsOwn {f : SFile} : LogsOwn s.sd w (uploadWriteFailed ans w s f) (·.1) := by
  unfold uploadWriteFailed uploadWriteFailedWith
  apply logsOwn_bind (logsOwn_send _)
  intro w' _
  apply logsOwn_value
  intro p _
  exact logsOwn_ok (.trans (mine_closeFd _ s) (.trans (mine_unlink ..) (mine_clear _ s)))

theorem uploadRemoved_logsOwn {f : SFile} : LogsOwn s.sd w (uploadRemoved w s f) (·.1) := by
  unfold uploadRemoved
  apply logsOwn_value
  intro p _
  exact logsOwn_ok (.trans (mine_unlink ..) (mine_clear _ s))

theorem uploadFin_logsOwn {f : SFile} : LogsOwn s.sd w (uploadFin w s f) (·.1) := by
  unfold uploadFin uploadFinWith
  split
  · exact logsOwn_say fun _ => rfl
  · exact logsOwn_ok (.refl w)

theorem LogsOwn.after (h : Logs (Act.Mine i) w w') (hx : LogsOwn i w' x ρ) : LogsOwn i w x ρ :=
    fun a ha => h.trans (hx a ha)

theorem fileUpload_logsOwn : LogsOwn s.sd w (fileUpload ans w s) (·.1) := by
  cases hf : s.file with
  | none =>
    unfold fileUpload fileUploadWith
    rw [hf]
    exact logsOwn_error _
  | some f =>
    have written : ∀ out, Logs (Act.Mine s.sd) w (w.uploaded s (ans.read.getD []) out) := fun out =>
      .trans (mine_log rfl) (mine_append ..)
    refine fileUpload_ends (Q := (LogsOwn s.sd w · (·.1))) hf (logsOwn_error _)
      (logsOwn_ok (.refl w)) uploadRemoved_logsOwn
      (fun out g => logsOwn_ok (written out)) ?_ ?_ fun out g => LogsOwn.after (written out) uploadFin_logsOwn
    · intro out g _
      exact LogsOwn.after (written out) uploadRemoved_logsOwn
    · intro out g _
      exact LogsOwn.after (written out) uploadWriteFailed_logsOwn

theorem dbSaveFile_logsOwn {f : SFile} {uid : Int} : LogsOwn s.sd w (dbSaveFile ans w s f uid) (·.2) := by
  unfold dbSaveFile
  apply logsOwn_value
  intro name _
  split
  · exact logsOwn_ok (.refl w)
  dsimp only
  split
  · exact logsOwn_ok (.cons rfl (Act.mine_of rfl))
  · simp

theorem saveFile_logsOwn : LogsOwn s.sd w (saveFile ans w s) (·.1) := by
  unfold saveFile saveFileWith
  apply logsOwn_value
  intro f _
  apply logsOwn_bind dbSaveFile_logsOwn
  intro r _
  apply logsOwn_value
  intro name _
  dsimp only
  split
  · exact logsOwn_bind (logsOwn_send _) fun w' _ => logsOwn_ok (mine_clear w' s)
  · apply logsOwn_bind (logsOwn_send _)
    intro w' _
    apply logsOwn_value
    intro p _
    exact logsOwn_ok (.trans (mine_unlink ..) (mine_clear _ s))

theorem fileUploadDescription_sd {res : Bool} {t : Session} (h : fileUploadDescription ans s l = .ok (res, t)) :
    t.sd = s.sd := by
  obtain ⟨f, -, h⟩ := bind_ok.mp h
  obtain ⟨dsc, b, -, rfl⟩ := descriptionLoop_ok h
  rfl

/-- **An action** logs only what is about its own session. -/
theorem performSessionAction_logsOwn : LogsOwn s.sd w (performSessionAction P ans w s line) (·.1) := by
  unfold performSessionAction performSessionActionWith
  apply LogsOwn.after (mine_log (a := .handled s.sd s.state line) rfl)
  split
  · exact logsOwn_value fun l _ => logsOwn_bind processUserName_logsOwn fun _ _ => logsOwn_ok (.refl _)
  · exact logsOwn_value fun l _ => logsOwn_bind login_logsOwn fun _ _ => logsOwn_ok (.refl _)
  · exact logsOwn_value fun l _ => processClientCommand_logsOwn
  · exact fileDownload_logsOwn
  · exact fileUpload_logsOwn
  · apply logsOwn_value
    intro l _
    apply logsOwn_value
    rintro ⟨res, t⟩ ht
    rw [← fileUploadDescription_sd ht]
    dsimp only
    split
    · exact saveFile_logsOwn
    · exact logsOwn_ok (.refl _)
  · exact logsOwn_value fun l _ => downloadConfirm_logsOwn
  · exact logsOwn_ok (.refl _)

/-! ## One event -/

variable {v v' : Server} {e : Event} {j : Nat}

def logOf (i : Nat) (t : List Act) : List Act := t.filter fun a => a.owner == some i

theorem logOf_append (a b : List Act) : logOf i (a ++ b) = logOf i a ++ logOf i b := List.filter_append ..

theorem logOf_mine (h : Logs (Act.Mine i) w w') (hij : i ≠ j) : logOf j w'.trace = logOf j w.trace := by
  obtain ⟨ext, hext, he⟩ := h
  have : logOf j ext = [] := by
    apply List.filter_eq_nil_iff.mpr
    intro a ha hown
    exact hij (he a ha j (by simpa using hown)).symm
  unfold logOf at this ⊢
  rw [hext, List.filter_append, this, List.nil_append]

theorem makeNewSession_logsOwn {uid privileges : Int} : LogsOwn i w (makeNewSession P w i uid privileges) (·.1) := by
  unfold makeNewSession makeNewSessionWith
  exact logsOwn_say (s := .fresh i uid privileges) fun _ => rfl

/-- An event for a slot adds nothing about another one. -/
theorem Steps.logOf_eq (h : Wf v) (hs : Steps P v e v') (he : ¬ e.At j) :
    logOf j v'.world.trace = logOf j v.world.trace := by
  cases e with
  | accept sd uid privileges =>
    have hs : acceptClient P v sd uid privileges = .ok v' := hs
    unfold acceptClient acceptClientWith at hs
    split at hs
    · cases hs
    split at hs
    · cases hs
    obtain ⟨⟨w', s⟩, hm, hs⟩ := bind_ok.mp hs
    cases hs
    exact logOf_mine (i := sd) (.trans (.cons rfl (Act.mine_of rfl)) (makeNewSession_logsOwn _ hm)) he
  | acceptFailed =>
    cases hs
    rfl
  | ready i ans =>
    have hsd : ∀ {s}, v.connections i = some s → s.sd = i := h.sd
    cases step_stepped hs with
    | idle => rfl
    | transfer hc _ _ hx =>
      have := performSessionAction_logsOwn _ hx
      rw [hsd hc] at this
      exact logOf_mine this he
    | @line _ _ s bs l b w' s' hc _ _ _ _ _ _ hx =>
      have hlog : Logs (Act.Mine i) v.world w' := hsd hc ▸ performSessionAction_logsOwn _ hx
      split
      · exact logOf_mine (hlog.trans (mine_closeSession _ _ _ ((performSessionAction_did hx).sd_eq.trans (hsd hc :)))) he
      · exact logOf_mine hlog he
    | closed hc => exact logOf_mine (mine_closeSession _ _ _ (hsd hc :)) he

end

end BbsServer
