import BbsServer.WellFormed

/-!
# The memory of a session

`make_new_session` assigns neither `uid` nor `privileges`. An action does the same to two sessions that differ
only there, and leaves them so, unless it assigns both or saves a file (`performSessionAction_filled`).
-/

namespace BbsServer

open CStr

def Session.filled (s : Session) (uid privileges : Int) : Session := { s with uid, privileges }

/-- What an action gives for the session in other memory. -/
def fill {α : Type} (uid privileges : Int) (r : α × Session) : α × Session := (r.1, r.2.filled uid privileges)

def fillRet (uid privileges : Int) (r : Int × World × Session) : Int × World × Session :=
  (r.1, fill uid privileges r.2)

/-! ## Programs that differ in their results only -/

section
variable {α β γ δ : Type} {g : β → γ}

theorem bind_same {x x' : M α} {f : α → M β} {f' : α → M γ} (hx : x' = x) (hf : ∀ a, f' a = (f a).map g) :
    (x' >>= f') = (x >>= f).map g := by
  subst hx
  cases x' with
  | error => rfl
  | ok a => exact hf a

theorem bind_map {k : α → δ} {x : M α} {x' : M δ} {f : α → M β} {f' : δ → M γ} (hx : x' = x.map k)
    (hf : ∀ a, x = .ok a → f' (k a) = (f a).map g) : (x' >>= f') = (x >>= f).map g := by
  subst hx
  cases x with
  | error => rfl
  | ok a => exact hf a rfl

theorem ite_map {c : Prop} [Decidable c] {a b : M β} {a' b' : M γ} (ha : c → a' = a.map g) (hb : ¬ c → b' = b.map g) :
    (if c then a' else b') = (if c then a else b).map g := by
  by_cases hc : c
  · rw [if_pos hc, if_pos hc, ha hc]
  · rw [if_neg hc, if_neg hc, hb hc]

end

section
variable {P : Platform} {ans : Answers} {w : World} {s : Session} {l : Bytes} {u p : Int}

theorem clear_filled (w : World) (s : Session) (u p : Int) :
    clearFileFromSess w (s.filled u p) = fill u p (clearFileFromSess w s) := by
  unfold clearFileFromSess
  cases h : s.file with
  | none => simp [Session.filled, fill, h]
  | some => simp [Session.filled, fill, h, World.closeFd, World.close]

theorem say_clear_filled {ret : Int} {t : Bytes} : (do
      let w ← sessionSendString w (s.filled u p) t
      let (w, s) := clearFileFromSess w (s.filled u p)
      .ok (ret, w, s) : M (Int × World × Session)) = (do
      let w ← sessionSendString w s t
      let (w, s) := clearFileFromSess w s
      .ok (ret, w, s) : M (Int × World × Session)).map (fillRet u p) := by
  refine bind_same rfl fun w => ?_
  rw [clear_filled]
  rfl

/-! ## Before the login -/

theorem createUser_filled (hst : s.state = .opLoginUsr) : createUser P ans w (s.filled u p) l =
    (createUser P ans w s l).map fun r => if r.2.2.state = .opWait then r else fillRet u p r := by
  have hkept : ∀ {w : World} {ret : Int}, (.ok (ret, w, s.filled u p) : M (Int × World × Session)) =
      (.ok (ret, w, s) : M (Int × World × Session)).map fun r =>
        if r.2.2.state = .opWait then r else fillRet u p r := by
    intro w ret
    simp [Except.map, hst, fillRet, fill]
  unfold createUser createUserWith
  refine bind_same rfl fun a => ?_
  cases a with
  | none => exact hkept
  | some a =>
    refine bind_same rfl fun r => ite_map (fun _ => bind_same rfl fun w => rfl) fun _ => ?_
    refine ite_map (fun _ => bind_same rfl fun w => hkept) fun _ => ?_
    exact ite_map (fun _ => bind_same rfl fun w => hkept) fun _ => bind_same rfl fun w => hkept

theorem processUserName_filled (hst : s.state = .opLoginUsr) : processUserName P ans w (s.filled u p) l =
    (processUserName P ans w s l).map fun r => if isRegister l ∧ r.2.2.state = .opWait then r else fillRet u p r := by
  unfold processUserName processUserNameWith
  refine ite_map (fun _ => bind_same rfl fun w => by simp [Except.map, fillRet, fill, Session.filled]) fun _ => ?_
  refine ite_map (fun hr => ?_) fun hr => ?_
  · simp only [hr, true_and]
    exact createUser_filled hst
  have hkept : ∀ {w : World} {ret : Int} {t : Session}, (.ok (ret, w, t.filled u p) : M (Int × World × Session)) =
      (.ok (ret, w, t) : M (Int × World × Session)).map
        fun r => if isRegister l ∧ r.2.2.state = .opWait then r else fillRet u p r := by
    intro w ret t
    simp [Except.map, hr, fillRet, fill]
  refine ite_map (fun _ => bind_same rfl fun w => ?_) fun _ => bind_same rfl fun w => ?_
  · exact hkept (t := { s with uname := some (ascii "anonymous"), state := .opWait })
  · exact hkept (t := { s with uname := some l, state := .opLoginPss })

theorem login_filled : login P ans w (s.filled u p) l =
    (login P ans w s l).map fun r => if r.2.2.state = .opWait then r else fillRet u p r := by
  unfold login loginWith
  rw [tables_dbUserAuth, ok_bind]
  refine ite_map (fun _ => bind_same rfl fun a => bind_same rfl fun w => rfl) fun _ => bind_same rfl fun w => rfl

/-! ## Commands -/

theorem sendFound_filled {sf : SFile} : sendFound ans w (s.filled u p) sf =
    (sendFound ans w s sf).map (fillRet u p) := by
  unfold sendFound sendFoundWith
  cases ans.opened with
  | none => rfl
  | some d => exact bind_same rfl fun w => ite_map (fun _ => rfl) fun _ => rfl

theorem fileSendPrepare_filled : fileSendPrepare ans w (s.filled u p) l =
    (fileSendPrepare ans w s l).map (fillRet u p) := by
  unfold fileSendPrepare fileSendPrepareWith
  cases strchr l 91 with
  | none => exact say_clear_filled
  | some b =>
  dsimp only
  cases strrchr l 93 with
  | none => exact say_clear_filled
  | some e =>
  refine ite_map (fun _ => say_clear_filled) fun _ => ite_map (fun _ => rfl) fun _ => ?_
  cases dbGetFile ans w { id := 0, userId := 0, name := (l.drop (b + 1)).take (e - (b + 1)) } with
  | none => rfl
  | some sf => exact sendFound_filled

theorem probeNames_filled {name : Bytes} {size : Nat} : ∀ {probes : List Probe} {seed : Int} {w : World},
    probeNames w (s.filled u p) name size seed probes = probeNames w s name size seed probes
  | [], _, _ => rfl
  | q :: probes, seed, w => by
    unfold probeNames
    cases q.opened with
    | eexist =>
      have ih : ∀ seed w, probeNames w (s.filled u p) name size seed probes = probeNames w s name size seed probes :=
        fun _ _ => probeNames_filled
      simp only [ih]
    | failed | fd => rfl

theorem fileReceivePrepare_filled :
    fileReceivePrepare ans w (s.filled u p) l = (fileReceivePrepare ans w s l).map (fillRet u p) := by
  unfold fileReceivePrepare fileReceivePrepareWith
  cases strchr l 34 with
  | none => exact say_clear_filled
  | some b =>
  dsimp only
  cases strrchr (l.drop (b + 1)) 34 with
  | none => exact say_clear_filled
  | some n =>
  refine ite_map (fun _ => say_clear_filled) fun _ => ?_
  refine ite_map (fun _ => bind_same rfl fun w => rfl) fun _ =>
    ite_map (fun _ => bind_same rfl fun w => rfl) fun _ => ?_
  refine bind_same (probeNames_filled (s := { s with file := some _ })) fun r => ?_
  obtain ⟨r, w⟩ := r
  cases r with
  | noDir | noFile => exact bind_same rfl fun w => rfl
  | created => rfl

theorem clientExit_filled : clientExit w (s.filled u p) l = (clientExit w s l).map (fill u p) := by
  unfold clientExit clientExitWith
  exact ite_map (fun _ => bind_same rfl fun w => rfl) fun _ => rfl

theorem processClientCommand_filled :
    processClientCommand P ans w (s.filled u p) l = (processClientCommand P ans w s l).map (fill u p) := by
  unfold processClientCommand processClientCommandWith
  refine bind_same rfl fun r => ite_map (fun _ => ?_) fun _ => clientExit_filled
  refine ite_map (fun _ => bind_same rfl fun w => rfl) fun _ =>
    ite_map (fun _ => bind_same rfl fun w => rfl) fun _ => ?_
  refine ite_map (fun _ => bind_map fileReceivePrepare_filled fun r _ => ?_) fun _ => ?_
  · by_cases h : r.1 = 0 <;> simp [Except.map, fillRet, fill, h, Session.filled]
  refine ite_map (fun _ => bind_map fileSendPrepare_filled fun r _ => ?_) fun _ => ?_
  · by_cases h : r.1 = 0 <;> simp [Except.map, fillRet, fill, h, Session.filled]
  exact ite_map (fun _ => bind_same rfl fun w => rfl) fun _ => clientExit_filled

theorem downloadConfirm_filled : downloadConfirm w (s.filled u p) l = (downloadConfirm w s l).map (fill u p) := by
  unfold downloadConfirm
  refine ite_map (fun _ => bind_same rfl fun f => rfl) fun _ =>
    ite_map (fun _ => bind_same rfl fun f => ?_) fun _ => rfl
  rw [clear_filled]
  rfl

/-! ## Transfers -/

theorem fileDownload_filled : fileDownload ans w (s.filled u p) = (fileDownload ans w s).map (fill u p) := by
  unfold fileDownload
  refine bind_same rfl fun f => ite_map (fun _ => rfl) fun _ => ite_map (fun _ => rfl) fun _ => ?_
  refine ite_map (fun _ => ite_map (fun _ => ?_) fun _ => rfl) fun _ => ?_
  · rw [clear_filled]
    rfl
  cases ans.write1.accepted (sizeT (readLength ans.read)) with
  | none =>
    have h := clear_filled w { s with state := .err } u p
    simp only [Session.filled] at h ⊢
    rw [h]
    rfl
  | some n => exact ite_map (fun _ => rfl) fun _ => ite_map (fun _ => rfl) fun _ => rfl

theorem uploadRemoved_filled {f : SFile} : uploadRemoved w (s.filled u p) f =
    (uploadRemoved w s f).map (fill u p) := by
  unfold uploadRemoved
  refine bind_same rfl fun q => ?_
  rw [clear_filled]
  rfl

theorem uploadWriteFailed_filled {f : SFile} :
    uploadWriteFailed ans w (s.filled u p) f = (uploadWriteFailed ans w s f).map (fill u p) := by
  unfold uploadWriteFailed uploadWriteFailedWith
  refine bind_same rfl fun w => bind_same rfl fun q => ?_
  rw [clear_filled]
  rfl

theorem uploadFin_filled {f : SFile} : uploadFin w (s.filled u p) f = (uploadFin w s f).map (fill u p) := by
  unfold uploadFin uploadFinWith
  exact ite_map (fun _ => bind_same rfl fun w => rfl) fun _ => rfl

theorem fileUpload_filled : fileUpload ans w (s.filled u p) = (fileUpload ans w s).map (fill u p) := by
  unfold fileUpload fileUploadWith
  refine bind_same rfl fun f => ite_map (fun _ => rfl) fun _ => ?_
  refine ite_map (fun _ => ite_map (fun _ => uploadRemoved_filled) fun _ => rfl) fun _ =>
    ite_map (fun _ => ?_) fun _ => ?_
  · cases ans.write1.accepted f.packageRest with
    | none => exact uploadWriteFailed_filled
    | some n =>
    refine ite_map (fun _ => rfl) fun _ => ite_map (fun _ => uploadFin_filled) fun _ => ?_
    refine ite_map (fun _ => ite_map (fun _ => ?_) fun _ => uploadFin_filled) fun _ => ?_
    · dsimp only
      generalize ans.write2.accepted _ = a
      cases a with
      | none => exact uploadWriteFailed_filled
      | some => exact uploadFin_filled
    · exact ite_map (fun _ => uploadRemoved_filled) fun _ => uploadFin_filled
  · cases ans.write1.accepted (sizeT (readLength ans.read)) with
    | none => exact uploadWriteFailed_filled
    | some => exact uploadFin_filled

/-! ## Descriptions -/

theorem queryExtractFromBuf_filled : queryExtractFromBuf ans (s.filled u p) =
    fill u p (queryExtractFromBuf ans s) := by
  unfold queryExtractFromBuf
  rw [show (s.filled u p).buf = s.buf from rfl]
  cases queryExtractFromBuf2 (ans.below s.buf.length) s.buf with
  | none => rfl
  | some => rfl

theorem descriptionLoop_filled : ∀ {n : Nat} {s : Session} {f : SFile} {line : Option Bytes},
    descriptionLoop ans n (s.filled u p) f line = (descriptionLoop ans n s f line).map (fill u p)
  | 0, _, _, line => by cases line <;> rfl
  | n + 1, s, f, some line =>
    ite_map (fun _ => ite_map (fun _ => rfl) fun _ => rfl) fun _ => descriptionLoop_filled
  | n + 1, s, f, none => by
    unfold descriptionLoop
    refine ite_map (fun _ => rfl) fun _ => ite_map (fun _ => rfl) fun _ => ?_
    rw [queryExtractFromBuf_filled]
    exact descriptionLoop_filled

theorem fileUploadDescription_filled :
    fileUploadDescription ans (s.filled u p) l = (fileUploadDescription ans s l).map (fill u p) := by
  unfold fileUploadDescription
  exact bind_same rfl fun f => descriptionLoop_filled

/-- The row has the `uid` of the session, unless the database refuses it. -/
theorem dbSaveFile_filled {sf : SFile} (h : ans.insert = none ∨ u = s.uid) :
    dbSaveFile ans w (s.filled u p) sf u = dbSaveFile ans w s sf s.uid := by
  rcases h with h | rfl
  · unfold dbSaveFile
    rw [h]
  · rfl

theorem saveFile_filled (h : ans.insert = none ∨ u = s.uid) :
    saveFile ans w (s.filled u p) = (saveFile ans w s).map (fill u p) := by
  unfold saveFile saveFileWith
  refine bind_same rfl fun f => bind_same (dbSaveFile_filled h) fun r => bind_same rfl fun name => ?_
  have hend : ∀ w : World, (.ok ((clearFileFromSess w (s.filled u p)).1,
      { (clearFileFromSess w (s.filled u p)).2 with state := .opWait }) : M (World × Session)) =
      (.ok ((clearFileFromSess w s).1, { (clearFileFromSess w s).2 with state := .opWait }) : M (World × Session)).map
        (fill u p) := by
    intro w
    rw [clear_filled]
    rfl
  exact ite_map (fun _ => bind_same rfl hend) fun _ => bind_same rfl fun w => bind_same rfl fun q => hend _

/-! ## One action -/

def Session.assigns (s : Session) (line : Option Bytes) (t : Session) : Prop :=
  t.state = .opWait ∧ (s.state = .opLoginPss ∨ s.state = .opLoginUsr ∧ ∃ l ∈ line, isRegister l)

def Saves (ans : Answers) (s : Session) (l : Bytes) : Prop :=
  s.state = .opUploadDescription ∧ EndsDescription ans s l ∧ ans.insert ≠ none

theorem Saves.filled (h : Saves ans s l) (u p : Int) : Saves ans (s.filled u p) l := by
  refine ⟨h.1, ?_, h.2.2⟩
  have hends := h.2.1
  unfold EndsDescription at hends ⊢
  rw [fileUploadDescription_filled]
  cases hd : fileUploadDescription ans s l with
  | error => rw [hd] at hends; cases hends
  | ok => rw [hd] at hends; exact hends

theorem performSessionAction_map {line : Option Bytes} (h1 : s.state ≠ .opLoginUsr) (h2 : s.state ≠ .opLoginPss)
    (hsave : ∀ l, line = some l → Saves ans s l → u = s.uid) :
    performSessionAction P ans w (s.filled u p) line = (performSessionAction P ans w s line).map (fill u p) := by
  unfold performSessionAction performSessionActionWith
  rw [show (s.filled u p).state = s.state from rfl]
  cases hst : s.state with
  | opLoginUsr => exact absurd hst h1
  | opLoginPss => exact absurd hst h2
  | opWait => exact bind_same rfl fun l => processClientCommand_filled
  | opDownload => exact fileDownload_filled
  | opUpload => exact fileUpload_filled
  | opDownloadWaitConfirmPackage => exact bind_same rfl fun l => downloadConfirm_filled
  | opUploadDescription =>
    cases line with
    | none => rfl
    | some l =>
      simp only [deref, ok_bind]
      refine bind_map fileUploadDescription_filled fun r hr => ?_
      obtain ⟨res, t⟩ := r
      cases res with
      | false => rfl
      | true =>
        have huid : t.uid = s.uid := by
          obtain ⟨f, -, h⟩ := bind_ok.mp hr
          obtain ⟨dsc, b, -, rfl⟩ := descriptionLoop_ok h
          rfl
        refine saveFile_filled ?_
        by_cases hi : ans.insert = none
        · exact .inl hi
        · exact .inr ((hsave l rfl ⟨hst, by simp [EndsDescription, hr, Except.toOption], hi⟩).trans huid.symm)
  | _ => rfl

/-- **One action** in other memory. -/
theorem performSessionAction_filled {w' : World} {t : Session} {line : Option Bytes}
    (h : performSessionAction P ans w s line = .ok (w', t)) (hsave : ∀ l, line = some l → Saves ans s l → u = s.uid) :
    (s.assigns line t ∧ performSessionAction P ans w (s.filled u p) line = .ok (w', t)) ∨
      (¬ s.assigns line t ∧ performSessionAction P ans w (s.filled u p) line = .ok (w', t.filled u p)) := by
  by_cases h1 : s.state = .opLoginUsr
  · cases line with
    | none =>
      simp only [performSessionAction, performSessionActionWith, h1] at h
      cases h
    | some l =>
    obtain ⟨ret, hp⟩ := (performSessionAction_name h1).mp h
    have hx : processUserName P ans (w.log (.handled s.sd s.state (some l))) (s.filled u p) l = _ :=
      processUserName_filled h1
    rw [hp] at hx
    by_cases ha : isRegister l ∧ t.state = .opWait
    · exact .inl ⟨⟨ha.2, .inr ⟨h1, l, rfl, ha.1⟩⟩,
        (performSessionAction_name (s := s.filled u p) h1).mpr ⟨ret, hx.trans (by simp [Except.map, ha])⟩⟩
    · refine .inr ⟨fun hs => ?_, (performSessionAction_name (s := s.filled u p) h1).mpr
        ⟨ret, hx.trans (by simp [Except.map, ha, fillRet, fill])⟩⟩
      obtain ⟨ht, hp | ⟨-, l', hl, hr⟩⟩ := hs
      · rw [h1] at hp
        cases hp
      · cases hl
        exact ha ⟨hr, ht⟩
  by_cases h2 : s.state = .opLoginPss
  · cases line with
    | none =>
      simp only [performSessionAction, performSessionActionWith, h2] at h
      cases h
    | some l =>
    obtain ⟨ret, hp⟩ := (performSessionAction_password h2).mp h
    have hx : login P ans (w.log (.handled s.sd s.state (some l))) (s.filled u p) l = _ := login_filled
    rw [hp] at hx
    by_cases ha : t.state = .opWait
    · exact .inl ⟨⟨ha, .inl h2⟩,
        (performSessionAction_password (s := s.filled u p) h2).mpr ⟨ret, hx.trans (by simp [Except.map, ha])⟩⟩
    · exact .inr ⟨fun hs => ha hs.1, (performSessionAction_password (s := s.filled u p) h2).mpr
        ⟨ret, hx.trans (by simp [Except.map, ha, fillRet, fill])⟩⟩
  refine .inr ⟨fun ha => ?_, ?_⟩
  · rcases ha.2 with hp | ⟨hu, -⟩
    · exact h2 hp
    · exact h1 hu
  · rw [performSessionAction_map h1 h2 hsave, h]
    rfl

/-! ## One event -/

theorem sessionDoRead_filled : sessionDoRead ans w (s.filled u p) =
    (sessionDoRead ans w s).map fun r => (r.1, r.2.1, fill u p r.2.2) := by
  unfold sessionDoRead sessionDoReadWith
  cases ans.read with
  | none => rfl
  | some bs =>
  cases bs with
  | nil => rfl
  | cons c bs =>
  refine ite_map (fun _ => rfl) fun _ => ?_
  have hq : queryExtractFromBuf ans (Session.filled { s with buf := s.buf ++ c :: bs } u p) = _ :=
    queryExtractFromBuf_filled
  simp only [Session.filled] at hq ⊢
  rw [hq]
  generalize queryExtractFromBuf ans { s with buf := s.buf ++ c :: bs } = r
  obtain ⟨line, t⟩ := r
  cases line with
  | none => rfl
  | some line => exact ite_map (fun _ => bind_same rfl fun w => rfl) fun _ => ite_map (fun _ => rfl) fun _ => rfl

theorem sessionDoRead_line {b : Bytes} {r : Bool × Option Bytes × World × Session} (hl : lineOf ans s = some (l, b))
    (hst : s.state ≠ .fin) (h : sessionDoRead ans w s = .ok r) : r = (true, some l, w, { s with buf := b }) := by
  obtain ⟨res, line, w', t⟩ := r
  rcases sessionDoRead_cases h with ⟨-, -, -, hend⟩ | ⟨bs, l', b', hr, hne, -, rfl, rfl, hq, rfl, hres⟩
  · rw [lineOf_end hend] at hl
    cases hl
  · rw [lineOf_eq hr hne, hq] at hl
    cases hl
    rw [hres.mpr hst]

theorem closeSession_filled (w : World) (s : Session) (i : Nat) :
    closeSession w (s.filled u p) i = closeSession w s i := by
  unfold closeSession
  rw [clear_filled]
  rfl

theorem makeNewSession_filled {sd : Nat} {uid privileges : Int} : makeNewSession P w sd u p =
    (makeNewSession P w sd uid privileges).map (fill u p) := by
  unfold makeNewSession makeNewSessionWith
  exact bind_same rfl fun w => rfl

/-- What serving a session in other memory leaves in its slot. -/
inductive Served (P : Platform) (ans : Answers) (w : World) (s : Session) (u p : Int) : World → Option Session →
    Option Session → Prop
  | gone {w'} : Served P ans w s u p w' none none
  | idle : Served P ans w s u p w (some s) (some (s.filled u p))
  | assigned {line b w' t} : performSessionAction P ans w { s with buf := b } line = .ok (w', t) → s.assigns line t →
    Served P ans w s u p w' (some t) (some t)
  | kept {line b w' t} : performSessionAction P ans w { s with buf := b } line = .ok (w', t) → ¬ s.assigns line t →
    (t.state = .err → s.state = .opUpload ∨ s.state = .opDownload) →
      Served P ans w s u p w' (some t) (some (t.filled u p))

theorem serveSession_filled {v v' v₁ : Server} {i : Nat} (h : serveSession P ans v i s = .ok v₁)
    (hc : v.connections i = some s) (hc' : v'.connections i = some (s.filled u p)) (hw : v'.world = v.world)
    (hsave : ∀ r ∈ lineOf ans s, Saves ans { s with buf := r.2 } r.1 → u = s.uid) :
    ∃ w₁ x x', v₁ = v.set i w₁ x ∧ serveSession P ans v' i (s.filled u p) = .ok (v'.set i w₁ x') ∧
      Served P ans v.world s u p w₁ x x' := by
  unfold serveSession serveSessionWith at h ⊢
  rw [show (s.filled u p).state = s.state from rfl, show (s.filled u p).fd = s.fd from rfl, hw]
  by_cases hst : s.state = .opUpload ∨ s.state = .opDownload
  · rw [if_pos hst] at h ⊢
    by_cases hfd : s.fd.isSome
    · rw [if_pos hfd] at h ⊢
      obtain ⟨⟨w₁, t⟩, hx, h⟩ := bind_ok.mp h
      cases h
      rcases performSessionAction_filled (u := u) (p := p) hx (fun l hl => by cases hl) with ⟨ha, hx'⟩ | ⟨ha, hx'⟩
      · exact ⟨w₁, _, _, rfl, (congrArg (· >>= _) hx').trans rfl, .assigned (b := s.buf) hx ha⟩
      · exact ⟨w₁, _, _, rfl, (congrArg (· >>= _) hx').trans rfl, .kept (b := s.buf) hx ha fun _ => hst⟩
    · rw [if_neg hfd] at h ⊢
      cases h
      exact ⟨v.world, some s, some (s.filled u p), by simp [Server.set, ← hc],
        by simp [Server.set, ← hc', ← hw], .idle⟩
  · rw [if_neg hst] at h ⊢
    obtain ⟨⟨res, line, w₁, t⟩, hread, h⟩ := bind_ok.mp h
    have hclosed : ∀ w : World, v'.set i (closeSession w (t.filled u p) i) none =
      v'.set i (closeSession w t i) none :=
      fun w => by rw [closeSession_filled]
    have hread' : sessionDoReadWith sessionSendString ans v.world (s.filled u p) =
      .ok (res, line, w₁, t.filled u p) :=
      sessionDoRead_filled.trans (congrArg (Except.map _) hread)
    rw [hread', ok_bind]
    rcases sessionDoRead_cases hread with ⟨rfl, -⟩ | ⟨bs, l, b, hr, hne, -, rfl, rfl, hq, rfl, hres⟩
    · cases h
      exact ⟨_, none, none, rfl, congrArg Except.ok (hclosed _), .gone⟩
    cases res with
    | false =>
      cases h
      exact ⟨_, none, none, rfl, congrArg Except.ok (hclosed _), .gone⟩
    | true =>
      simp only [if_true] at h
      obtain ⟨⟨w₁, t⟩, hx, h⟩ := bind_ok.mp h
      have hsave' : ∀ l', some l = some l' → Saves ans { s with buf := b } l' → u = s.uid := by
        intro l' hl hs
        cases hl
        exact hsave (l, b) ((lineOf_eq hr hne).trans hq) hs
      rcases performSessionAction_filled (u := u) (p := p) hx hsave' with ⟨ha, hx'⟩ | ⟨ha, hx'⟩
      · have herr : t.state ≠ .err := by simp [ha.1]
        rw [if_neg herr] at h
        cases h
        refine ⟨w₁, some t, some t, rfl, ?_, .assigned hx ha⟩
        change (performSessionAction P ans v.world (Session.filled { s with buf := b } u p) (some l) >>= _) = _
        rw [hx']
        exact if_neg herr
      · by_cases herr : t.state = .err
        · rw [if_pos herr] at h
          cases h
          refine ⟨_, none, none, rfl, ?_, .gone⟩
          change (performSessionAction P ans v.world (Session.filled { s with buf := b } u p) (some l) >>= _) = _
          rw [hx', ← closeSession_filled (u := u) (p := p) w₁ t i]
          exact if_pos herr
        · rw [if_neg herr] at h
          cases h
          refine ⟨w₁, some t, some (t.filled u p), rfl, ?_, .kept hx ha fun he => absurd he herr⟩
          change (performSessionAction P ans v.world (Session.filled { s with buf := b } u p) (some l) >>= _) = _
          rw [hx']
          exact if_neg herr

end

end BbsServer
