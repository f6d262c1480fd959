import BbsServer.DidLogin
import BbsServer.DidPrepare
import BbsServer.DidTransfer

/-!
# What one event can do

The end of an upload, the commands and the dispatch, with the handlers before: `performSessionAction_did` and
`step_stepped`.
-/

namespace BbsServer

open CStr Function

section
variable {P : Platform} {ans : Answers} {w w' : World} {s s' : Session} {l : Bytes}

/-! ## Description -/

theorem descriptionLoop_ok {res : Bool} : ∀ {fuel : Nat} {s : Session} {f : SFile} {line : Option Bytes},
    descriptionLoop ans fuel s f line = .ok (res, s') →
    ∃ dsc b, b <:+ s.buf ∧ s' = { s with file := some { f with description := dsc }, buf := b }
  | 0, s, f, line, h => by
    simp only [descriptionLoop] at h
    cases h
    exact ⟨f.description, s.buf, List.suffix_refl _, rfl⟩
  | fuel + 1, s, f, some line, h => by
    simp only [descriptionLoop] at h
    split at h
    · split at h
      · cases h
      · cases h; exact ⟨_, s.buf, List.suffix_refl _, rfl⟩
    · obtain ⟨dsc, b, hb, rfl⟩ := descriptionLoop_ok h
      exact ⟨dsc, b, hb, rfl⟩
  | fuel + 1, s, f, none, h => by
    simp only [descriptionLoop] at h
    split at h
    · cases h; exact ⟨f.description, s.buf, List.suffix_refl _, rfl⟩
    rename_i hb
    split at h
    · cases h
    obtain ⟨line, b, hq2, hq, -⟩ := queryExtractFromBuf_ok ans hb
    rw [hq] at h
    obtain ⟨dsc, b', hb', rfl⟩ := descriptionLoop_ok h
    exact ⟨dsc, b', hb'.trans (queryExtractFromBuf2_suffix hq2), rfl⟩

theorem saveFile_did {f : SFile} {dsc : Option Bytes} {b : Bytes}
    (hst : s.state = .opUploadDescription) (he : EndsDescription ans s l) (hf : s.file = some f) (hb : b <:+ s.buf)
    (hd : describedAs ans s l = dsc)
    (h : saveFile ans w { s with file := some { f with description := dsc }, buf := b } = .ok (w', s')) :
    Did P ans w s (some l) w' s' := by
  unfold saveFile saveFileWith at h
  obtain ⟨f', hf', h⟩ := bind_ok.mp h
  rw [deref_ok] at hf'
  cases hf'
  obtain ⟨⟨id, w₁⟩, hs, h⟩ := bind_ok.mp h
  obtain ⟨name, hn, h⟩ := bind_ok.mp h
  rw [deref_ok] at hn
  unfold dbSaveFile at hs
  obtain ⟨name', hn', hs⟩ := bind_ok.mp hs
  rw [deref_ok] at hn'
  obtain rfl : name = name' := Option.some.inj (hn.symm.trans hn')
  cases hi : ans.insert with
  | none =>
    simp only [hi] at hs
    cases hs
    rw [if_pos (show (-1 : Int) ≠ 0 by decide)] at h
    obtain ⟨w₂, ht, h⟩ := bind_ok.mp h
    cases h
    obtain ⟨rfl, -⟩ := sessionSendString_ok ht
    exact .notSaved hst rfl he hf hb hn hi
  | some id' =>
    simp only [hi] at hs
    split at hs
    · rename_i files hfiles
      cases hs
      have hpos := (FileTable.insert_rows hfiles).2
      dsimp only at hpos
      rw [if_pos (by omega)] at h
      obtain ⟨w₂, ht, h⟩ := bind_ok.mp h
      cases h
      obtain ⟨rfl, -⟩ := sessionSendString_ok ht
      exact .saved hst rfl he hf hb hn hi rfl hfiles (by rw [hd])
    · cases hs

/-! ## Commands and the dispatch -/

theorem fileSearch_talks (h : fileSearch w s l = .ok w') : Talks w w' := by
  unfold fileSearch fileSearchWith at h
  split at h
  · exact sessionSendString_talks h
  · split at h
    · cases h
    · split at h
      · exact sessionSendString_talks h
      · cases h

theorem fileList_talks {args : FileListArgs} (h : fileList P ans w s args = .ok w') : Talks w w' := by
  unfold fileList fileListWith at h
  rw [tables_dbGetFilesData, ok_bind] at h
  by_cases hl : args.limit = 0
  · rw [if_pos hl] at h; cases h
  rw [if_neg hl] at h
  by_cases he : (dbGetFilesData P ans [] w (fileListQuery args)).1 = []
  · rw [if_pos he] at h; cases h; exact .log rfl
  · rw [if_neg he] at h
    obtain ⟨u, -, h⟩ := bind_ok.mp h
    split at h
    · cases h; exact writeTexts_talks
    · cases h

theorem clientExit_did (hst : s.state = .opWait) (hq : isExit l = false → Quiet ans w s (some l))
    (h : clientExit w s l = .ok (w', s')) : Did P ans w s (some l) w' s' := by
  unfold clientExit clientExitWith at h
  split at h
  · rename_i hx
    obtain ⟨w₁, ht, h⟩ := bind_ok.mp h
    cases h
    exact .left (.inr hst) rfl hx (sessionSendString_talks ht)
  · rename_i hx
    cases h
    exact .talked (by simp [hst]) (by simp [hst]) (by simp [hst]) (hq (by simpa using hx)) (.refl w)

theorem processClientCommand_did (hst : s.state = .opWait) (h : processClientCommand P ans w s l = .ok (w', s')) :
    Did P ans w s (some l) w' s' := by
  unfold processClientCommand processClientCommandWith at h
  obtain ⟨⟨ret, arg1, arg2⟩, hargs, h⟩ := bind_ok.mp h
  dsimp only at h
  have talked : ∀ {w₁}, Quiet ans w s (some l) → Talks w w₁ → Did P ans w s (some l) w₁ s := fun hq ht =>
    .talked (by simp [hst]) (by simp [hst]) (by simp [hst]) hq ht
  -- a line with another command prepares nothing
  have hq : ∀ {cmd}, fileCommand ans l = cmd → cmd ≠ some (ascii "download") → cmd ≠ some (ascii "upload") →
      isExit l = false → Quiet ans w s (some l) := by
    rintro cmd rfl hd hu hx
    exact quiet_of_command hx hd hu
  by_cases h1 : arg1 = ascii "file"
  swap
  · rw [if_neg h1] at h
    exact clientExit_did hst (hq (show _ = none by simp [fileCommand, hargs, h1]) (by simp) (by simp)) h
  have hx : isExit l = false := Bool.eq_false_iff.mpr fun hx => isExit_args hx hargs h1
  rw [if_pos h1] at h
  by_cases h2 : ret = 1
  · rw [if_pos h2] at h
    obtain ⟨w₁, ht, h⟩ := bind_ok.mp h
    cases h
    exact talked (hq (show _ = none by simp [fileCommand, hargs, h2]) (by simp) (by simp) hx)
      (sessionSendString_talks ht)
  rw [if_neg h2] at h
  have hcmd : fileCommand ans l = some arg2 := by simp [fileCommand, hargs, h1, h2]
  by_cases h3 : arg2 = ascii "list"
  · rw [if_pos h3] at h
    obtain ⟨w₁, ht, h⟩ := bind_ok.mp h
    cases h
    exact talked (hq hcmd (by rw [h3]; decide) (by rw [h3]; decide) hx) (fileList_talks ht)
  rw [if_neg h3] at h
  by_cases h4 : arg2 = ascii "upload"
  · rw [if_pos h4] at h
    obtain ⟨⟨res, w₁, s₁⟩, ht, h⟩ := bind_ok.mp h
    cases h
    refine fileReceivePrepare_did hst (fun l' hl => ?_) ht
    cases hl
    exact ⟨rfl, by rw [hcmd, h4]⟩
  rw [if_neg h4] at h
  by_cases h5 : arg2 = ascii "download"
  · rw [if_pos h5] at h
    obtain ⟨⟨res, w₁, s₁⟩, ht, h⟩ := bind_ok.mp h
    cases h
    exact fileSendPrepare_did hst (by rw [hcmd, h5]) ht
  rw [if_neg h5] at h
  by_cases h6 : arg2 = ascii "search"
  · rw [if_pos h6] at h
    obtain ⟨w₁, ht, h⟩ := bind_ok.mp h
    cases h
    exact talked (hq hcmd (by rw [h6]; decide) (by rw [h6]; decide) hx) (fileSearch_talks ht)
  · rw [if_neg h6] at h
    exact clientExit_did hst (hq hcmd (by simpa using h5) (by simpa using h4)) h

/-- **What one action can do.** -/
theorem performSessionAction_did {line : Option Bytes} (h : performSessionAction P ans w s line = .ok (w', s')) :
    Did P ans (w.log (.handled s.sd s.state line)) s line w' s' := by
  unfold performSessionAction performSessionActionWith at h
  generalize w.log (.handled s.sd s.state line) = w₁ at h ⊢
  cases hst : s.state with
  | opLoginUsr =>
    simp only [hst] at h
    obtain ⟨l, hl, h⟩ := bind_ok.mp h
    obtain ⟨⟨ret, w₂, s₂⟩, hp, h⟩ := bind_ok.mp h
    cases h
    rw [deref_ok.mp hl]
    exact processUserName_did hst hp
  | opLoginPss =>
    simp only [hst] at h
    obtain ⟨l, hl, h⟩ := bind_ok.mp h
    obtain ⟨⟨ret, w₂, s₂⟩, hp, h⟩ := bind_ok.mp h
    cases h
    rw [deref_ok.mp hl]
    exact login_did hst hp
  | opWait =>
    simp only [hst] at h
    obtain ⟨l, hl, h⟩ := bind_ok.mp h
    rw [deref_ok.mp hl]
    exact processClientCommand_did hst h
  | opDownload =>
    simp only [hst] at h
    exact fileDownload_did hst h
  | opUpload =>
    simp only [hst] at h
    exact fileUpload_did hst h
  | opUploadDescription =>
    simp only [hst] at h
    obtain ⟨l, hl, h⟩ := bind_ok.mp h
    obtain ⟨⟨res, s₂⟩, hd, h⟩ := bind_ok.mp h
    have he : EndsDescription ans s l ↔ res = true := by simp [EndsDescription, hd, Except.toOption]
    have hdsc : describedAs ans s l = s₂.file.bind (·.description) := by simp [describedAs, hd, Except.toOption]
    unfold fileUploadDescription at hd
    obtain ⟨f, hf, hd⟩ := bind_ok.mp hd
    rw [deref_ok] at hf
    obtain ⟨dsc, b, hb, rfl⟩ := descriptionLoop_ok hd
    rw [deref_ok.mp hl]
    cases res with
    | true => exact saveFile_did hst (he.mpr rfl) hf hb hdsc h
    | false => cases h; exact .described hst rfl (fun h => by simpa using he.mp h) hf hb
  | opDownloadWaitConfirmPackage =>
    simp only [hst] at h
    obtain ⟨l, hl, h⟩ := bind_ok.mp h
    exact downloadConfirm_did hst h
  | _ =>
    simp only [hst] at h
    cases h
    exact .talked (by simp [hst]) (by simp [hst]) (by simp [hst])
      (quiet_of_state (by simp [hst]) (by simp [hst])) (.refl _)

/-! The handlers of a line. -/

theorem performSessionAction_name (hst : s.state = .opLoginUsr) :
    performSessionAction P ans w s (some l) = .ok (w', s') ↔
    ∃ ret, processUserName P ans (w.log (.handled s.sd s.state (some l))) s l = .ok (ret, w', s') := by
  unfold performSessionAction performSessionActionWith
  simp only [hst, deref, ok_bind, bind_ok]
  constructor
  · rintro ⟨⟨ret, _, _⟩, h, he⟩
    cases he
    exact ⟨ret, h⟩
  · rintro ⟨ret, h⟩
    exact ⟨(ret, w', s'), h, rfl⟩

theorem performSessionAction_password (hst : s.state = .opLoginPss) :
    performSessionAction P ans w s (some l) = .ok (w', s') ↔
    ∃ ret, login P ans (w.log (.handled s.sd s.state (some l))) s l = .ok (ret, w', s') := by
  unfold performSessionAction performSessionActionWith
  simp only [hst, deref, ok_bind, bind_ok]
  constructor
  · rintro ⟨⟨ret, _, _⟩, h, he⟩
    cases he
    exact ⟨ret, h⟩
  · rintro ⟨ret, h⟩
    exact ⟨(ret, w', s'), h, rfl⟩

theorem performSessionAction_command (hst : s.state = .opWait) : performSessionAction P ans w s (some l) =
    processClientCommand P ans (w.log (.handled s.sd s.state (some l))) s l := by
  unfold performSessionAction performSessionActionWith
  simp only [hst, deref, ok_bind]

theorem performSessionAction_confirm (hst : s.state = .opDownloadWaitConfirmPackage) :
    performSessionAction P ans w s (some l) = downloadConfirm (w.log (.handled s.sd s.state (some l))) s l := by
  unfold performSessionAction performSessionActionWith
  simp only [hst, deref, ok_bind]

/-! The handlers of a transfer step. -/

section
variable {line : Option Bytes}

theorem performSessionAction_upload (hst : s.state = .opUpload) : performSessionAction P ans w s line =
    fileUpload ans (w.log (.handled s.sd s.state line)) s := by
  unfold performSessionAction performSessionActionWith
  simp only [hst]

theorem performSessionAction_download (hst : s.state = .opDownload) : performSessionAction P ans w s line =
    fileDownload ans (w.log (.handled s.sd s.state line)) s := by
  unfold performSessionAction performSessionActionWith
  simp only [hst]

end

theorem performSessionAction_send (hst : s.state = .opWait) (hs : fileCommand ans l = some (ascii "download")) :
    performSessionAction P ans w s (some l) =
      (fileSendPrepare ans (w.log (.handled s.sd s.state (some l))) s l).bind fun r =>
        .ok (r.2.1, if r.1 = 0 then { r.2.2 with state := .opDownload } else r.2.2) := by
  obtain ⟨ret, hargs, hret⟩ := fileCommand_args hs
  rw [performSessionAction_command hst]
  unfold processClientCommand processClientCommandWith
  rw [hargs, ok_bind]
  dsimp only
  rw [if_pos rfl, if_neg hret, if_neg (by decide), if_neg (by decide), if_pos rfl]
  rfl

/-! ## One event -/

@[simp] theorem clearFileFromSess_sd (w : World) (s : Session) : (clearFileFromSess w s).2.sd = s.sd := by
  unfold clearFileFromSess; split <;> rfl

@[simp] theorem clearFileFromSess_state (w : World) (s : Session) : (clearFileFromSess w s).2.state = s.state := by
  unfold clearFileFromSess; split <;> rfl

@[simp] theorem clearFileFromSess_buf (w : World) (s : Session) : (clearFileFromSess w s).2.buf = s.buf := by
  unfold clearFileFromSess; split <;> rfl

theorem sessionDoRead_cases {res : Bool} {line : Option Bytes}
    (h : sessionDoRead ans w s = .ok (res, line, w', s')) :
    (res = false ∧ w' = w ∧ s' = { s with state := .err } ∧ (ans.read = none ∨ ans.read = some [])) ∨
    ∃ bs l b, ans.read = some bs ∧ bs ≠ [] ∧ s.buf.length + bs.length ≤ inBufSize ∧ line = some l ∧ w' = w ∧
      queryExtractFromBuf2 (ans.below (s.buf.length + bs.length)) (s.buf ++ bs) = some (l, b) ∧
      s' = { s with buf := b } ∧ (res = true ↔ s.state ≠ .fin) := by
  unfold sessionDoRead sessionDoReadWith at h
  split at h
  · rename_i hr; cases h; exact .inl ⟨rfl, rfl, rfl, .inl hr⟩
  · rename_i hr; cases h; exact .inl ⟨rfl, rfl, rfl, .inr hr⟩
  · rename_i bs hne hr
    have hbs : bs ≠ [] := hne
    have hpos : 0 < bs.length := List.length_pos_iff.mpr hbs
    split at h
    · cases h
    rename_i hle
    have hb : s.buf ++ bs ≠ [] := by simp [hbs]
    obtain ⟨l, b, hq2, hq, hlt⟩ := queryExtractFromBuf_ok ans (s := { s with buf := s.buf ++ bs }) hb
    simp only [hq] at h
    simp only [List.length_append] at hlt hq2
    -- a line was taken, so there is room in the buffer
    rw [if_neg (by omega)] at h
    refine .inr ⟨bs, l, b, hr, hbs, by omega, ?_⟩
    split at h
    · rename_i hf; cases h; exact ⟨rfl, rfl, hq2, rfl, by simp [hf]⟩
    · rename_i hf; cases h; exact ⟨rfl, rfl, hq2, rfl, by simpa using hf⟩

end

/-- What one event can do to the server. A client is closed with the state `st` and the
buffer `b` that the failed read left. -/
inductive Stepped (P : Platform) (v : Server) : Event → Server → Prop
  | accepted {sd uid privileges w'} : v.world.fds sd = none → sd < maxConnections →
    Talks { v.world with fds := update v.world.fds sd (some .socket), trace := .accepted sd :: v.world.trace } w' →
    Stepped P v (.accept sd uid privileges) (v.set sd w' (some {
      buf := [], state := .opLoginUsr, reason := .noReason, privileges, uname := none, uid, fd := none, sd,
      file := none }))
  | idle {e} : (∀ i ans s, e = .ready i ans → v.connections i = some s →
    (s.state = .opUpload ∨ s.state = .opDownload) ∧ s.fd = none) → Stepped P v e v
  | transfer {i ans s w' s'} : v.connections i = some s → s.state = .opUpload ∨ s.state = .opDownload → s.fd.isSome →
    performSessionAction P ans v.world s none = .ok (w', s') →
    Stepped P v (.ready i ans) (v.set i w' (some s'))
  | line {i ans s bs l b w' s'} : v.connections i = some s → s.state ≠ .opUpload → s.state ≠ .opDownload →
    ans.read = some bs → bs ≠ [] → s.buf.length + bs.length ≤ inBufSize →
    queryExtractFromBuf2 (ans.below (s.buf.length + bs.length)) (s.buf ++ bs) = some (l, b) →
    performSessionAction P ans v.world { s with buf := b } (some l) = .ok (w', s') →
    Stepped P v (.ready i ans)
      (if s'.state = .err then v.set i (closeSession w' s' i) none else v.set i w' (some s'))
  | closed {i ans s st b} : v.connections i = some s → s.state ≠ .opUpload → s.state ≠ .opDownload →
    ans.read = none ∨ ans.read = some [] ∨ s.state = .fin →
    Stepped P v (.ready i ans) (v.set i (closeSession v.world { s with state := st, buf := b } i) none)

/-- **What one event can do.** -/
theorem step_stepped {P : Platform} {v v' : Server} {e : Event} (h : Steps P v e v') : Stepped P v e v' := by
  unfold Steps Server.step Server.stepWith at h
  cases e with
  | accept sd uid privileges =>
    simp only [acceptClientWith] at h
    split at h
    · cases h
    rename_i hfree
    split at h
    · cases h
    obtain ⟨⟨w, s⟩, hm, h⟩ := bind_ok.mp h
    cases h
    obtain ⟨w₁, ht, hm⟩ := bind_ok.mp hm
    cases hm
    exact .accepted (not_not.mp hfree) (by omega) (sessionSendString_talks ht)
  | acceptFailed => cases h; exact .idle fun _ _ _ he => by cases he
  | ready i ans =>
    simp only at h
    cases hs : v.connections i with
    | none =>
      simp only [hs] at h
      cases h
      exact .idle fun j _ t he ht => by cases he; rw [hs] at ht; cases ht
    | some s =>
    simp only [hs] at h
    unfold serveSessionWith at h
    by_cases hst : s.state = .opUpload ∨ s.state = .opDownload
    · rw [if_pos hst] at h
      by_cases hfd : s.fd.isSome
      · rw [if_pos hfd] at h
        obtain ⟨⟨w', s'⟩, hd, h⟩ := bind_ok.mp h
        cases h
        exact .transfer hs hst hfd hd
      · rw [if_neg hfd] at h
        cases h
        refine .idle fun j _ t he ht => ?_
        cases he
        rw [hs] at ht
        cases ht
        exact ⟨hst, Option.not_isSome_iff_eq_none.mp hfd⟩
    rw [if_neg hst] at h
    obtain ⟨⟨res, line, w, s₁⟩, hr, h⟩ := bind_ok.mp h
    rcases sessionDoRead_cases hr with ⟨rfl, rfl, rfl, hread⟩ | ⟨bs, l, b, hread, hbs, hle, rfl, rfl, hq, rfl, hres⟩
    · simp only [Bool.false_eq_true, if_false] at h
      cases h
      exact .closed hs (fun e => hst (.inl e)) (fun e => hst (.inr e)) (hread.imp_right .inl)
    · by_cases hfin : s.state = .fin
      · have : res = false := by simpa [hfin] using hres
        simp only [this, Bool.false_eq_true, if_false] at h
        cases h
        exact .closed hs (fun e => hst (.inl e)) (fun e => hst (.inr e)) (.inr (.inr hfin))
      · dsimp only at h
        rw [if_pos (hres.mpr hfin)] at h
        obtain ⟨⟨w', s'⟩, hd, h⟩ := bind_ok.mp h
        have := Stepped.line hs (fun e => hst (.inl e)) (fun e => hst (.inr e)) hread hbs hle hq
          hd
        dsimp only at h
        split at h <;> cases h <;> simpa [*] using this

/-! ## Looking up sessions -/

theorem Server.set_connections {v : Server} {i j : Nat} {w : World} {x : Option Session} {t : Session} :
    (v.set i w x).connections j = some t ↔ (j = i ∧ x = some t) ∨ (j ≠ i ∧ v.connections j = some t) := by
  by_cases h : j = i
  · subst h; simp [Server.set]
  · simp [Server.set, h]

@[simp] theorem Server.set_self (v : Server) (i : Nat) (w : World) (x : Option Session) :
    (v.set i w x).connections i = x := by
  simp [Server.set]

@[simp] theorem Server.set_world (v : Server) (i : Nat) (w : World) (x : Option Session) : (v.set i w x).world = w :=
  rfl

end BbsServer
