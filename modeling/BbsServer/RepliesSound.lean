import BbsServer.UploadSound

/-!
# Replies

`session_send_string` formats into `INBUFSIZE` bytes whatever it is given. What it is given fits, if the welcome
message, the name that a user logs in with, the name of a file that is saved and the string in place of an
argument that is not there are short enough (`replies_fit`).
-/

namespace BbsServer

open CStr Runs

def LogsIn (P : Platform) (ans : Answers) (v : Server) (s : Session) : Prop :=
  ∃ line rest, lineOf ans s = some (line, rest) ∧
    (dbUserAuth P ans v.world s.uname line { privileges := 0, uid := 0 }).uid ≠ 0

def Describes (ans : Answers) (s : Session) : Prop :=
  ∃ line rest s', lineOf ans s = some (line, rest) ∧
    fileUploadDescription ans { s with buf := rest } line = .ok (true, s')

def WriteFails (ans : Answers) : Prop := ans.write1 = .failed ∨ ans.write2 = .failed

/-- What comes from elsewhere into a reply is short enough for it. -/
def ShortReplies (P : Platform) (v : Server) : Event → Prop
  | .accept .. => P.welcome.length < 1017
  | .acceptFailed => True
  | .ready i ans => ∀ s, v.connections i = some s →
    match s.state with
    | .opLoginPss => LogsIn P ans v s → ∀ uname, s.uname = some uname → uname.length < 1014
    | .opUpload => WriteFails ans → ans.junk.length < 981
    | .opUploadDescription => Describes ans s → ∀ f name, s.file = some f → f.name = some name → name.length < 1005
    | _ => True

/-- The step makes a difference between `session_send_string` and a function that only does something else with
`text`: it sends `text`. -/
def Sends (P : Platform) (v : Server) (e : Event) (text : Bytes) : Prop :=
  ∃ send : SendString, (∀ w s t, t ≠ text → send w s t = sessionSendString w s t) ∧
    v.stepWith send (.tables P) P e ≠ v.step P e

/-- Every text that the step sends fits, with its NUL. -/
def RepliesFit (P : Platform) (v : Server) (e : Event) : Prop :=
  ∀ text, Sends P v e text → text.length + 1 ≤ inBufSize

def Agrees (send : SendString) : Prop := ∀ w s t, t.length < inBufSize → send w s t = sessionSendString w s t

section
variable {send : SendString} {P : Platform} {ans : Answers} {w : World} {s : Session} {line text : Bytes} {v : Server}
  {D : Database} {db : World → Session → DbUserCreate → M (Int × World)} {get : GetFile → M (Option SFile)}

theorem repliesFit_of_agrees {e : Event} (h : ∀ send, Agrees send → v.stepWith send (.tables P) P e = v.step P e) :
    RepliesFit P v e := by
  rintro text ⟨send, hsame, hne⟩
  by_contra hlong
  refine hne (h send fun w s t ht => hsame w s t ?_)
  rintro rfl
  exact hlong ht

theorem bind_eq {α β : Type} {x : M α} {f g : α → M β} (h : ∀ a, x = .ok a → f a = g a) : (x >>= f) = (x >>= g) := by
  cases x with
  | error => rfl
  | ok a => exact h a rfl

/-! ## Texts that are there -/

theorem sessionDoReadWith_eq (hs : Agrees send) :
    sessionDoReadWith send ans w s = sessionDoReadWith sessionSendString ans w s := by
  unfold sessionDoReadWith
  simp only [fun w s => hs w s (ascii "Line too long! Good bye...\n") (by decide)]

theorem createUserWith_eq (hs : Agrees send) :
    createUserWith send db w s line = createUserWith sessionSendString db w s line := by
  unfold createUserWith
  simp only [fun w s => hs w s (ascii "ok\n") (by decide),
    fun w s => hs w s (ascii "User with such name already exists\n") (by decide),
    fun w s => hs w s (ascii "User with such email already exists\n") (by decide),
    fun w s => hs w s (ascii "Error creating the user\n") (by decide)]

theorem processUserNameWith_eq (hs : Agrees send) :
    processUserNameWith send db w s line = processUserNameWith sessionSendString db w s line := by
  unfold processUserNameWith
  simp only [createUserWith_eq hs, fun w s => hs w s (ascii "Bye!") (by decide),
    fun w s => hs w s (ascii "Welcome, Anonymous!") (by decide), fun w s => hs w s (ascii "password> ") (by decide)]

theorem fileSendPrepareWith_eq (hs : Agrees send) :
    fileSendPrepareWith send get found w s line = fileSendPrepareWith sessionSendString get found w s line := by
  unfold fileSendPrepareWith
  simp only [
    fun w s => hs w s (ascii "Error: can't find starting character \"[\" for the file name") (by decide),
    fun w s => hs w s (ascii "Error: can't find ending character \"]\" for the file name") (by decide),
    fun w s => hs w s (ascii "File name should not be empty") (by decide)]

theorem fileSearchWith_eq (hs : Agrees send) :
    fileSearchWith send w s line = fileSearchWith sessionSendString w s line := by
  unfold fileSearchWith
  simp only [fun w s => hs w s (ascii "The search criteria is not specified!") (by decide),
    fun w s => hs w s (ascii "The file name is not specified!") (by decide)]

theorem clientExitWith_eq (hs : Agrees send) :
    clientExitWith send w s line = clientExitWith sessionSendString w s line := by
  unfold clientExitWith
  simp only [fun w s => hs w s (ascii "OK. Bye!\n") (by decide)]

theorem uploadFinWith_eq {f : SFile} (hs : Agrees send) :
    uploadFinWith send w s f = uploadFinWith sessionSendString w s f := by
  unfold uploadFinWith
  simp only [fun w s => hs w s (ascii "finished\n") (by decide)]

theorem noSpace_fits (fsize : Nat) :
    (ascii "There is no space for such size! (" ++ decimalInt (wrap 64 fsize) ++ ascii ")\n").length < inBufSize := by
  have hlen : (decimalInt (wrap 64 fsize)).length ≤ 20 := by
    refine length_decimalInt_le (by decide) ?_
    unfold wrap
    rw [Int.bmod_def]
    split <;> omega
  simp only [List.length_append]
  refine lt_of_le_of_lt (Nat.add_le_add_right (Nat.add_le_add_left hlen _) _) (by decide)

theorem fileReceivePrepareWith_eq (hs : Agrees send) :
    fileReceivePrepareWith send ans w s line = fileReceivePrepareWith sessionSendString ans w s line := by
  unfold fileReceivePrepareWith
  simp only [
    fun w s => hs w s (ascii "Error: can't find starting character \" for the file name") (by decide),
    fun w s => hs w s (ascii "Error: can't find ending character \" for the file name") (by decide),
    fun w s => hs w s (ascii "File name should not be empty") (by decide),
    fun w s => hs w s (ascii "file name is too long\n") (by decide), fun w s => hs w s errFsv (by decide),
    fun w s fsize => hs w s _ (noSpace_fits fsize)]

theorem processClientCommandWith_eq (hs : Agrees send) :
    processClientCommandWith send D ans w s line = processClientCommandWith sessionSendString D ans w s line := by
  unfold processClientCommandWith
  simp only [fileReceivePrepareWith_eq hs, fileSendPrepareWith_eq hs, fileSearchWith_eq hs, clientExitWith_eq hs,
    fun w s => hs w s (ascii "Available commands: list, upload, download, search") (by decide)]

/-! ## Texts from elsewhere -/

theorem makeNewSessionWith_eq {sd : Nat} {uid privileges : Int} (hs : Agrees send) (h : P.welcome.length < 1017) :
    makeNewSessionWith send P w sd uid privileges = makeNewSessionWith sessionSendString P w sd uid privileges := by
  have hfits : (P.welcome ++ ascii "login> ").length < inBufSize := by
    rw [List.length_append]
    exact Nat.add_lt_add_right h _
  unfold makeNewSessionWith
  simp only [fun w s => hs w s _ hfits]

theorem loginWith_eq (hs : Agrees send)
    (h : (dbUserAuth P ans w s.uname line { privileges := 0, uid := 0 }).uid ≠ 0 →
      ∀ uname, s.uname = some uname → uname.length < 1014) :
    loginWith send ((Database.tables P).dbUserAuth ans w) ans.after w s line = login P ans w s line := by
  unfold login loginWith
  rw [tables_dbUserAuth, ok_bind, ok_bind]
  dsimp only
  by_cases hin : (dbUserAuth P ans w s.uname line { privileges := 0, uid := 0 }).uid ≠ 0
  swap
  · rw [if_neg hin, if_neg hin, hs _ _ _ (by decide)]
  rw [if_pos hin, if_pos hin]
  refine bind_eq fun uname hu => ?_
  have hfits : (welcomeText uname).length < inBufSize := by
    have := h hin uname (deref_ok.mp hu)
    simp only [welcomeText, List.length_append, List.length_singleton]
    have hlen : (ascii "Welcome, ").length = 9 := by decide
    have hbuf : inBufSize = 1024 := rfl
    omega
  rw [hs _ _ _ hfits]

theorem uploadWriteFailedWith_eq {f : SFile} (hs : Agrees send) (h : ans.junk.length < 981) :
    uploadWriteFailedWith send ans w s f = uploadWriteFailedWith sessionSendString ans w s f := by
  have hfits : (ascii "There is an error sending the file name \"" ++ ans.junk ++ ascii "\"\n").length < inBufSize := by
    simp only [List.length_append]
    have hlen : (ascii "There is an error sending the file name \"").length = 41 := by decide
    have hend : (ascii "\"\n").length = 2 := by decide
    have hbuf : inBufSize = 1024 := rfl
    omega
  unfold uploadWriteFailedWith
  simp only [fun w s => hs w s _ hfits]

theorem accepted_some {a : WriteAnswer} (h : a ≠ .failed) : ∃ g : Nat → Nat, ∀ n, a.accepted n = some (g n) := by
  cases a with
  | failed => exact absurd rfl h
  | short n => exact ⟨min n, fun _ => rfl⟩
  | full => exact ⟨id, fun _ => rfl⟩

theorem fileUploadWith_eq (hs : Agrees send) (h : WriteFails ans → ans.junk.length < 981) :
    fileUploadWith send ans w s = fileUploadWith sessionSendString ans w s := by
  unfold fileUploadWith
  by_cases hf : WriteFails ans
  · simp only [uploadWriteFailedWith_eq hs (h hf), uploadFinWith_eq hs]
  · obtain ⟨g₁, hg₁⟩ := accepted_some fun h => hf (.inl h)
    obtain ⟨g₂, hg₂⟩ := accepted_some fun h => hf (.inr h)
    simp only [hg₁, hg₂, uploadFinWith_eq hs]

theorem dbSaveFile_ne_zero {f : SFile} {uid id : Int} {w' : World} (h : dbSaveFile ans w s f uid = .ok (id, w')) :
    id ≠ 0 := by
  obtain ⟨name, -, h⟩ := bind_ok.mp h
  split at h
  · cases h
    decide
  · dsimp only at h
    split at h
    · rename_i hins
      cases h
      exact ne_of_gt (FileTable.insert_rows hins).2
    · cases h

theorem saveFileWith_eq (hs : Agrees send)
    (h : ∀ f name, s.file = some f → f.name = some name → name.length < 1005) :
    saveFileWith send (dbSaveFile ans) w s = saveFile ans w s := by
  unfold saveFile saveFileWith
  refine bind_eq fun f hf => bind_eq fun ⟨id, w₁⟩ hsave => bind_eq fun name hn => ?_
  have hfits : (savedText name).length < inBufSize := by
    have := h f name (deref_ok.mp hf) (deref_ok.mp hn)
    simp only [savedText, List.length_append]
    have hlen : (ascii "File \"").length = 6 := by decide
    have hend : (ascii "\" is saved!\x04\n").length = 13 := by decide
    have hbuf : inBufSize = 1024 := rfl
    omega
  -- the other text would be sent for an id 0
  simp only [if_pos (dbSaveFile_ne_zero hsave), hs _ _ _ hfits]

/-! ## The whole step -/

def ShortLine (P : Platform) (ans : Answers) (w : World) (s : Session) (line : Option Bytes) : Prop :=
  (s.state = .opLoginPss → ∀ l, line = some l → (dbUserAuth P ans w s.uname l { privileges := 0, uid := 0 }).uid ≠ 0 →
    ∀ uname, s.uname = some uname → uname.length < 1014) ∧
  (s.state = .opUpload → WriteFails ans → ans.junk.length < 981) ∧
  (s.state = .opUploadDescription → ∀ l s', line = some l → fileUploadDescription ans s l = .ok (true, s') →
    ∀ f name, s.file = some f → f.name = some name → name.length < 1005)

theorem performSessionActionWith_eq {line : Option Bytes} (hs : Agrees send) (h : ShortLine P ans w s line) :
    performSessionActionWith send (.tables P) ans w s line = performSessionAction P ans w s line := by
  obtain ⟨hlogin, hupload, hsave⟩ := h
  unfold performSessionAction performSessionActionWith
  dsimp only
  cases hst : s.state with
  | opLoginUsr => simp only [processUserNameWith_eq hs]
  | opLoginPss =>
    refine bind_eq fun l hl => ?_
    rw [loginWith_eq (w := w.log _) hs (hlogin hst l (deref_ok.mp hl))]
  | opWait => simp only [processClientCommandWith_eq hs]
  | opUpload => exact fileUploadWith_eq hs (hupload hst)
  | opUploadDescription =>
    refine bind_eq fun l hl => bind_eq fun ⟨res, s'⟩ hd => ?_
    cases res with
    | false => simp only [Bool.false_eq_true, if_false]
    | true =>
      have hfits := hsave hst l s' (deref_ok.mp hl) hd
      obtain ⟨f, hf, hloop⟩ := bind_ok.mp hd
      obtain ⟨dsc, b, -, rfl⟩ := descriptionLoop_ok hloop
      refine saveFileWith_eq hs fun g name hg hn => ?_
      cases hg
      exact hfits f name (deref_ok.mp hf) hn
  | _ => rfl

theorem serveSessionWith_eq {i : Nat} (hc : v.connections i = some s) (hs : Agrees send)
    (h : ShortReplies P v (.ready i ans)) :
    serveSessionWith send (.tables P) ans v i s = serveSession P ans v i s := by
  have hshort := h s hc
  unfold serveSession serveSessionWith
  by_cases hst : s.state = .opUpload ∨ s.state = .opDownload
  · have hline : ShortLine P ans v.world s none := by
      refine ⟨?_, fun hup => ?_, ?_⟩
      · rintro - _ ⟨⟩
      · simpa only [hup] using hshort
      · rintro - _ _ ⟨⟩
    simp only [if_pos hst, performSessionActionWith_eq hs hline]
  · rw [if_neg hst, if_neg hst, sessionDoReadWith_eq hs]
    refine bind_eq fun ⟨res, line, w, s'⟩ hr => ?_
    rcases sessionDoRead_cases hr with ⟨rfl, -⟩ | ⟨bs, l, b, hread, hbs, -, rfl, rfl, hq, rfl, -⟩
    · simp only [Bool.false_eq_true, if_false]
    · have hof : lineOf ans s = some (l, b) := (lineOf_eq hread hbs).trans hq
      have hline : ShortLine P ans v.world { s with buf := b } (some l) := by
        refine ⟨fun hlog _ hl hin => ?_, fun hup => absurd (.inl hup) hst, fun hdesc _ s' hl hd => ?_⟩
        · cases hl
          have hlog : s.state = .opLoginPss := hlog
          simp only [hlog] at hshort
          exact hshort ⟨l, b, hof, hin⟩
        · cases hl
          have hdesc : s.state = .opUploadDescription := hdesc
          simp only [hdesc] at hshort
          exact hshort ⟨l, b, s', hof, hd⟩
      simp only [performSessionActionWith_eq hs hline]

theorem stepWith_eq {e : Event} (hs : Agrees send) (h : ShortReplies P v e) :
    v.stepWith send (.tables P) P e = v.step P e := by
  unfold Server.step
  cases e with
  | accept sd uid privileges => simp only [Server.stepWith, acceptClientWith, makeNewSessionWith_eq hs h]
  | acceptFailed => rfl
  | ready i ans =>
    simp only [Server.stepWith]
    cases hc : v.connections i with
    | none => rfl
    | some s => exact serveSessionWith_eq hc hs h

/-- **A step** that meets the condition sends what fits. -/
theorem ShortReplies.fits {e : Event} (h : ShortReplies P v e) : RepliesFit P v e :=
  repliesFit_of_agrees fun _ hs => stepWith_eq hs h

end

/-- **Replies fit**, in a run whose steps meet the condition and in the next step that meets it. -/
theorem replies_fit {P : Platform} {disk : Bytes → Option Bytes} {users : UserTable} {files : FileTable}
    {es : List Event}
    {v : Server} (r : Run (Guarded (ShortReplies P) (Steps P)) (.start disk users files) es v) :
    AlwaysStep (Steps P) (.start disk users files) es (fun u e _ => RepliesFit P u e) ∧
    ∀ e, ShortReplies P v e → RepliesFit P v e :=
  ⟨alwaysStep_of_guarded Steps.det (fun _ => True) (fun _ => True) _ (fun _ _ _ _ _ => trivial)
    (fun _ _ _ _ _ _ h => ⟨trivial, h.fits⟩) r trivial trivial, fun _ h => h.fits⟩

/-! ### An upload that is saved -/

def ShortNames (P : Platform) (v : Server) : Event → Prop
  | .accept .. => P.welcome.length < 1017
  | .acceptFailed => True
  | .ready i ans => ans.junk.length < 981 ∧ ∀ s ∈ v.connections i,
      (∀ uname ∈ s.uname, uname.length < 1014) ∧ ∀ f ∈ s.file, ∀ name ∈ f.name, name.length < 1005

instance (P : Platform) (v : Server) : ∀ e, Decidable (ShortNames P v e)
  | .accept .. => by unfold ShortNames; infer_instance
  | .acceptFailed => .isTrue trivial
  | .ready .. => by unfold ShortNames; infer_instance

theorem ShortNames.replies {P : Platform} {v : Server} {e : Event} (h : ShortNames P v e) : ShortReplies P v e := by
  cases e with
  | accept => exact h
  | acceptFailed => trivial
  | ready i ans =>
    intro s hs
    obtain ⟨hjunk, hnames⟩ := h
    obtain ⟨huname, hfile⟩ := hnames s hs
    split
    · exact fun _ => huname
    · exact fun _ => hjunk
    · exact fun _ f name hf hname => hfile f hf name hname
    · trivial

/-- The last reply names the file. -/
theorem replies_fit_saved : ∃ v v', Run (Guarded (ShortReplies default) (Steps default)) .fresh anonymousUpload v ∧
    AlwaysStep (Steps default) .fresh anonymousUpload (fun u e _ => RepliesFit default u e) ∧
    Steps default v (.ready 4 anonymousEnd) v' ∧ .said 4 (savedText (ascii "a")) ∈ v'.world.trace ∧
    RepliesFit default v (.ready 4 anonymousEnd) := by
  have h : (Server.exec (ShortNames default) default .fresh anonymousUpload).any (fun v =>
      decide (ShortNames default v (.ready 4 anonymousEnd)) && (v.step default (.ready 4 anonymousEnd)).toOption.any fun v' =>
        decide (Act.said 4 (savedText (ascii "a")) ∈ v'.world.trace)) = true := by
    decide +kernel
  simp only [Option.any_eq_true, Bool.and_eq_true, decide_eq_true_eq] at h
  obtain ⟨v, hv, hshort, v', hstep, hsaid⟩ := h
  have r : Run (Guarded (ShortReplies default) (Steps default)) .fresh anonymousUpload v :=
    (Server.exec_run hv).mono fun _ _ _ hs => ⟨hs.1.replies, hs.2⟩
  have hfit := replies_fit r
  exact ⟨v, v', r, hfit.1, .of_toOption hstep, hsaid, hfit.2 _ hshort.replies⟩

/-! ## A longer greeting -/

def refusing (text : Bytes) : SendString := fun w s t => if t = text then .error .refused else sessionSendString w s t

theorem refusing_bind_ne {α : Type} {w : World} {s : Session} {text : Bytes} {f g : World → M α}
    (hg : ∀ w, g w ≠ .error .refused) :
    (refusing text w s text >>= f) ≠ (sessionSendString w s text >>= g) := by
  rw [refusing, if_pos rfl]
  unfold sessionSendString
  split
  · exact fun h => hg _ h.symm
  · rintro ⟨⟩

theorem sends_greeting {P : Platform} {v : Server} {sd : Nat} {uid privileges : Int} (hfree : v.world.fds sd = none)
    (hlt : sd < maxConnections) : Sends P v (.accept sd uid privileges) (P.welcome ++ ascii "login> ") := by
  refine ⟨refusing _, fun w s t ht => if_neg ht, ?_⟩
  show acceptClientWith _ P v sd uid privileges ≠ acceptClient P v sd uid privileges
  rw [acceptClientWith, acceptClient, acceptClientWith, if_neg (not_not.mpr hfree), if_neg (not_not.mpr hfree),
    if_neg (Nat.not_le.mpr hlt), if_neg (Nat.not_le.mpr hlt)]
  simp only [makeNewSessionWith, bind_assoc, ok_bind]
  exact refusing_bind_ne fun w => by rintro ⟨⟩

theorem greeting_fits_iff {P : Platform} {v : Server} {sd : Nat} {uid privileges : Int}
    (hfree : v.world.fds sd = none)
    (hlt : sd < maxConnections) : RepliesFit P v (.accept sd uid privileges) ↔ P.welcome.length < 1017 := by
  refine ⟨fun hfit => ?_, fun h => ShortReplies.fits h⟩
  have hle := hfit _ (sends_greeting hfree hlt)
  rw [List.length_append] at hle
  exact Nat.lt_of_add_lt_add_right (n := 7) (Nat.lt_of_succ_le hle)

theorem long_welcome_overflows : ∃ P : Platform, P.welcome = List.replicate 1016 65 ++ [4] ∧
    Run (Steps P) .fresh [] .fresh ∧ ¬ RepliesFit P .fresh (.accept 4 0 0) := by
  refine ⟨{ (default : Platform) with welcome := List.replicate 1016 65 ++ [4] }, rfl, .nil, fun hfit => ?_⟩
  have hlt := (greeting_fits_iff rfl (by decide)).mp hfit
  rw [List.length_append, List.length_replicate] at hlt
  exact lt_irrefl _ hlt

end BbsServer
