import BbsServer.Server

/-!
# What one action can do

`Did` lists what one call of `perform_session_action` can do to the world and to its
session, whatever the operating system, the database and the client answer. The
invariants of the later modules are proved by going through its cases.
-/

namespace BbsServer

open CStr Function

def sendName (line : Bytes) : Option Bytes :=
  match strchr line 91, strrchr line 93 with
  | some b, some e => if b + 1 < e then some ((line.drop (b + 1)).take (e - (b + 1))) else none
  | _, _ => none

def fileCommand (ans : Answers) (line : Bytes) : Option Bytes :=
  match scanArgs ans line with
  | .ok (ret, arg1, arg2) => if arg1 = ascii "file" ∧ ret ≠ 1 then some arg2 else none
  | .error _ => none

/-- The row that a line asks `file_send_prepare` to send. -/
def sendRow (ans : Answers) (w : World) (line : Bytes) : Option SFile :=
  if fileCommand ans line = some (ascii "download") then
    (sendName line).bind fun n => dbGetFile ans w { id := 0, userId := 0, name := n }
  else none

def receiveArgs (ans : Answers) (line : Bytes) : Option (Bytes × Nat × Int) :=
  (strchr line 34).bind fun b =>
    (strrchr (line.drop (b + 1)) 34).bind fun n =>
      if n = 0 then none
      else some ((line.drop (b + 1)).take n, scanSizePerm ans ((line.drop (b + 1)).drop (n + 1)))

def probedFd : List Probe → Option Nat
  | [] => none
  | p :: probes =>
    if !p.dirExists && !p.mkdir then none
    else
      match p.opened with
      | .fd d => some d
      | .eexist => probedFd probes
      | .failed => none

/-- A line that makes `file_receive_prepare` accept an upload. -/
def AcceptsUpload (ans : Answers) (line : Bytes) : Prop :=
  fileCommand ans line = some (ascii "upload") ∧ (probedFd ans.probes).isSome ∧
    ∃ a ∈ receiveArgs ans line, a.1.length ≤ ans.nameMax ∧ a.2.1 ≤ ans.availableSpace

def TakesHeader (ans : Answers) (f : SFile) : Prop :=
  f.packageRest < sizeT (readLength ans.read) ∧ toInt (readLength ans.read - f.packageRest) ≠ 0 ∧
    subSize f.rest f.packageRest ≠ 0

instance (ans : Answers) (f : SFile) : Decidable (TakesHeader ans f) := inferInstanceAs (Decidable (_ ∧ _ ∧ _))

def signalOf (ans : Answers) (f : SFile) : Nat := bufLE ans (ans.read.getD []) f.packageRest 4

def UploadWriteFails (ans : Answers) (f : SFile) : Prop :=
  ans.read ≠ some [] ∧ (ans.write1 = .failed ∨ TakesHeader ans f ∧ signalOf ans f = sigContinue ∧
    toInt (toInt (readLength ans.read - f.packageRest) - fpdSize) > 0 ∧ ans.write2 = .failed)

def UploadCancelled (ans : Answers) (f : SFile) : Prop :=
  (ans.read = some [] ∧ f.rest ≠ 0) ∨
    (ans.read ≠ some [] ∧ ans.write1 ≠ .failed ∧ TakesHeader ans f ∧ signalOf ans f = sigCancel)

/-- A line that ends the description. -/
def EndsDescription (ans : Answers) (s : Session) (line : Bytes) : Prop :=
  (fileUploadDescription ans s line).toOption.map (·.1) = some true

def describedAs (ans : Answers) (s : Session) (line : Bytes) : Option Bytes :=
  (fileUploadDescription ans s line).toOption.bind fun r => r.2.file.bind (·.description)

def AsksRow (P : Platform) (ans : Answers) (line : Bytes) (row : UserRow) : Prop :=
  ∃ args, scanRegister line = .ok (some args) ∧ ans.insert = some row.id ∧ row = newUser P args row.id

def Quiet (ans : Answers) (w : World) (s : Session) (line : Option Bytes) : Prop :=
  ∀ l, line = some l → (s.state = .opLoginUsr ∨ s.state = .opWait → isExit l = false) ∧
    (s.state = .opWait → sendRow ans w l = none ∧ ¬ AcceptsUpload ans l)

def SFile.stored (sf : SFile) : SFile := { sf with path := some (storagePath sf.hash) }

def World.uploaded (w : World) (s : Session) (bytes out : Bytes) : World :=
  (w.log (.received s.sd bytes)).append s.fd out

/-- What `file_upload` writes of a read to the file: the rest of the package and, behind a header, the beginning
of the next. -/
def uploadOut (ans : Answers) (f : SFile) : Bytes :=
  let bs := ans.read.getD []
  let rlen := readLength ans.read
  let first := bufSlice ans bs 0 ((ans.write1.accepted (min f.packageRest (sizeT rlen))).getD 0)
  let rlen := toInt (toInt (rlen - f.packageRest) - fpdSize)
  if TakesHeader ans f ∧ signalOf ans f = sigContinue ∧ rlen > 0 then
    let rest := subSize f.rest f.packageRest
    let rlen := if sizeT rlen > rest then toInt rest else rlen
    first ++ bufSlice ans bs (f.packageRest + fpdSize) ((ans.write2.accepted (sizeT rlen)).getD 0)
  else first

/-- The bytes that `file_upload` wrote start with what its first `write` accepted. -/
def FirstWrite (ans : Answers) (f : SFile) (out : Bytes) : Prop :=
  ∃ n more, ans.write1.accepted (min f.packageRest (sizeT (readLength ans.read))) = some n ∧
    out = bufSlice ans (ans.read.getD []) 0 n ++ more

def Session.cleared (s : Session) (st : SessState) : Session := { s with fd := none, file := none, state := st }

section
variable (P : Platform) (ans : Answers) (w : World) (s : Session) (line : Option Bytes)

inductive Did : World → Session → Prop
  | talked {w'} : s.state ≠ .opUpload → s.state ≠ .opDownload → s.state ≠ .opUploadDescription → Quiet ans w s line →
    Talks w w' → Did w' s
  | left {l w'} : s.state = .opLoginUsr ∨ s.state = .opWait → line = some l → isExit l → Talks w w' →
    Did w' { s with state := .err, reason := .exit }
  -- before the login
  | registered {l row users w'} : s.state = .opLoginUsr → line = some l → isExit l = false →
    w.users.insert row = some users →
    Talks { w with users, trace := .insertedUser s.sd row :: w.trace } w' → AsksRow P ans l row →
      ans.committed = true →
    Did w' { s with state := .opWait, uname := some row.username, uid := row.id, privileges := 1 }
  | rolledBack {l row users w'} : s.state = .opLoginUsr → line = some l → isExit l = false →
    w.users.insert row = some users → ans.committed = false → Talks w w' → AsksRow P ans l row →
    Did w' { s with state := .opWait, uname := some row.username, uid := row.id, privileges := 1 }
  | anonymous {l w'} : s.state = .opLoginUsr → line = some l → isExit l = false → isRegister l = false →
    isAnonymous l → Talks w w' → Did w' { s with uname := some (ascii "anonymous"), state := .opWait }
  | named {l w'} : s.state = .opLoginUsr → line = some l → isExit l = false → Talks w w' →
    Did w' { s with uname := some l, state := .opLoginPss }
  | welcomed {l u priv w'} : s.state = .opLoginPss → line = some l → s.uname = some u →
    (dbUserAuth P ans w s.uname l { privileges := 0, uid := 0 }).uid ≠ 0 → Talks w w' →
    Did w' { s with
      state := .opWait, privileges := priv, uid := (dbUserAuth P ans w s.uname l { privileges := 0, uid := 0 }).uid }
  | loginAgain {w'} : s.state = .opLoginPss → Talks w w' → Did w' { s with state := .opLoginUsr }
  -- commands
  | dropped {w₁} : s.state = .opWait → Quiet ans w s line → Talks w w₁ →
    Did (clearFileFromSess w₁ s).1 (clearFileFromSess w₁ s).2
  | refused {w₀ w₁} : s.state = .opWait → Quiet ans w s line →
    w₀ = w ∨ w₀ = { w with cwd := .work } ∨
      (w₀ = { w with cwd := .storage } ∧ ∃ p ∈ ans.probes, p.dirExists = false ∧ p.mkdir = false) →
    Talks w₀ w₁ → Did (w₁.closeFd s) (s.cleared .opWait)
  | accepted {name size perm hash d w₁ w'} : s.state = .opWait →
    (∀ l, line = some l → AcceptsUpload ans l ∧ receiveArgs ans l = some (name, size, perm)) → size < 2 ^ 64 →
    ({ w with cwd := .work } : World).create s (storagePath hash) d size = .ok w₁ → Talks w₁ w' →
    Did w' { s with
      state := .opUpload, fd := some d,
      file := some {
        name := some name, path := some (storagePath hash), description := none, permissions := toChar perm, size,
        rest := size, packageRest := 0, hash, id := 0, ownerId := 0 } }
  | notFound : s.state = .opWait → Quiet ans w s line → Did w { s with file := none }
  | notOpened {l sf w'} : s.state = .opWait → line = some l → sendRow ans w l = some sf → ans.opened = none →
    Talks w w' →
    Did w' { s with file := some sf.stored }
  | damaged {l sf d w₁ w'} : s.state = .opWait → line = some l → sendRow ans w l = some sf → ans.opened = some d →
    w.openRead s (storagePath sf.hash) d = .ok w₁ → sf.size ≠ ((w.disk (storagePath sf.hash)).getD []).length →
    Talks w₁ w' → Did w' { s with file := some sf.stored }
  | sending {l sf d w'} : s.state = .opWait → line = some l → sendRow ans w l = some sf → ans.opened = some d →
    w.openRead s (storagePath sf.hash) d = .ok w' → sf.size = ((w.disk (storagePath sf.hash)).getD []).length →
    Did w' { s with
      state := .opDownload, fd := some d,
      file := some { sf.stored with rest := sf.size, packageRest := packageSize } }
  -- downloads
  | moved {f rest pr st w'} : s.state = .opDownload ∨ s.state = .opDownloadWaitConfirmPackage → s.file = some f →
    st = .opDownload ∨ st = .opDownloadWaitConfirmPackage → Talks w w' →
    Did w' { s with file := some { f with rest, packageRest := pr }, state := st }
  | released {f st w₁} : s.state = .opDownload ∨ s.state = .opDownloadWaitConfirmPackage → s.file = some f →
    st = .opWait ∨ (st = .err ∧ s.state = .opDownload) → Talks w w₁ → Did (w₁.closeFd s) (s.cleared st)
  | ended {f} : (s.state = .opDownload ∧ f.packageRest ≠ 0) ∨ s.state = .opUpload → s.file = some f →
    ans.read = some [] → f.rest = 0 → Did w { s with state := .opWait }
  -- uploads
  | removed {f p w₁} : s.state = .opUpload → s.file = some f → f.path = some p → UploadCancelled ans f →
    (ans.read = some [] ∧ w₁ = w) ∨
      (ans.read ≠ some [] ∧ ∃ out, FirstWrite ans f out ∧ w₁ = w.uploaded s (ans.read.getD []) out) →
    Did ((w₁.unlink p).closeFd s) (s.cleared .opWait)
  | writeFailed {f p out w₁} : s.state = .opUpload → s.file = some f → f.path = some p → UploadWriteFails ans f →
    Talks (w.uploaded s (ans.read.getD []) out) w₁ →
    Did (((w₁.closeFd s).unlink p).closeFd s) (s.cleared .opWait)
  | stored {f out rest pr st w'} : s.state = .opUpload → s.file = some f → ans.read ≠ some [] →
    ¬ UploadWriteFails ans f → ¬ UploadCancelled ans f → FirstWrite ans f out →
    st = .opUpload ∨ (st = .opUploadDescription ∧ rest = 0) → Talks (w.uploaded s (ans.read.getD []) out) w' →
    out = uploadOut ans f →
    Did w' { s with file := some { f with rest, packageRest := pr }, state := st }
  -- descriptions
  | described {l f dsc b} : s.state = .opUploadDescription → line = some l → ¬ EndsDescription ans s l →
    s.file = some f → b <:+ s.buf →
    Did w { s with file := some { f with description := dsc }, buf := b }
  | saved {l f dsc b name id row files} : s.state = .opUploadDescription → line = some l → EndsDescription ans s l →
    s.file = some f → b <:+ s.buf → f.name = some name → ans.insert = some id →
    row = { id, userId := s.uid, name, size := f.size, description := dsc, permissions := f.permissions, hash := f.hash } →
    w.files.insert row = some files → dsc = (describedAs ans s l).getD [] →
    Did ((({ w with files, trace := .insertedFile s.sd row :: w.trace } : World).log
      (.said s.sd (savedText name))).closeFd s) { s.cleared .opWait with buf := b }
  | notSaved {l f b name} : s.state = .opUploadDescription → line = some l → EndsDescription ans s l →
    s.file = some f → b <:+ s.buf → f.name = some name → ans.insert = none →
    Did ((w.log (.said s.sd (savedText name))).closeFd s) { s.cleared .opWait with buf := b }

end

@[simp] theorem World.uploaded_fds (w : World) (s : Session) (bs out : Bytes) : (w.uploaded s bs out).fds = w.fds :=
  World.append_fds ..

theorem World.uploaded_disk (w : World) (s : Session) (bs out q : Bytes) : (w.uploaded s bs out).disk q =
    if s.fd.bind w.fds = some (.file q) then (w.disk q).map (· ++ out) else w.disk q :=
  World.append_disk ..

/-! ## Lines -/

section
variable {P : Platform} {ans : Answers} {w w' : World} {s s' : Session} {l : Bytes}

theorem fileCommand_args {cmd : Bytes} (h : fileCommand ans l = some cmd) :
    ∃ ret, scanArgs ans l = .ok (ret, ascii "file", cmd) ∧ ret ≠ 1 := by
  unfold fileCommand at h
  split at h
  · rename_i ret a b he
    split at h
    · rename_i hc
      cases h
      rw [hc.1] at he
      exact ⟨ret, he, hc.2⟩
    · cases h
  · cases h

theorem quiet_of_state {line : Option Bytes} (h1 : s.state ≠ .opLoginUsr) (h2 : s.state ≠ .opWait) :
    Quiet ans w s line :=
  fun _ _ => ⟨fun h => (h.elim h1 h2).elim, fun h => absurd h h2⟩

theorem quiet_of_name (hst : s.state = .opLoginUsr) (hx : isExit l = false) : Quiet ans w s (some l) := by
  intro l' hl
  cases hl
  exact ⟨fun _ => hx, fun h => by simp [hst] at h⟩

theorem quiet_of_command (hx : isExit l = false) (h1 : fileCommand ans l ≠ some (ascii "download"))
    (h2 : fileCommand ans l ≠ some (ascii "upload")) : Quiet ans w s (some l) := by
  intro l' hl
  cases hl
  exact ⟨fun _ => hx, fun _ => ⟨if_neg h1, fun ha => h2 ha.1⟩⟩

theorem isExit_args {ret : Int} {a b : Bytes} (hx : isExit l) (h : scanArgs ans l = .ok (ret, a, b)) :
    a ≠ ascii "file" := by
  have he : ((l ++ [0]).take 5).head? = some 101 := by
    simp only [isExit, strncmpZero, beq_iff_eq] at hx
    rw [hx]
    decide
  cases l with
  | nil => simp at he
  | cons c t =>
    obtain rfl : c = 101 := by simpa using he
    have hw : scanWord (101 :: t) = some (101 :: t.takeWhile (!isspace ·), t.dropWhile (!isspace ·)) := by
      simp [scanWord, skipSpace, show isspace 101 = false by decide]
    unfold scanArgs at h
    rw [hw] at h
    dsimp only at h
    split at h
    · cases h
    · have ha : a = 101 :: t.takeWhile (!isspace ·) := by
        split at h
        · cases h; rfl
        · split at h
          · cases h
          · cases h; rfl
      rw [ha, show ascii "file" = 102 :: ascii "ile" from rfl]
      intro he
      exact absurd (List.cons.inj he).1 (by decide)

theorem AcceptsUpload.sendRow (h : AcceptsUpload ans l) : sendRow ans w l = none :=
  if_neg (by rw [h.1]; decide)

theorem isExit_sendRow (hx : isExit l) : sendRow ans w l = none := by
  refine if_neg fun h => ?_
  obtain ⟨ret, hargs, -⟩ := fileCommand_args h
  exact isExit_args hx hargs rfl

theorem isExit_accepts (hx : isExit l) : ¬ AcceptsUpload ans l := by
  intro h
  obtain ⟨ret, hargs, -⟩ := fileCommand_args h.1
  exact isExit_args hx hargs rfl

theorem clearFileFromSess_some (w : World) {s : Session} {f : SFile} (hf : s.file = some f) :
    clearFileFromSess w s = (w.closeFd s, { s with fd := none, file := none }) := by
  simp [clearFileFromSess, hf]

end

end BbsServer
