import BbsServer.Client

/-!
# Sessions

`session.c`: accepting a client, performing an action, closing a session.
-/

namespace BbsServer

open CStr Function

def savedText (name : Bytes) : Bytes := ascii "File \"" ++ name ++ ascii "\" is saved!\x04\n"

def saveErrorText (name : Bytes) : Bytes := ascii "Error while saving the file " ++ name ++ ascii "!\x04\n"

section
variable (send : SendString)

/-- `make_new_session`: `uid` and `privileges` keep what `malloc` returned. -/
def makeNewSessionWith (P : Platform) (w : World) (sd : Nat) (uid privileges : Int) : M (World × Session) := do
  let s : Session :=
    { buf := [], state := .opLoginUsr, reason := .noReason, privileges, uname := none, uid, fd := none, sd, file := none }
  let w ← send w s (P.welcome ++ ascii "login> ")
  .ok (w, s)

def saveFileWith (dbSaveFile : World → Session → SFile → Int → M (Int × World)) (w : World) (s : Session) :
    M (World × Session) := do
  let f ← deref s.file
  let (id, w) ← dbSaveFile w s f s.uid
  let name ← deref f.name
  let w ← if id ≠ 0 then send w s (savedText name)
    else do
      let w ← send w s (saveErrorText name)
      let path ← deref f.path
      .ok (w.unlink path)
  let (w, s) := clearFileFromSess w s
  .ok (w, { s with state := .opWait })

def describeWith (dbSaveFile : World → Session → SFile → Int → M (Int × World)) (ans : Answers) (w : World)
    (s : Session) (line : Bytes) : M (World × Session) := do
  let (res, s) ← fileUploadDescription ans s line
  if res then saveFileWith send dbSaveFile w s else .ok (w, s)

def performSessionActionWith (D : Database) (ans : Answers) (w : World) (s : Session) (line : Option Bytes) :
    M (World × Session) := do
  let w := w.log (.handled s.sd s.state line)
  match s.state with
  | .opLoginUsr =>
    let (_, w, s) ← processUserNameWith send (D.dbUserCreate ans) w s (← deref line)
    .ok (w, s)
  | .opLoginPss =>
    let (_, w, s) ← loginWith send (D.dbUserAuth ans w) ans.after w s (← deref line)
    .ok (w, s)
  | .opWait => processClientCommandWith send D ans w s (← deref line)
  | .opDownload => fileDownload ans w s
  | .opUpload => fileUploadWith send ans w s
  | .opUploadDescription => describeWith send (D.dbSaveFile ans) ans w s (← deref line)
  | .opDownloadWaitConfirmPackage => downloadConfirm w s (← deref line)
  | _ => .ok (w, s)

end

abbrev makeNewSession := makeNewSessionWith sessionSendString

abbrev saveFile (ans : Answers) := saveFileWith sessionSendString (dbSaveFile ans)

abbrev performSessionAction (P : Platform) := performSessionActionWith sessionSendString (.tables P)

def closeSession (w : World) (s : Session) (sd : Nat) : World :=
  let (w, s) := clearFileFromSess w s
  w.close s sd

def Session.waiting (sd : Nat) (uname : Bytes) (uid : Int) : Session :=
  { buf := [], state := .opWait, reason := .noReason, privileges := 0, uname := some uname, uid, fd := none, sd,
    file := none }

end BbsServer
