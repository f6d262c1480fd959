import BbsServer.FileP
import BbsServer.User

/-!
# Commands

`client.c`: the commands of a session that is logged in, and the confirmation of a
package.
-/

namespace BbsServer

open CStr

def difLimit : Int := 15
def difPageNum : Int := 1
def argLen : Nat := 32

def scanArgs (ans : Answers) (line : Bytes) : M (Int × Bytes × Bytes) :=
  match scanWord line with
  | none => .ok (-1, ans.arg1, ans.arg2)
  | some (arg1, rest) =>
    if argLen ≤ arg1.length then .error (.fault .overflow)
    else
      match scanWord rest with
      | none => .ok (1, arg1, ans.arg2)
      | some (arg2, _) => if argLen ≤ arg2.length then .error (.fault .overflow) else .ok (2, arg1, arg2)

def skipTwoWords (line : Bytes) : Option Bytes :=
  (scanWord line).bind fun (_, rest) => (scanWord rest).map (·.2)

def scanListArgs (line : Bytes) : Int × Int :=
  match (skipTwoWords line).bind scanUInt with
  | none => (difLimit, difPageNum)
  | some (limit, rest) =>
    match scanUInt rest with
    | none => (toInt limit, difPageNum)
    | some (page, _) => (toInt limit, toInt page)

/-- `file search`: the second `%s` is stored through the null pointer `s_val`. -/
def fileSearchWith (send : SendString) (w : World) (s : Session) (line : Bytes) : M World :=
  match (skipTwoWords line).bind scanWord with
  | none => send w s (ascii "The search criteria is not specified!")
  | some (sType, rest) =>
    if argLen ≤ sType.length then .error (.fault .overflow)
    else
      match scanWord rest with
      | none => send w s (ascii "The file name is not specified!")
      | some _ => .error (.fault .nullDeref)

/-- The `exit` test that ends `process_client_command`. -/
def clientExitWith (send : SendString) (w : World) (s : Session) (line : Bytes) : M (World × Session) :=
  if isExit line then do
    let w ← send w s (ascii "OK. Bye!\n")
    .ok (w, { s with state := .err, reason := .exit })
  else .ok (w, s)

def processClientCommandWith (send : SendString) (D : Database) (ans : Answers) (w : World) (s : Session)
    (line : Bytes) :
    M (World × Session) := do
  let (ret, arg1, arg2) ← scanArgs ans line
  if arg1 = ascii "file" then
    if ret = 1 then
      let w ← send w s (ascii "Available commands: list, upload, download, search")
      .ok (w, s)
    else if arg2 = ascii "list" then
      let (limit, page) := scanListArgs line
      let w ← fileListWith (D.dbGetFilesData ans w) w s { page, limit, name := none }
      .ok (w, s)
    else if arg2 = ascii "upload" then
      let (res, w, s) ← fileReceivePrepareWith send ans w s line
      .ok (w, if res = 0 then { s with state := .opUpload } else s)
    else if arg2 = ascii "download" then
      let (res, w, s) ← fileSendPrepareWith send (D.dbGetFile ans w) (sendFound ans w s) w s line
      .ok (w, if res = 0 then { s with state := .opDownload } else s)
    else if arg2 = ascii "search" then
      let w ← fileSearchWith send w s line
      .ok (w, s)
    else clientExitWith send w s line
  else clientExitWith send w s line

abbrev fileSearch := fileSearchWith sessionSendString

abbrev clientExit := clientExitWith sessionSendString

abbrev processClientCommand (P : Platform) := processClientCommandWith sessionSendString (.tables P)

def scanContinue (line : Bytes) : Int :=
  match scanInt (line.drop 8) with
  | none => packageSize
  | some (pacSiz, _) => pacSiz

def downloadConfirm (w : World) (s : Session) (line : Bytes) : M (World × Session) := do
  if strncmpZero line (ascii "continue") 8 then
    let f ← deref s.file
    .ok (w, { s with state := .opDownload, file := some { f with packageRest := sizeT (scanContinue line) } })
  else if strncmpZero line (ascii "cancel") 6 then
    let _ ← deref s.file
    let (w, s) := clearFileFromSess w s
    .ok (w, { s with state := .opWait })
  else .ok (w, s)

end BbsServer
