import BbsServer.Db

/-!
# Users

`user.c`: registration, the login dispatcher and the password check.
-/

namespace BbsServer

open CStr

/-- `sscanf(line, "register %s %s %s", p.uname, p.pass, p.email)`: the words, when all
three are there; a word that does not fit its field is an overflow. -/
def scanRegister (line : Bytes) : M (Option DbUserCreate) :=
  let keyword := ascii "register"
  if !keyword.isPrefixOf line then .ok none
  else
    match scanWord (line.drop keyword.length) with
    | none => .ok none
    | some (uname, rest) =>
      if unameLen ≤ uname.length then .error (.fault .overflow)
      else
        match scanWord rest with
        | none => .ok none
        | some (pass, rest) =>
          if passLen ≤ pass.length then .error (.fault .overflow)
          else
            match scanWord rest with
            | none => .ok none
            | some (email, _) =>
              if emailLen ≤ email.length then .error (.fault .overflow) else .ok (some { uname, pass, email })

/-! The keyword tests of `process_user_name`: `exit` and `anonymous` are compared with
their NUL, `register` is a prefix. -/

def isExit (line : Bytes) : Bool := strncmpZero line (ascii "exit") 5
def isRegister (line : Bytes) : Bool := strncmpZero line (ascii "register") 8
def isAnonymous (line : Bytes) : Bool := strncmpZero line (ascii "anonymous") 10

def atoi (s : Bytes) : Int := ((scanInt s).map (·.1)).getD 0

def welcomeText (uname : Bytes) : Bytes := ascii "Welcome, " ++ uname ++ [nl]

/-! ## The handlers

Each one is over `session_send_string` and what it calls of the database; with the function of `session.c` and the two
tables they are those of the server. -/

section
variable (send : SendString)

def createUserWith (dbUserCreate : World → Session → DbUserCreate → M (Int × World)) (w : World) (s : Session)
    (line : Bytes) :
    M (Int × World × Session) := do
  match ← scanRegister line with
  | none => .ok (0, w, s)
  | some p =>
    let (res, w) ← dbUserCreate w s p
    if res > 0 then
      let w ← send w s (ascii "ok\n")
      .ok (res, w, { s with state := .opWait, uname := some p.uname, uid := res, privileges := 1 })
    else if res = -2 then
      let w ← send w s (ascii "User with such name already exists\n")
      .ok (res, w, s)
    else if res = -3 then
      let w ← send w s (ascii "User with such email already exists\n")
      .ok (res, w, s)
    else
      let w ← send w s (ascii "Error creating the user\n")
      .ok (res, w, s)

def processUserNameWith (dbUserCreate : World → Session → DbUserCreate → M (Int × World)) (w : World) (s : Session)
    (line : Bytes) : M (Int × World × Session) := do
  if isExit line then
    let w ← send w s (ascii "Bye!")
    .ok (1, w, { s with state := .err, reason := .exit })
  else if isRegister line then createUserWith send dbUserCreate w s line
  else if isAnonymous line then
    let w ← send w s (ascii "Welcome, Anonymous!")
    .ok (3, w, { s with uname := some (ascii "anonymous"), state := .opWait })
  else
    let w ← send w s (ascii "password> ")
    .ok (0, w, { s with uname := some line, state := .opLoginPss })

/-- `login`: 0 if success, 1 if not. `atoi` reads from `response.privileges` on. -/
def loginWith (dbUserAuth : Option Bytes → Bytes → OAuth → M (Int × OAuth)) (after : Bytes) (w : World) (s : Session)
    (pass : Bytes) : M (Int × World × Session) := do
  let (_, response) ← dbUserAuth s.uname pass { privileges := 0, uid := 0 }
  if response.uid ≠ 0 then
    let uname ← deref s.uname
    let w ← send w s (welcomeText uname)
    let privileges := toChar (atoi (cstr (UInt8.ofNat (response.privileges % 256).toNat :: after)))
    .ok (0, w, { s with state := .opWait, privileges, uid := response.uid })
  else
    let w ← send w s (ascii "login_again>\n")
    .ok (1, w, { s with state := .opLoginUsr })


end

section
variable (P : Platform) (ans : Answers)

abbrev createUser := createUserWith sessionSendString (dbUserCreate P ans)

abbrev processUserName := processUserNameWith sessionSendString (dbUserCreate P ans)

abbrev login (w : World) := loginWith sessionSendString ((Database.tables P).dbUserAuth ans w) ans.after w

end

end BbsServer
