import Mathlib.Logic.Function.Basic
import BbsServer.Murmur

/-!
# The world of the server

What the handlers act on besides their session: open descriptors, the storage
folder, the working directory, the database tables, and a log of what was done,
newest first. An operation with no defined behaviour stops with a `Fault`; an answer
that the operating system or the database cannot give stops with `Halt.refused`.
-/

namespace BbsServer

open CStr Function

inductive Fault
  | nullDeref
  | overflow
  | divByZero
  deriving DecidableEq, Repr

inductive Halt
  | fault (f : Fault)
  | refused
  deriving DecidableEq, Repr

abbrev M := Except Halt

/-- What an open descriptor refers to; `removed` is a file whose name is gone. -/
inductive Handle
  | socket
  | file (path : Bytes)
  | removed
  deriving DecidableEq, Repr

inductive Dir
  | work
  | storage
  deriving DecidableEq, Repr

/-- The log: system calls on descriptors and files, what was sent, inserted rows,
and the calls of `perform_session_action`. -/
inductive Act
  | accepted (sd : Nat)
  | handled (sd : Nat) (st : SessState) (line : Option Bytes)
  | said (sd : Nat) (text : Bytes)
  | wrote (sd : Nat) (bytes : Bytes)
  | received (sd : Nat) (bytes : Bytes)
  | insertedUser (sd : Nat) (row : UserRow)
  | insertedFile (sd : Nat) (row : FileRow)
  | created (sd : Nat) (path : Bytes) (d size : Nat)
  | opened (sd : Nat) (path : Bytes) (d : Nat)
  | closed (sd d : Nat) (owned wasOpen : Bool)
  | unlinked (path : Bytes)
  deriving DecidableEq

structure World where
  fds : Nat → Option Handle
  disk : Bytes → Option Bytes
  cwd : Dir
  users : UserTable
  files : FileTable
  trace : List Act

def World.start (disk : Bytes → Option Bytes) (users : UserTable) (files : FileTable) : World :=
  { fds := fun _ => none, disk, cwd := .work, users, files, trace := [] }

/-- External code and data: OpenSSL's `SHA256`, SQLite's `LIKE`, the welcome file. -/
structure Platform where
  sha256 : Bytes → Bytes
  like : Bytes → Bytes → Bool
  welcome : Bytes
  deriving Inhabited

inductive WriteAnswer
  | failed
  | short (n : Nat)
  | full
  deriving DecidableEq, Repr

def WriteAnswer.accepted : WriteAnswer → Nat → Option Nat
  | .failed, _ => none
  | .short n, len => some (min n len)
  | .full, len => some len

inductive OpenAnswer
  | fd (d : Nat)
  | eexist
  | failed
  deriving DecidableEq, Repr

structure Probe where
  dirExists : Bool := true
  mkdir : Bool := true
  opened : OpenAnswer
  deriving DecidableEq, Repr

/-- Everything the code does not decide itself while it serves one event. `read`:
`none` is `-1`, `some []` the end of the file. `mem` is the memory from `buf` on where
`read` did not fill it, `below` the byte under the allocation of a line (by the bytes
buffered then), `after` the memory behind `o_auth_t.privileges`, `junk` the text of a
`%s` without argument; `arg1`, `arg2`, `perm` and `fullCount` are those variables
before they are set. `opened` answers `open(O_RDONLY)`, `insert` an `INSERT ...
RETURNING id`, `answered` a `SELECT`; `committed` tells whether the row of a user that an `INSERT` has
returned is still there when the statement has ended. -/
structure Answers where
  read : Option Bytes := some []
  mem : Nat → UInt8 := fun _ => 0
  below : Nat → UInt8 := fun _ => 0
  after : Bytes := []
  junk : Bytes := []
  arg1 : Bytes := []
  arg2 : Bytes := []
  perm : Int := 0
  fullCount : Int := 0
  availableSpace : Nat := 0
  nameMax : Nat := 255
  probes : List Probe := []
  opened : Option Nat := none
  write1 : WriteAnswer := .full
  write2 : WriteAnswer := .full
  insert : Option Int := none
  committed : Bool := true
  answered : Bool := true

def deref {α} : Option α → M α
  | some a => .ok a
  | none => .error (.fault .nullDeref)

def Act.isTalk : Act → Bool
  | .said .. => true
  | .wrote .. => true
  | _ => false

namespace World

def log (w : World) (a : Act) : World := { w with trace := a :: w.trace }

def close (w : World) (s : Session) (d : Nat) : World :=
  { w with
    fds := update w.fds d none
    trace := .closed s.sd d (s.sd == d || s.fd == some d) (w.fds d).isSome :: w.trace }

def closeFd (w : World) (s : Session) : World :=
  match s.fd with
  | some d => w.close s d
  | none => w

/-- `unlink(path)`; the relative path names a file only from `<work_dir>`. -/
def unlink (w : World) (path : Bytes) : World :=
  match w.cwd with
  | .work =>
    { w with
      disk := update w.disk path none
      fds := fun d => if w.fds d = some (.file path) then some .removed else w.fds d
      trace := .unlinked path :: w.trace }
  | .storage => w.log (.unlinked path)

def create (w : World) (s : Session) (path : Bytes) (d size : Nat) : M World :=
  if w.cwd = .work ∧ w.disk path = none ∧ w.fds d = none then
    .ok { w with
      fds := update w.fds d (some (.file path))
      disk := update w.disk path (some [])
      trace := .created s.sd path d size :: w.trace }
  else .error .refused

def openRead (w : World) (s : Session) (path : Bytes) (d : Nat) : M World :=
  if w.cwd = .work ∧ (w.disk path).isSome ∧ w.fds d = none then
    .ok { w with
      fds := update w.fds d (some (.file path))
      trace := .opened s.sd path d :: w.trace }
  else .error .refused

def append (w : World) (d : Option Nat) (bytes : Bytes) : World :=
  match d.bind w.fds with
  | some (.file path) => { w with disk := update w.disk path ((w.disk path).map (· ++ bytes)) }
  | _ => w

/-! ## What each operation changes -/

section
variable (w : World) (s : Session) (a : Act) (d : Option Nat) (p q : Bytes)

@[simp] theorem log_fds : (w.log a).fds = w.fds := rfl
@[simp] theorem log_disk : (w.log a).disk = w.disk := rfl
@[simp] theorem log_cwd : (w.log a).cwd = w.cwd := rfl
@[simp] theorem log_users : (w.log a).users = w.users := rfl
@[simp] theorem log_files : (w.log a).files = w.files := rfl
@[simp] theorem log_trace : (w.log a).trace = a :: w.trace := rfl

@[simp] theorem closeFd_disk : (w.closeFd s).disk = w.disk := by unfold closeFd; split <;> rfl
@[simp] theorem closeFd_cwd : (w.closeFd s).cwd = w.cwd := by unfold closeFd; split <;> rfl
@[simp] theorem closeFd_users : (w.closeFd s).users = w.users := by unfold closeFd; split <;> rfl
@[simp] theorem closeFd_files : (w.closeFd s).files = w.files := by unfold closeFd; split <;> rfl

@[simp] theorem closeFd_fds (x : Nat) : (w.closeFd s).fds x = if s.fd = some x then none else w.fds x := by
  unfold closeFd
  split
  · rename_i y hy
    by_cases h : y = x
    · simp [close, hy, h]
    · simp [close, hy, h, update_of_ne (Ne.symm h)]
  · rename_i hy; simp [hy]

@[simp] theorem unlink_cwd : (w.unlink p).cwd = w.cwd := by unfold unlink; split <;> simp [*]
@[simp] theorem unlink_users : (w.unlink p).users = w.users := by unfold unlink; split <;> rfl
@[simp] theorem unlink_files : (w.unlink p).files = w.files := by unfold unlink; split <;> rfl
@[simp] theorem unlink_trace : (w.unlink p).trace = .unlinked p :: w.trace := by unfold unlink; split <;> rfl

@[simp] theorem unlink_disk : (w.unlink p).disk q = if w.cwd = .work ∧ q = p then none else w.disk q := by
  unfold unlink
  split
  · rename_i hc
    by_cases h : q = p
    · simp [hc, h]
    · simp [h]
  · rename_i hc; simp [hc]

@[simp] theorem unlink_fds (x : Nat) : (w.unlink p).fds x =
    if w.cwd = .work ∧ w.fds x = some (.file p) then some .removed else w.fds x := by
  unfold unlink
  split
  · rename_i hc; simp [hc]
  · rename_i hc; simp [hc]

@[simp] theorem append_fds (b : Bytes) : (w.append d b).fds = w.fds := by unfold append; split <;> rfl
@[simp] theorem append_cwd (b : Bytes) : (w.append d b).cwd = w.cwd := by unfold append; split <;> rfl
@[simp] theorem append_users (b : Bytes) : (w.append d b).users = w.users := by unfold append; split <;> rfl
@[simp] theorem append_files (b : Bytes) : (w.append d b).files = w.files := by unfold append; split <;> rfl
@[simp] theorem append_trace (b : Bytes) : (w.append d b).trace = w.trace := by unfold append; split <;> rfl

theorem append_disk (b : Bytes) : (w.append d b).disk q =
    if d.bind w.fds = some (.file q) then (w.disk q).map (· ++ b) else w.disk q := by
  unfold append
  split
  · rename_i y hy
    by_cases h : q = y
    · simp [hy, h]
    · simp [hy, update_of_ne h, Ne.symm h]
  · rename_i hy
    rw [if_neg (fun h => hy q h)]

theorem append_isSome (b : Bytes) : ((w.append d b).disk q).isSome = (w.disk q).isSome := by
  rw [append_disk]
  split <;> simp

@[simp] theorem append_nil : w.append d [] = w := by
  unfold append
  split <;> simp

theorem append_append (a b : Bytes) : (w.append d a).append d b = w.append d (a ++ b) := by
  unfold append
  cases h : d.bind w.fds with
  | none => simp [h]
  | some x => cases x <;> simp [h, Function.comp_def]

end

theorem create_ok {w w' : World} {s : Session} {p : Bytes} {d size : Nat} (h : w.create s p d size = .ok w') :
    (w.cwd = .work ∧ w.disk p = none ∧ w.fds d = none) ∧ w' = { w with
      fds := update w.fds d (some (.file p))
      disk := update w.disk p (some [])
      trace := .created s.sd p d size :: w.trace } := by
  unfold create at h
  split at h
  · rename_i hc; cases h; exact ⟨hc, rfl⟩
  · cases h

theorem create_content {w w' : World} {s : Session} {p : Bytes} {d size : Nat} (h : w.create s p d size = .ok w') :
    w'.disk p = some [] := by
  obtain ⟨-, rfl⟩ := create_ok h
  exact update_self ..

theorem openRead_ok {w w' : World} {s : Session} {p : Bytes} {d : Nat} (h : w.openRead s p d = .ok w') :
    (w.cwd = .work ∧ (w.disk p).isSome ∧ w.fds d = none) ∧ w' = { w with
      fds := update w.fds d (some (.file p))
      trace := .opened s.sd p d :: w.trace } := by
  unfold openRead at h
  split at h
  · rename_i hc; cases h; exact ⟨hc, rfl⟩
  · cases h

theorem create_fds {w w' : World} {s : Session} {p : Bytes} {d size x : Nat} {k : Handle}
    (h : w.create s p d size = .ok w') (hx : w.fds x = some k) : w'.fds x = some k := by
  obtain ⟨⟨-, -, hd⟩, rfl⟩ := create_ok h
  show update w.fds d _ x = some k
  rw [update_of_ne (by rintro rfl; rw [hx] at hd; cases hd), hx]

theorem openRead_fds {w w' : World} {s : Session} {p : Bytes} {d x : Nat} {k : Handle}
    (h : w.openRead s p d = .ok w') (hx : w.fds x = some k) : w'.fds x = some k := by
  obtain ⟨⟨-, -, hd⟩, rfl⟩ := openRead_ok h
  show update w.fds d _ x = some k
  rw [update_of_ne (by rintro rfl; rw [hx] at hd; cases hd), hx]

theorem create_disk {w w' : World} {s : Session} {p q : Bytes} {d size : Nat}
    (h : w.create s p d size = .ok w') (hq : (w.disk q).isSome) : w'.disk q = w.disk q := by
  obtain ⟨⟨-, hp, -⟩, rfl⟩ := create_ok h
  show update w.disk p _ q = _
  rw [update_of_ne (by rintro rfl; rw [hp] at hq; cases hq)]

theorem openRead_disk {w w' : World} {s : Session} {p : Bytes} {d : Nat} (h : w.openRead s p d = .ok w') :
    w'.disk = w.disk := by
  obtain ⟨-, rfl⟩ := openRead_ok h; rfl

end World

/-- `w'` differs from `w` only by what was sent to clients. -/
def Talks (w w' : World) : Prop :=
  ∃ acts : List Act, (∀ a ∈ acts, a.isTalk) ∧ w' = { w with trace := acts ++ w.trace }

namespace Talks

theorem refl (w : World) : Talks w w := ⟨[], by simp, rfl⟩

theorem trans {a b c : World} (h : Talks a b) (h' : Talks b c) : Talks a c := by
  obtain ⟨x, hx, rfl⟩ := h
  obtain ⟨y, hy, rfl⟩ := h'
  refine ⟨y ++ x, ?_, by simp⟩
  intro z hz
  rcases List.mem_append.mp hz with hz | hz
  · exact hy z hz
  · exact hx z hz

theorem log {w : World} {a : Act} (h : a.isTalk) : Talks w (w.log a) := ⟨[a], by simpa using h, rfl⟩

variable {w w' : World} (h : Talks w w')
include h

theorem fds : w'.fds = w.fds := by obtain ⟨_, _, rfl⟩ := h; rfl
theorem disk : w'.disk = w.disk := by obtain ⟨_, _, rfl⟩ := h; rfl
theorem cwd : w'.cwd = w.cwd := by obtain ⟨_, _, rfl⟩ := h; rfl
theorem users : w'.users = w.users := by obtain ⟨_, _, rfl⟩ := h; rfl
theorem files : w'.files = w.files := by obtain ⟨_, _, rfl⟩ := h; rfl

end Talks

/-- `session_send_string`: the formatted text and its NUL must fit `buf[INBUFSIZE]`. -/
def sessionSendString (w : World) (s : Session) (text : Bytes) : M World :=
  if text.length < inBufSize then .ok (w.log (.said s.sd text)) else .error (.fault .overflow)

abbrev SendString := World → Session → Bytes → M World

def writeText (w : World) (s : Session) (text : Bytes) : World := w.log (.wrote s.sd text)

def writeTexts (w : World) (s : Session) (texts : List Bytes) : World := texts.foldl (writeText · s ·) w

theorem writeTexts_eq {w : World} {s : Session} : ∀ {texts : List Bytes}, writeTexts w s texts =
    { w with trace := (texts.map (.wrote s.sd)).reverse ++ w.trace }
  | [] => rfl
  | t :: texts => by
    show writeTexts (writeText w s t) s texts = _
    rw [writeTexts_eq]
    simp [writeText, World.log]

theorem writeTexts_talks {w : World} {s : Session} {texts : List Bytes} : Talks w (writeTexts w s texts) := by
  refine ⟨(texts.map (.wrote s.sd)).reverse, fun a ha => ?_, writeTexts_eq⟩
  obtain ⟨t, -, rfl⟩ := List.mem_map.mp (List.mem_reverse.mp ha)
  rfl

theorem sessionSendString_ok {w w' : World} {s : Session} {text : Bytes} (h : sessionSendString w s text = .ok w') :
    w' = w.log (.said s.sd text) ∧ text.length < inBufSize := by
  unfold sessionSendString at h
  split at h
  · rename_i ht; cases h; exact ⟨rfl, ht⟩
  · cases h

theorem sessionSendString_talks {w w' : World} {s : Session} {text : Bytes}
    (h : sessionSendString w s text = .ok w') :
    Talks w w' := by
  rw [(sessionSendString_ok h).1]; exact Talks.log rfl

theorem bind_ok {α β} {x : M α} {f : α → M β} {b : β} :
    (x >>= f) = .ok b ↔ ∃ a, x = .ok a ∧ f a = .ok b := by
  cases x <;> simp [bind, Except.bind]

@[simp] theorem ok_bind {α β} (a : α) (f : α → M β) : ((Except.ok a : M α) >>= f) = f a := rfl

theorem deref_ok {α} {x : Option α} {a : α} : deref x = .ok a ↔ x = some a := by
  cases x <;> simp [deref]

end BbsServer
