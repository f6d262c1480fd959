import BbsServer.World

/-!
# The log file

`init_log_file` of `utils.c` in the working directory, and what `print_log` adds to the file. `print_log` hands
`vdprintf` the `va_list` that `vfprintf` has used: what that writes is what was printed only if the format has no
conversion.
-/

namespace BbsServer

open CStr

/-- `file.fd`: 0 from the start, the log, or what was in a variable that is never set. -/
inductive LogFd
  | zero
  | log
  | unset
  deriving DecidableEq, Repr

/-- The files `bbs-server.log` and `bbs-server.log.old`; `strayClose` tells whether a variable that is never set
was closed. -/
structure LogFiles where
  log : Option Bytes
  old : Option Bytes
  fd : LogFd
  strayClose : Bool
  deriving DecidableEq

def LogFiles.found (log old : Option Bytes) : LogFiles := { log, old, fd := .zero, strayClose := false }

inductive LogOpen
  | opened
  | eexist
  | failed
  deriving DecidableEq, Repr

def openLogFile (can : Bool) (file : Option Bytes) : LogOpen × Option Bytes :=
  if can then
    match file with
    | some content => (.eexist, some content)
    | none => (.opened, some [])
  else (.failed, file)

structure LogAnswers where
  first : Bool := true
  backup : Bool := true
  unlink : Bool := true
  rename : Bool := true
  again : Bool := true

def initLogFile (ans : LogAnswers) (l : LogFiles) : LogFiles :=
  let (res, log) := openLogFile ans.first l.log
  match res with
  | .opened => { l with log, fd := .log }
  | .failed => { l with log, fd := .unset }
  | .eexist =>
    let (res, old) := openLogFile ans.backup l.old
    let old := if res = .eexist ∧ ans.unlink then none else old
    let strayClose := l.strayClose || res = .failed
    let (log, old) := if ans.rename then (none, log) else (log, old)
    let (res, log) := openLogFile ans.again log
    if res = .opened then { log, old, fd := .log, strayClose } else { log, old, fd := l.fd, strayClose }

/-- `write_into_log_file`, where `vdprintf` makes `written` of the format and the list. -/
def LogFiles.print (l : LogFiles) (written : Bytes) : LogFiles :=
  if l.fd = .log then { l with log := l.log.map (· ++ written) } else l

/-- The log is a new file, and the one before it is the old one now. -/
structure LogFiles.Rotated (l l' : LogFiles) : Prop where
  log : l'.log = some []
  old : l'.old = l.log.or l.old
  fd : l'.fd = .log

theorem initLogFile_rotated {ans : LogAnswers} {l : LogFiles} (h0 : l.fd = .zero) :
    l.Rotated (initLogFile ans l) ↔ ans.first ∧ (l.log.isSome → ans.rename ∧ ans.again) := by
  obtain ⟨log, old, fd, strayClose⟩ := l
  obtain ⟨first, backup, unlink, rename, again⟩ := ans
  obtain rfl : fd = .zero := h0
  cases first with
  | false => exact iff_of_false (fun h => by cases h.fd) fun h => by cases h.1
  | true =>
    cases log with
    | none => exact iff_of_true ⟨rfl, rfl, rfl⟩ ⟨rfl, nofun⟩
    | some content =>
      cases rename with
      | false =>
        refine iff_of_false (fun h => ?_) fun h => by cases (h.2 rfl).1
        cases again <;> cases h.fd
      | true =>
        cases again with
        | false => exact iff_of_false (fun h => by cases h.fd) fun h => by cases (h.2 rfl).2
        | true => exact iff_of_true ⟨rfl, rfl, rfl⟩ ⟨rfl, fun _ => ⟨rfl, rfl⟩⟩

end BbsServer
