import BbsServer.LogFile
import BbsServer.Poll
import BbsServer.WelcomeSound

/-!
# The process

`main`, call by call: the start, `set_signals`, and the iterations of `server_main_loop`, with the signals that
come at any time. A `Signal` is one that `set_signals` handles; any other that ends a process, from outside or for
what the code does, strikes it where it is.
-/

namespace BbsServer

open CStr Runs

inductive Signal
  | sigint
  | sigterm
  deriving DecidableEq, Repr

def Signal.number : Signal → Nat
  | .sigint => 2
  | .sigterm => 15

/-- A process ends by `exit`, or is killed by a signal that has no handler yet or never has one. -/
inductive Ending
  | exit (status : Nat)
  | killed (sig : Signal)
  | struck (number : Nat)
  deriving DecidableEq, Repr

/-- What `main` calls next; the three calls of `set_signals` are apart. -/
inductive Stage
  | prepareStart
  | getWelcomeMes
  | initDbConnection
  | startServer
  | initLogFile
  | signalInt
  | signalTerm
  | sigprocmask
  | pselect
  deriving DecidableEq, Repr

structure Process where
  stage : Stage
  ended : Option Ending
  shutdownRequested : Bool
  signalReceived : Nat
  pending : List Signal
  ls : Nat
  welcome : Bytes
  dbOpen : Bool
  logs : LogFiles
  server : Server

def Process.initial (t : Store) (logs : LogFiles) : Process :=
  { stage := .prepareStart, ended := none, shutdownRequested := false, signalReceived := 0, pending := [], ls := 0,
    welcome := [],
    dbOpen := false, logs, server := t.server }

/-! ## The start -/

def prepareStart (argc : Nat) (chdir directoryExists mkdir : Bool) : Except Nat Unit :=
  if argc < 2 then .error 1
  else if ¬ chdir then .error 2
  else if ¬ directoryExists ∧ ¬ mkdir then .error 8
  else .ok ()

def startServer (socket : Option Nat) (setsockopt bind listen : Bool) : Except Nat Nat :=
  match socket with
  | none => .error 3
  | some ls => if ¬ setsockopt then .error 4 else if ¬ bind then .error 5 else if ¬ listen then .error 6 else .ok ls

def openWelcomeMes : Option Bytes → WelcomeMes
  | none => .exit 7
  | some file => getWelcomeMes file

def Process.exit (p : Process) (status : Nat) : Process := { p with ended := some (.exit status) }

def Process.after {α : Type} (p : Process) (next : α → Process) : Except Nat α → Process
  | .error status => p.exit status
  | .ok a => next a

/-! ## Signals -/

def termIntHandler (p : Process) (sig : Signal) : Process :=
  { p with shutdownRequested := true, signalReceived := sig.number }

def Stage.handles : Stage → Signal → Bool
  | .signalTerm, sig => sig = .sigint
  | .sigprocmask, _ | .pselect, _ => true
  | _, _ => false

/-- A signal outside `pselect`; it is blocked after `set_signals`. -/
def Process.raise (p : Process) (sig : Signal) : Process :=
  if p.stage = .pselect then { p with pending := if sig ∈ p.pending then p.pending else p.pending ++ [sig] }
  else if p.stage.handles sig then termIntHandler p sig
  else { p with ended := some (.killed sig) }

/-- `pselect` while the signals `handled` are delivered, pending ones or new ones. -/
def Process.pselect (p : Process) (handled : List Signal) : Process :=
  handled.foldl termIntHandler { p with pending := p.pending.filter (· ∉ handled) }

/-! ## Steps -/

inductive Happening
  | raised (sig : Signal)
  | struck (number : Nat)
  | prints (written : Bytes)
  | prepareStart (argc : Nat) (chdir directoryExists mkdir : Bool)
  | getWelcomeMes (file : Option Bytes)
  | initDbConnection
  | startServer (socket : Option Nat) (setsockopt bind listen : Bool)
  | initLogFile (ans : LogAnswers)
  | signalInt
  | signalTerm
  | sigprocmask
  | pselect (handled : List Signal) (readfds : Option (Nat → Bool))

def Platform.greets (P : Platform) (welcome : Bytes) : Platform := { P with welcome }

/-- A step of a process that has not ended. The result `none` of `pselect` is -1. -/
inductive Process.Step (P : Platform) (p : Process) : Happening → Process → Prop
  | raised {sig} : p.ended = none → Step P p (.raised sig) (p.raise sig)
  | struck {number} : p.ended = none → (∀ sig : Signal, number ≠ sig.number) →
    Step P p (.struck number) { p with ended := some (.struck number) }
  | prints {written} : p.ended = none → Step P p (.prints written) { p with logs := p.logs.print written }
  | prepareStart {argc chdir directoryExists mkdir} : p.ended = none → p.stage = .prepareStart →
    Step P p (.prepareStart argc chdir directoryExists mkdir)
      (p.after (fun _ => { p with stage := .getWelcomeMes }) (prepareStart argc chdir directoryExists mkdir))
  | noWelcome {file status} : p.ended = none → p.stage = .getWelcomeMes → openWelcomeMes file = .exit status →
    Step P p (.getWelcomeMes file) (p.exit status)
  | welcome {file mem text} : p.ended = none → p.stage = .getWelcomeMes → openWelcomeMes file = .message mem →
    Block.gets mem = some text → Step P p (.getWelcomeMes file) { p with stage := .initDbConnection, welcome := text }
  | initDbConnection : p.ended = none → p.stage = .initDbConnection →
    Step P p .initDbConnection { p with stage := .startServer, dbOpen := true }
  | startServer {socket setsockopt bind listen} : p.ended = none → p.stage = .startServer →
    Step P p (.startServer socket setsockopt bind listen)
      (p.after (fun ls => { p with stage := .initLogFile, ls }) (startServer socket setsockopt bind listen))
  | initLogFile {ans} : p.ended = none → p.stage = .initLogFile →
    Step P p (.initLogFile ans) { p with stage := .signalInt, logs := BbsServer.initLogFile ans p.logs }
  | signalInt : p.ended = none → p.stage = .signalInt → Step P p .signalInt { p with stage := .signalTerm }
  | signalTerm : p.ended = none → p.stage = .signalTerm → Step P p .signalTerm { p with stage := .sigprocmask }
  | sigprocmask : p.ended = none → p.stage = .sigprocmask → Step P p .sigprocmask { p with stage := .pselect }
  | stops {handled readfds} : p.ended = none → p.stage = .pselect → (p.pselect handled).shutdownRequested →
    Step P p (.pselect handled readfds) ({ p.pselect handled with dbOpen := false }.exit (p.pselect handled).signalReceived)
  | fails {handled} : p.ended = none → p.stage = .pselect → (p.pselect handled).shutdownRequested = false →
    Step P p (.pselect handled none) ((p.pselect handled).exit 6)
  | iterates {handled r as v} : p.ended = none → p.stage = .pselect → (p.pselect handled).shutdownRequested = false →
    (∀ d, r d → d ∈ (pollLoop p.ls p.server).readfds) → Iterates (P.greets p.welcome) p.ls r p.server as v →
    Step P p (.pselect handled (some r)) { p.pselect handled with server := v }

end BbsServer
