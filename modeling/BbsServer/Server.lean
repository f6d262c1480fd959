import BbsServer.Session
import BbsServer.Lib.Run

/-!
# Main loop

`server_main_loop`: the connection table and what one readiness does. A run is a
sequence of events; every iteration of the loop serves some of them, an accept before
the slots, in any combination that `pselect` reports.
-/

namespace BbsServer

open CStr Function Runs

structure Server where
  world : World
  connections : Nat → Option Session

/-- An event: `accept` answered with a new descriptor and the memory for the session
had these bytes, `accept` failed, or slot `i` is ready and is served. -/
inductive Event
  | accept (sd : Nat) (uid privileges : Int)
  | acceptFailed
  | ready (i : Nat) (ans : Answers)

/-- The row of a user that an `INSERT` returns in this event is committed. -/
def Event.Commits : Event → Prop
  | .ready _ ans => ans.committed = true
  | _ => True

instance : ∀ e : Event, Decidable e.Commits
  | .accept .. => .isTrue trivial
  | .acceptFailed => .isTrue trivial
  | .ready .. => inferInstanceAs (Decidable (_ = true))

def Server.set (v : Server) (i : Nat) (w : World) (s : Option Session) : Server :=
  { world := w, connections := update v.connections i s }

/-- `accept_client`. A descriptor from `MAX_CONNECTIONS` on is stored outside the table. -/
def acceptClientWith (send : SendString) (P : Platform) (v : Server) (sd : Nat)
    (uid privileges : Int) : M Server := do
  if v.world.fds sd ≠ none then .error .refused
  else if maxConnections ≤ sd then .error (.fault .overflow)
  else
    let w := { v.world with fds := update v.world.fds sd (some .socket), trace := .accepted sd :: v.world.trace }
    let (w, s) ← makeNewSessionWith send P w sd uid privileges
    .ok (v.set sd w (some s))

def serveSessionWith (send : SendString) (D : Database) (ans : Answers) (v : Server) (i : Nat)
    (s : Session) : M Server := do
  if s.state = .opUpload ∨ s.state = .opDownload then
    if s.fd.isSome then
      let (w, s) ← performSessionActionWith send D ans v.world s none
      .ok (v.set i w (some s))
    else .ok v
  else
    let (res, line, w, s) ← sessionDoReadWith send ans v.world s
    if res then
      let (w, s) ← performSessionActionWith send D ans w s line
      if s.state = .err then .ok (v.set i (closeSession w s i) none) else .ok (v.set i w (some s))
    else .ok (v.set i (closeSession w s i) none)

def Server.stepWith (send : SendString) (D : Database) (P : Platform) (v : Server) : Event → M Server
  | .accept sd uid privileges => acceptClientWith send P v sd uid privileges
  | .acceptFailed => .ok v
  | .ready i ans =>
    match v.connections i with
    | none => .ok v
    | some s => serveSessionWith send D ans v i s

abbrev acceptClient := acceptClientWith sessionSendString

abbrev serveSession (P : Platform) := serveSessionWith sessionSendString (.tables P)

def Server.step (P : Platform) (v : Server) (e : Event) : M Server := v.stepWith sessionSendString (.tables P) P e

def Server.start (disk : Bytes → Option Bytes) (users : UserTable) (files : FileTable) : Server :=
  { world := .start disk users files, connections := fun _ => none }

structure Store where
  disk : Bytes → Option Bytes
  users : UserTable
  files : FileTable

def Store.server (t : Store) : Server := .start t.disk t.users t.files

def Server.store (v : Server) : Store := { disk := v.world.disk, users := v.world.users, files := v.world.files }

def UserTable.bob : UserTable :=
  { rows := [⟨1, ascii "bob", [], ascii "b@b", 1⟩]
    ids := by decide, names := by decide, emails := by decide, idRange := by decide }

def UserTable.alice : UserTable :=
  { rows := [⟨1, ascii "alice", [], ascii "a@b", 1⟩]
    ids := by decide, names := by decide, emails := by decide, idRange := by decide }

def Server.fresh : Server := .start (fun _ => none) .empty .empty

def Steps (P : Platform) (v : Server) (e : Event) (v' : Server) : Prop := v.step P e = .ok v'

theorem Steps.det {P : Platform} (v : Server) (e : Event) (v₁ v₂ : Server) (h : Steps P v e v₁)
    (h' : Steps P v e v₂) :
    v₁ = v₂ :=
  Except.ok.inj ((show v.step P e = .ok v₁ from h).symm.trans h')

theorem any_ok {α : Type} {x : M α} {p : α → Bool} (h : x.toOption.any p = true) : ∃ a, x = .ok a ∧ p a = true := by
  cases x with
  | error => cases h
  | ok a => exact ⟨a, rfl, h⟩

theorem Steps.of_toOption {P : Platform} {v v' : Server} {e : Event} (h : (v.step P e).toOption = some v') :
    Steps P v e v' := by
  unfold Steps
  cases hx : v.step P e with
  | error => rw [hx] at h; cases h
  | ok => rw [hx] at h; cases h; rfl

def Server.exec (ok : Server → Event → Prop) [∀ v e, Decidable (ok v e)] (P : Platform) :
    Server → List Event → Option Server :=
  Runs.exec fun v e => if ok v e then (v.step P e).toOption else none

theorem Server.exec_run {ok : Server → Event → Prop} [∀ v e, Decidable (ok v e)] {P : Platform} {v v' : Server}
    {es : List Event} (h : Server.exec ok P v es = some v') : Run (Guarded ok (Steps P)) v es v' := by
  refine Run.of_exec (fun a e b hf => ?_) h
  split at hf
  · rename_i ha
    exact ⟨ha, .of_toOption hf⟩
  · cases hf

end BbsServer
