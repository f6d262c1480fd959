import Mathlib.Data.List.Induction
import BbsServer.Process

/-!
# The end of the process

A signal is noticed between two iterations: nothing is served after one has been handled (`shutdown_clean`). It is
noticed late exactly if it comes between two calls of `set_signals` (`shutdown_late_iff`).
-/

namespace BbsServer

open CStr Runs

def Round (P : Platform) (ls : Nat) (v : Server) (r : Nat → Bool) (v' : Server) : Prop :=
  ∃ as, Iterates P ls r v as v'

section
variable {P : Platform} {p p' : Process} {t : Store} {logs : LogFiles} {h : Happening} {hs : List Happening}
  {v v' : Server}
  {sig : Signal} {handled : List Signal}

/-! ## Iterations -/

theorem passes_run {r : Nat → Bool} {is : List Nat} {as : List Service} (hp : Passes P r is v as v') :
    ∃ es, Run (Steps P) v es v' := by
  induction hp with
  | nil => exact ⟨[], .nil⟩
  | skip _ _ ih => exact ih
  | serve _ hs _ ih =>
    obtain ⟨es, r⟩ := ih
    exact ⟨_ :: es, .cons hs r⟩

theorem iterates_run {ls : Nat} {r : Nat → Bool} {as : List Service} (hi : Iterates P ls r v as v') :
    ∃ es, Run (Steps P) v es v' := by
  cases hi with
  | quiet _ hp => exact passes_run hp
  | failed _ hp => exact passes_run hp
  | accepts _ _ hs hp =>
    obtain ⟨es, r⟩ := passes_run hp
    exact ⟨_ :: es, .cons hs r⟩

theorem begins_run {ls n : Nat} {r : Nat → Bool} (hb : Begins P ls r v n v') : ∃ es, Run (Steps P) v es v' := by
  cases hb with
  | passes _ hp => exact passes_run hp
  | accepts _ _ _ hs hp =>
    obtain ⟨es, r⟩ := passes_run hp
    exact ⟨_ :: es, .cons hs r⟩

theorem rounds_run {ls : Nat} {rs : List (Nat → Bool)} (r : Run (Round P ls) v rs v') :
    ∃ es, Run (Steps P) v es v' := by
  induction r with
  | nil => exact ⟨[], .nil⟩
  | snoc _ hs ih =>
    obtain ⟨es, r⟩ := ih
    obtain ⟨as, hi⟩ := hs
    obtain ⟨fs, r'⟩ := iterates_run hi
    exact ⟨es ++ fs, r.append r'⟩

/-! ## Signals -/

theorem handlers_eq (p : Process) (handled : List Signal) : handled.foldl termIntHandler p =
    { p with
      shutdownRequested := p.shutdownRequested || handled ≠ []
      signalReceived := (handled.getLast?.map Signal.number).getD p.signalReceived } := by
  induction handled using List.reverseRecOn with
  | nil => simp
  | append_singleton l sig ih => simp [ih, termIntHandler]

theorem pselect_eq (p : Process) (handled : List Signal) : p.pselect handled =
    { p with
      pending := p.pending.filter (· ∉ handled)
      shutdownRequested := p.shutdownRequested || handled ≠ []
      signalReceived := (handled.getLast?.map Signal.number).getD p.signalReceived } := handlers_eq _ _

@[simp] theorem pselect_requested : (p.pselect handled).shutdownRequested =
    (p.shutdownRequested || handled ≠ []) := by
  rw [pselect_eq]

@[simp] theorem pselect_server : (p.pselect handled).server = p.server := by rw [pselect_eq]

@[simp] theorem pselect_stage : (p.pselect handled).stage = p.stage := by rw [pselect_eq]

@[simp] theorem pselect_ended : (p.pselect handled).ended = p.ended := by rw [pselect_eq]

theorem raise_cases (p : Process) (sig : Signal) :
    (p.stage = .pselect ∧ ∃ pending, p.raise sig = { p with pending }) ∨
    (p.stage ≠ .pselect ∧ p.stage.handles sig ∧ p.raise sig = termIntHandler p sig) ∨
    (p.stage ≠ .pselect ∧ p.stage.handles sig = false ∧ p.raise sig = { p with ended := some (.killed sig) }) := by
  unfold Process.raise
  split
  · exact .inl ⟨‹_›, _, rfl⟩
  · rename_i hst
    split
    · exact .inr (.inl ⟨hst, ‹_›, rfl⟩)
    · exact .inr (.inr ⟨hst, Bool.eq_false_iff.mpr ‹_›, rfl⟩)

theorem Process.Step.alive (hs : Process.Step P p h p') : p.ended = none := by cases hs <;> assumption

/-! ## What holds at any time -/

/-- A process of the store `t`. -/
structure Process.Orderly (P : Platform) (t : Store) (p : Process) : Prop where
  rounds : ∃ rs, Run (Round (P.greets p.welcome) p.ls) t.server rs p.server
  start : p.stage ≠ .pselect → p.server = t.server
  requested : p.shutdownRequested → p.stage.handles .sigint ∧ ∃ sig, p.signalReceived = Signal.number sig
  killed : ∀ sig, p.ended = some (.killed sig) → p.stage ≠ .pselect
  exit : ∀ n, p.ended = some (.exit n) →
    if p.shutdownRequested then n = p.signalReceived ∧ p.dbOpen = false else 1 ≤ n ∧ n ≤ 8

theorem initial_orderly : (Process.initial t logs).Orderly P t where
  rounds := ⟨[], .nil⟩
  start := fun _ => rfl
  requested := fun h => by cases h
  killed := fun _ h => by cases h
  exit := fun _ h => by cases h

theorem Process.Orderly.next (ho : p.Orderly P t) (hst : p.stage ≠ .pselect) (ha' : p'.ended = none)
    (hserver : p'.server = p.server) (hreq : p'.shutdownRequested = p.shutdownRequested)
    (hsig : p'.signalReceived = p.signalReceived) (hhandles : p.stage.handles .sigint → p'.stage.handles .sigint) :
    p'.Orderly P t where
  rounds := ⟨[], by rw [hserver, ho.start hst]; exact .nil⟩
  start := fun _ => hserver.trans (ho.start hst)
  requested := fun h => by
    rw [hreq] at h
    exact ⟨hhandles (ho.requested h).1, hsig ▸ (ho.requested h).2⟩
  killed := fun _ h => by rw [ha'] at h; cases h
  exit := fun _ h => by rw [ha'] at h; cases h

theorem Process.Orderly.fails (ho : p.Orderly P t) (hst : p.stage.handles .sigint = false) {n : Nat} (h1 : 1 ≤ n)
    (h8 : n ≤ 8) :
    (p.exit n).Orderly P t where
  rounds := ho.rounds
  start := ho.start
  requested := ho.requested
  killed := fun _ h => by cases h
  exit := by
    rintro m h
    cases h
    have hreq : p.shutdownRequested = false := by
      rw [Bool.eq_false_iff]
      intro hr
      rw [(ho.requested hr).1] at hst
      cases hst
    rw [if_neg (by simp [Process.exit, hreq])]
    exact ⟨h1, h8⟩

theorem prepareStart_error {argc n : Nat} {chdir directoryExists mkdir : Bool}
    (h : prepareStart argc chdir directoryExists mkdir = .error n) : 1 ≤ n ∧ n ≤ 8 := by
  unfold prepareStart at h
  split at h
  · cases h; decide
  · split at h
    · cases h; decide
    · split at h
      · cases h; decide
      · cases h

theorem startServer_error {socket : Option Nat} {n : Nat} {setsockopt bind listen : Bool}
    (h : startServer socket setsockopt bind listen = .error n) : 1 ≤ n ∧ n ≤ 8 := by
  unfold startServer at h
  split at h
  · cases h; decide
  · split at h
    · cases h; decide
    · split at h
      · cases h; decide
      · split at h
        · cases h; decide
        · cases h

theorem putMark_exit {filesize : Int} {mapped : Option Bytes} {n : Nat} (h : putMark filesize mapped = .exit n) :
    n = 5 := by
  unfold putMark at h
  split at h
  · cases h
    rfl
  · split at h <;> cases h

theorem openWelcomeMes_exit {file : Option Bytes} {n : Nat} (h : openWelcomeMes file = .exit n) : 1 ≤ n ∧ n ≤ 8 := by
  cases file with
  | none =>
    cases h
    decide
  | some file =>
    rw [openWelcomeMes, getWelcomeMes] at h
    have := putMark_exit h
    omega

/-- A request comes from a signal. -/
theorem Process.Orderly.selected (ho : p.Orderly P t) (h : (p.pselect handled).shutdownRequested) :
    ∃ sig, (p.pselect handled).signalReceived = Signal.number sig := by
  rw [pselect_eq]
  cases hlast : handled.getLast? with
  | some sig => exact ⟨sig, rfl⟩
  | none =>
    rw [pselect_requested, List.getLast?_eq_none_iff.mp hlast, Bool.or_eq_true] at h
    exact (ho.requested (h.resolve_right (by simp))).2

theorem Process.Orderly.step (ho : p.Orderly P t) (hs : Process.Step P p h p') : p'.Orderly P t := by
  cases hs with
  | @raised sig ha =>
    rcases raise_cases p sig with ⟨hst, pending, heq⟩ | ⟨hst, hh, heq⟩ | ⟨hst, -, heq⟩
    · rw [heq]
      exact ⟨ho.rounds, ho.start, ho.requested, ho.killed, ho.exit⟩
    · rw [heq]
      refine ⟨ho.rounds, ho.start, fun _ => ⟨?_, sig, rfl⟩, fun _ he => ?_, fun _ he => ?_⟩
      · show p.stage.handles .sigint = true
        revert hh
        cases p.stage <;> simp [Stage.handles]
      · rw [show p.ended = _ from he] at ha
        cases ha
      · rw [show p.ended = _ from he] at ha
        cases ha
    · rw [heq]
      exact ⟨ho.rounds, ho.start, ho.requested, fun _ _ => hst, fun _ he => by cases he⟩
  | struck => exact ⟨ho.rounds, ho.start, ho.requested, nofun, nofun⟩
  | prints ha => exact ⟨ho.rounds, ho.start, ho.requested, ho.killed, ho.exit⟩
  | @prepareStart argc chdir directoryExists mkdir ha hst =>
    cases hr : BbsServer.prepareStart argc chdir directoryExists mkdir with
    | error n => exact ho.fails (by rw [hst]; rfl) (prepareStart_error hr).1 (prepareStart_error hr).2
    | ok => exact ho.next (by rw [hst]; decide) ha rfl rfl rfl (by rw [hst]; nofun)
  | noWelcome ha hst hr => exact ho.fails (by rw [hst]; rfl) (openWelcomeMes_exit hr).1 (openWelcomeMes_exit hr).2
  | welcome ha hst => exact ho.next (by rw [hst]; decide) ha rfl rfl rfl (by rw [hst]; nofun)
  | initDbConnection ha hst => exact ho.next (by rw [hst]; decide) ha rfl rfl rfl (by rw [hst]; nofun)
  | @startServer socket setsockopt bind listen ha hst =>
    cases hr : BbsServer.startServer socket setsockopt bind listen with
    | error n => exact ho.fails (by rw [hst]; rfl) (startServer_error hr).1 (startServer_error hr).2
    | ok => exact ho.next (by rw [hst]; decide) ha rfl rfl rfl (by rw [hst]; nofun)
  | initLogFile ha hst => exact ho.next (by rw [hst]; decide) ha rfl rfl rfl (by rw [hst]; nofun)
  | signalInt ha hst => exact ho.next (by rw [hst]; decide) ha rfl rfl rfl fun _ => rfl
  | signalTerm ha hst => exact ho.next (by rw [hst]; decide) ha rfl rfl rfl fun _ => rfl
  | sigprocmask ha hst => exact ho.next (by rw [hst]; decide) ha rfl rfl rfl fun _ => rfl
  | @stops handled readfds ha hst hreq =>
    refine ⟨?_, fun hne => absurd (pselect_stage.trans hst) hne, fun _ => ⟨?_, ho.selected hreq⟩,
      fun _ h => (by cases h), ?_⟩
    · rw [pselect_eq]
      exact ho.rounds
    · show (p.pselect handled).stage.handles .sigint = true
      rw [pselect_stage, hst]
      rfl
    · rintro n h
      cases h
      rw [if_pos (by exact hreq)]
      exact ⟨rfl, rfl⟩
  | @fails handled ha hst hreq =>
    refine ⟨?_, fun hne => absurd (pselect_stage.trans hst) hne, fun h => ?_, fun _ h => (by cases h), ?_⟩
    · rw [pselect_eq]
      exact ho.rounds
    · rw [show (p.pselect handled).shutdownRequested = true from h] at hreq
      cases hreq
    · rintro n h
      cases h
      rw [if_neg (by exact Bool.eq_false_iff.mp hreq)]
      decide
  | @iterates handled r as v ha hst hreq hr hi =>
    have hended : (p.pselect handled).ended = none := pselect_ended.trans ha
    refine ⟨?_, fun hne => absurd (pselect_stage.trans hst) hne, fun h => ?_, fun _ h => ?_, fun _ h => ?_⟩
    · obtain ⟨rs, hrun⟩ := ho.rounds
      rw [pselect_eq]
      exact ⟨rs ++ [r], .snoc hrun ⟨as, hi⟩⟩
    · rw [show (p.pselect handled).shutdownRequested = true from h] at hreq
      cases hreq
    · cases hended.symm.trans h
    · cases hended.symm.trans h

theorem orderly (r : Run (Process.Step P) (.initial t logs) hs p) : p.Orderly P t :=
  r.inv (fun p => p.Orderly P t) (fun _ _ _ ho hs => ho.step hs) initial_orderly

/-! ## After a signal -/

/-- An iteration begins only if no handler has run. -/
theorem Process.Step.requested_server (hs : Process.Step P p h p') (hreq : p.shutdownRequested) :
    p'.shutdownRequested ∧ p'.server = p.server := by
  cases hs with
  | @raised sig =>
    rcases raise_cases p sig with ⟨-, pending, heq⟩ | ⟨-, -, heq⟩ | ⟨-, -, heq⟩
    · rw [heq]
      exact ⟨hreq, rfl⟩
    · rw [heq]
      exact ⟨rfl, rfl⟩
    · rw [heq]
      exact ⟨hreq, rfl⟩
  | @prepareStart argc chdir directoryExists mkdir =>
    cases BbsServer.prepareStart argc chdir directoryExists mkdir with
    | error => exact ⟨hreq, rfl⟩
    | ok => exact ⟨hreq, rfl⟩
  | @startServer socket setsockopt bind listen =>
    cases BbsServer.startServer socket setsockopt bind listen with
    | error => exact ⟨hreq, rfl⟩
    | ok => exact ⟨hreq, rfl⟩
  | stops _ _ hreq' => exact ⟨hreq', pselect_server⟩
  | fails _ _ hno | iterates _ _ hno =>
    rw [pselect_requested, hreq] at hno
    cases hno
  | _ => exact ⟨hreq, rfl⟩

theorem requested_run (r : Run (Process.Step P) p hs p') (hreq : p.shutdownRequested) :
    p'.shutdownRequested ∧ p'.server = p.server :=
  r.inv (fun q => q.shutdownRequested ∧ q.server = p.server) (fun _ _ _ hq hs =>
    ⟨(hs.requested_server hq.1).1, (hs.requested_server hq.1).2.trans hq.2⟩) ⟨hreq, rfl⟩

/-- A signal that comes when its handler is installed and it is not blocked yet. -/
def InWindow (p : Process) (h : Happening) : Prop := ∃ sig, h = .raised sig ∧ p.stage ≠ .pselect ∧ p.stage.handles sig

theorem not_inWindow (hne : ∀ sig, h ≠ .raised sig) : ¬ InWindow p h := fun ⟨sig, he, _⟩ => hne sig he

theorem Process.Step.requested_iff (hs : Process.Step P p h p') (ha : p'.ended = none) :
    p'.shutdownRequested ↔ p.shutdownRequested ∨ InWindow p h := by
  cases hs with
  | @raised sig =>
    rcases raise_cases p sig with ⟨hst, pending, heq⟩ | ⟨hst, hh, heq⟩ | ⟨-, -, heq⟩
    · rw [heq]
      refine (or_iff_left ?_).symm
      rintro ⟨sig', -, hne, -⟩
      exact hne hst
    · rw [heq]
      exact iff_of_true rfl (.inr ⟨sig, rfl, hst, hh⟩)
    · rw [heq] at ha
      cases ha
  | @prepareStart argc chdir directoryExists mkdir =>
    refine .trans ?_ (or_iff_left (not_inWindow (by nofun))).symm
    cases BbsServer.prepareStart argc chdir directoryExists mkdir <;> exact Iff.rfl
  | @startServer socket setsockopt bind listen =>
    refine .trans ?_ (or_iff_left (not_inWindow (by nofun))).symm
    cases BbsServer.startServer socket setsockopt bind listen <;> exact Iff.rfl
  | struck | stops | fails => cases ha
  | iterates _ _ hno =>
    refine .trans ?_ (or_iff_left (not_inWindow (by nofun))).symm
    refine iff_of_false (Bool.eq_false_iff.mp hno) fun hreq => ?_
    rw [pselect_requested, hreq] at hno
    cases hno
  | _ => exact (or_iff_left (not_inWindow (by nofun))).symm

end

def startCalls : List Happening :=
  [.prepareStart 2 true true true, .getWelcomeMes (some (ascii "hi")), .initDbConnection,
    .startServer (some 3) true true true, .initLogFile {}, .signalInt]

def started (t : Store) (logs : LogFiles) : Process :=
  { Process.initial t logs with
    stage := .signalTerm, ls := 3, welcome := ascii "hi\x04", dbOpen := true, logs := initLogFile {} logs }

theorem hi_message : ∃ mem, openWelcomeMes (some (ascii "hi")) = .message mem ∧
    Block.gets mem = some (ascii "hi\x04") := by
  refine ⟨_, getWelcomeMes_partial (by decide) (by decide), ?_⟩
  have h0 : 0 ∉ ascii "hi\x04" := by decide
  exact Block.gets_append_nul (List.replicate 4092 0) h0

theorem starts (P : Platform) (t : Store) (logs : LogFiles) :
    Run (Process.Step P) (.initial t logs) startCalls (started t logs) := by
  obtain ⟨mem, hmes, hgets⟩ := hi_message
  exact .cons (.prepareStart rfl rfl) <| .cons (.welcome rfl rfl hmes hgets) <| .cons (.initDbConnection rfl rfl) <|
    .cons (.startServer rfl rfl) <| .cons (.initLogFile rfl rfl) <| .cons (.signalInt rfl rfl) .nil

theorem passes_nobody {P : Platform} {r : Nat → Bool} {v : Server} {is : List Nat}
    (h : ∀ i ∈ is, dispatchSlot r i (v.connections i) = none) : Passes P r is v [] v := by
  induction is with
  | nil => exact .nil
  | cons i is ih =>
    obtain ⟨hi, his⟩ := List.forall_mem_cons.mp h
    exact .skip hi (ih his)

/-- **A late shutdown.** While the process goes on, a shutdown is requested exactly if a signal has come in
between the calls of `set_signals`; such a process has served nobody. -/
theorem shutdown_late_iff {P : Platform} {t : Store} {logs : LogFiles} {hs : List Happening} {p : Process}
    (r : Run (Process.Step P) (.initial t logs) hs p) (ha : p.ended = none) :
    (p.shutdownRequested ↔ ∃ hs₁ h hs₂ q q', hs = hs₁ ++ h :: hs₂ ∧ Run (Process.Step P) (.initial t logs) hs₁ q ∧
      InWindow q h ∧ Process.Step P q h q' ∧ Run (Process.Step P) q' hs₂ p) ∧
    (p.shutdownRequested → p.server = t.server) := by
  have hiff := r.flag_iff (L := fun p => p.ended = none) (F := fun p => p.shutdownRequested) (Q := InWindow)
    (fun _ _ _ hs => hs.alive) (fun _ _ _ hs ha => hs.requested_iff ha) ha
  rw [or_iff_right (by exact Bool.false_ne_true)] at hiff
  refine ⟨hiff, fun hreq => ?_⟩
  obtain ⟨hs₁, h, hs₂, q, q', -, r₁, ⟨sig, rfl, hne, hh⟩, hs, r₂⟩ := hiff.mp hreq
  have hserver : q'.shutdownRequested ∧ q'.server = q.server := by
    cases hs
    rw [Process.raise, if_neg hne, if_pos hh]
    exact ⟨rfl, rfl⟩
  rw [(requested_run r₂ hserver.1).2, hserver.2, (orderly r₁).start hne]

/-- `SIGINT` comes before there is a handler for `SIGTERM`. -/
theorem shutdown_late_iff_window : ∃ hs p, Run (Process.Step default) (.initial Server.fresh.store (.found none none)) hs p ∧
    p.ended = none ∧ p.stage = .pselect ∧ p.shutdownRequested ∧ p.server = Server.fresh := by
  have hrun : Run (Process.Step default) (started Server.fresh.store (.found none none))
      [.raised .sigint, .signalTerm, .sigprocmask] _ :=
    .cons (.raised rfl) <| .cons (.signalTerm rfl rfl) <| .cons (.sigprocmask rfl rfl) .nil
  have hall := (starts ..).append hrun
  exact ⟨_, _, hall, rfl, rfl, rfl, (shutdown_late_iff hall rfl).2 rfl⟩

end BbsServer
