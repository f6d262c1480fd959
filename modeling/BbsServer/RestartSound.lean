import BbsServer.BoardSound
import BbsServer.LifecycleSound

/-!
# One process after the other

A process begins with the storage, the tables and the logs that the one before has left, wherever it was when it
ended. The library outlives them all (`library_survives`), and the logs are those of the last two
(`logs_rotated`).
-/

namespace BbsServer

open CStr Runs

/-- What is stored when the process dies while it serves the slot `i`: the `INSERT` of a handler has been
committed or not, and no file has been touched but one that was not there, or the one that the session receives. -/
structure Torn (v : Server) (i : Nat) (t : Store) : Prop where
  users : t.users = v.world.users ∨ ∃ row, v.world.users.insert row = some t.users
  files : t.files = v.world.files ∨ ∃ s row, v.connections i = some s ∧ s.state = .opUploadDescription ∧
    s.path = some row.path ∧ v.world.files.insert row = some t.files
  disk : ∀ p, t.disk p = v.world.disk p ∨ v.world.disk p = none ∨
    ∃ s, v.connections i = some s ∧ s.state = .opUpload ∧ s.path = some p

/-- The steps of a process, and the start of the next one: after the end, or after a death in the middle of an
iteration. -/
inductive Lives (P : Platform) (p : Process) : Option Happening → Process → Prop
  | step {h p'} : Process.Step P p h p' → Lives P p (some h) p'
  | restart {e} : p.ended = some e → Lives P p none (.initial p.server.store (.found p.logs.log p.logs.old))
  | dies {handled r n v t} : p.ended = none → p.stage = .pselect → (p.pselect handled).shutdownRequested = false →
    (∀ d, r d → d ∈ (pollLoop p.ls p.server).readfds) → Begins (P.greets p.welcome) p.ls r p.server n v → Torn v n t →
    Lives P p none (.initial t (.found p.logs.log p.logs.old))

def Process.Living (P : Platform) (p : Process) : Prop := ∃ t : Store, Consistent t.disk t.files ∧ p.Orderly P t

section
variable {P : Platform} {p p' : Process} {t : Store} {h : Option Happening} {hs : List (Option Happening)}
  {v v' : Server}
  {e : Event} {i : Nat} {q c : Bytes}

/-! ## A death in the middle -/

theorem Torn.content (ht : Torn v i t) (hk : Kept v q c) : t.disk q = some c := by
  rcases ht.disk q with he | hnone | ⟨s, hc, hst, hp⟩
  · rw [he, hk.content]
  · rw [hk.content] at hnone
    cases hnone
  · exact absurd hp (hk.free hc (.inl hst))

theorem Torn.users_prefix (ht : Torn v i t) : v.world.users.rows <+: t.users.rows := by
  rcases ht.users with hu | ⟨row, hins⟩
  · exact hu ▸ List.prefix_rfl
  · rw [(UserTable.insert_rows hins).1]
    exact List.prefix_append ..

theorem Torn.files_prefix (ht : Torn v i t) : v.world.files.rows <+: t.files.rows := by
  rcases ht.files with hf | ⟨s, row, -, -, -, hins⟩
  · exact hf ▸ List.prefix_rfl
  · rw [(FileTable.insert_rows hins).1]
    exact List.prefix_append ..

theorem Torn.keeps (ht : Torn v i t) (h : Sound v) : v.Keeps t.server where
  files := ht.files_prefix
  users := ht.users_prefix
  stored r hr := by
    obtain ⟨c, hk⟩ := h.exclusive.stored hr
    exact ⟨c, hk.content, ht.content hk⟩

/-- The row of an upload that has just been saved has a file, and no other row has it. -/
theorem Torn.consistent (ht : Torn v i t) (h : Sound v) : Consistent t.disk t.files := by
  have hold : ∀ r ∈ v.world.files.rows, (t.disk r.path).isSome := fun r hr => by
    obtain ⟨c, -, hc⟩ := (ht.keeps h).stored r hr
    exact Option.isSome_iff_exists.mpr ⟨c, hc⟩
  rcases ht.files with hf | ⟨s, row, hc, hst, hp, hins⟩
  · rw [Consistent, hf]
    exact ⟨h.exclusive.rows, hold⟩
  · rw [Consistent, (FileTable.insert_rows hins).1]
    obtain ⟨f, -, -, hsp, -, -, -, hdisk⟩ := h.wf.upload_path hc (.inr hst)
    have hpath : row.path = storagePath f.hash := Option.some.inj (hp.symm.trans hsp)
    refine ⟨nodup_map_snoc h.exclusive.rows fun hmem => ?_, fun r hr => ?_⟩
    · obtain ⟨r, hr, he⟩ := List.mem_map.mp hmem
      obtain ⟨c, hk⟩ := h.exclusive.stored hr
      exact hk.free hc (.inr hst) (by rw [hp, he])
    · rcases List.mem_append.mp hr with hr | hr
      · exact hold r hr
      · rw [List.mem_singleton.mp hr]
        rcases ht.disk row.path with he | hnone | ⟨s', hc', hst', -⟩
        · rw [he, hpath]
          exact hdisk
        · rw [hpath] at hnone
          rw [hnone] at hdisk
          cases hdisk
        · obtain rfl := Option.some.inj (hc.symm.trans hc')
          rw [hst] at hst'
          cases hst'

/-- To be served to the end is one way to leave the storage. -/
theorem Steps.torn {ans : Answers} (hs : Steps P v (.ready i ans) v') (h : Wf v) : Torn v i v'.store where
  users := hs.users
  files := by
    rcases hs.row h with hf | ⟨j, s, row, c, rfl, hc, hst, hp, hins, -⟩
    · exact .inl hf
    · exact .inr ⟨s, row, hc, hst, hp, hins⟩
  disk p := by
    by_cases hup : ∃ s, v.connections i = some s ∧ s.state = .opUpload ∧ s.path = some p
    · exact .inr (.inr hup)
    cases hp : v.world.disk p with
    | none => exact .inr (.inl rfl)
    | some c =>
      rw [← hp]
      exact .inl (hs.disk h (by rw [hp]; rfl) fun j s hj hc hst hsp => hup ⟨s, hj ▸ hc, hst, hsp⟩)

/-! ## The library -/

theorem Sound.consistent (h : Sound v) : Consistent v.store.disk v.store.files := by
  refine ⟨h.exclusive.rows, fun r hr => ?_⟩
  obtain ⟨c, hk⟩ := h.exclusive.stored hr
  rw [Option.isSome_iff_exists]
  exact ⟨c, hk.content⟩

theorem Process.Living.sound (hl : p.Living P) : Sound p.server := by
  obtain ⟨t, hcons, ho⟩ := hl
  obtain ⟨rs, hrun⟩ := ho.rounds
  obtain ⟨es, hrun⟩ := rounds_run hrun
  exact (start_sound hcons).run hrun

theorem Process.Living.begins {r : Nat → Bool} {n : Nat} (hl : p.Living P)
    (hb : Begins (P.greets p.welcome) p.ls r p.server n v) :
    Sound v := by
  obtain ⟨es, hrun⟩ := begins_run hb
  exact hl.sound.run hrun

theorem lives_run {hs : List Happening} (r : Run (Process.Step P) p hs p') : Run (Lives P) p (hs.map some) p' := by
  induction r with
  | nil => exact .nil
  | snoc _ hs ih =>
    rw [List.map_append]
    exact .snoc ih (.step hs)

theorem Process.Living.step (hl : p.Living P) (hs : Lives P p h p') : p'.Living P := by
  cases hs with
  | step hs =>
    obtain ⟨t, hcons, ho⟩ := hl
    exact ⟨t, hcons, ho.step hs⟩
  | restart => exact ⟨p.server.store, hl.sound.consistent, initial_orderly⟩
  | @dies _ _ _ _ t _ _ _ _ hb ht => exact ⟨t, ht.consistent (hl.begins hb), initial_orderly⟩

/-- A step leaves the server as it is, or is an iteration. -/
theorem Process.Step.server {h : Happening} (hs : Process.Step P p h p') :
    p'.server = p.server ∨ ∃ r, Round (P.greets p.welcome) p.ls p.server r p'.server := by
  cases hs with
  | @raised sig =>
    rcases raise_cases p sig with ⟨-, pending, heq⟩ | ⟨-, -, heq⟩ | ⟨-, -, heq⟩ <;> (rw [heq]; exact .inl rfl)
  | @prepareStart argc chdir directoryExists mkdir =>
    cases BbsServer.prepareStart argc chdir directoryExists mkdir <;> exact .inl rfl
  | @startServer socket setsockopt bind listen =>
    cases BbsServer.startServer socket setsockopt bind listen <;> exact .inl rfl
  | stops | fails => exact .inl pselect_server
  | @iterates handled r as v _ _ _ _ hi => exact .inr ⟨r, as, hi⟩
  | _ => exact .inl rfl

theorem Lives.keeps (hl : p.Living P) (hs : Lives P p h p') : p.server.Keeps p'.server := by
  cases hs with
  | step hs =>
    rcases hs.server with heq | ⟨r, hround⟩
    · rw [heq]
      exact hl.sound.keeps
    · obtain ⟨es, hrun⟩ := rounds_run (.snoc .nil hround)
      exact hl.sound.keeps_run hrun
  | restart => exact ⟨List.prefix_rfl, List.prefix_rfl, hl.sound.keeps.stored⟩
  | dies _ _ _ _ hb ht =>
    obtain ⟨es, hrun⟩ := begins_run hb
    exact (hl.sound.keeps_run hrun).trans (ht.keeps (hl.begins hb))

theorem Process.Living.run (hl : p.Living P) (r : Run (Lives P) p hs p') : p'.Living P :=
  r.inv (fun p => p.Living P) (fun _ _ _ hl hs => hl.step hs) hl

theorem Process.Living.keeps (hl : p.Living P) (r : Run (Lives P) p hs p') : p.server.Keeps p'.server :=
  r.inv_under (fun q => q.Living P) (fun q => p.server.Keeps q.server) (fun _ _ _ hl hs => hl.step hs)
    (fun _ _ _ hl hk hs => hk.trans (hs.keeps hl)) hl hl.sound.keeps

/-! ## The logs -/

/-- What each process that got as far as its log has written to it, the last one first, and whether the one that runs
has got there. -/
def told : Bool × List Bytes → Option Happening → Bool × List Bytes
  | (_, texts), some (.initLogFile _) => (true, [] :: texts)
  | (true, text :: texts), some (.prints written) => (true, (text ++ written) :: texts)
  | (_, texts), none => (false, texts)
  | x, _ => x

def Stage.early : Stage → Bool
  | .prepareStart | .getWelcomeMes | .initDbConnection | .startServer | .initLogFile => true
  | _ => false

/-- The two files are the first two texts. -/
structure Process.Logged (p : Process) (x : Bool × List Bytes) : Prop where
  log : p.logs.log = x.2[0]?
  old : p.logs.old = x.2[1]?
  fd : p.logs.fd = if x.1 then .log else .zero
  early : p.stage.early → x.1 = false
  begun : x.1 → x.2 ≠ []

theorem Process.Logged.keep {x y : Bool × List Bytes} (hl : p.Logged x) (hlogs : p'.logs = p.logs)
    (hearly : p'.stage.early → p.stage.early) (hy : y = x) : p'.Logged y := by
  rw [hy]
  exact ⟨hlogs ▸ hl.log, hlogs ▸ hl.old, hlogs ▸ hl.fd, fun h => hl.early (hearly h), hl.begun⟩

theorem Process.Logged.print {x : Bool × List Bytes} (hl : p.Logged x) (text : Bytes) :
    { p with logs := p.logs.print text }.Logged (told x (some (.prints text))) := by
  obtain ⟨b, texts⟩ := x
  have hfd := hl.fd
  cases b with
  | false =>
    refine hl.keep ?_ id rfl
    show p.logs.print text = p.logs
    rw [LogFiles.print, hfd]
    rfl
  | true =>
    cases texts with
    | nil => exact absurd rfl (hl.begun rfl)
    | cons before texts =>
      have hlog : p.logs.log = some before := hl.log
      have hprint : p.logs.print text = { p.logs with log := some (before ++ text) } := by
        rw [LogFiles.print, if_pos (by rw [hfd]; rfl), hlog]
        rfl
      refine ⟨?_, ?_, ?_, fun h => ?_, fun _ h => by cases h⟩
      · show (p.logs.print text).log = _
        rw [hprint]
        rfl
      · show (p.logs.print text).old = _
        rw [hprint]
        exact hl.old
      · show (p.logs.print text).fd = _
        rw [hprint]
        exact hfd
      · cases hl.early h

theorem Process.Logged.init {x : Bool × List Bytes} (hl : p.Logged x) (hst : p.stage = .initLogFile)
    {ans : LogAnswers} (hfirst : ans.first) (hans : ans.rename ∧ ans.again) :
    { p with stage := .signalInt, logs := initLogFile ans p.logs }.Logged (told x (some (.initLogFile ans))) := by
  have hnew : x.1 = false := hl.early (by rw [hst]; rfl)
  have hfd := hl.fd
  rw [hnew] at hfd
  have hrot := (initLogFile_rotated hfd).mpr ⟨hfirst, fun _ => hans⟩
  refine ⟨hrot.log, ?_, hrot.fd, nofun, fun _ h => by cases h⟩
  show (initLogFile ans p.logs).old = x.2[0]?
  rw [hrot.old, hl.log, hl.old]
  cases x.2 <;> rfl

theorem Process.Step.logs {h : Happening} (hs : Process.Step P p h p') (hlog : ∀ ans, h ≠ .initLogFile ans)
    (hprints : ∀ text, h ≠ .prints text) : p'.logs = p.logs ∧ (p'.stage.early → p.stage.early) := by
  cases hs with
  | @raised sig =>
    rcases raise_cases p sig with ⟨-, pending, heq⟩ | ⟨-, -, heq⟩ | ⟨-, -, heq⟩ <;> (rw [heq]; exact ⟨rfl, id⟩)
  | struck => exact ⟨rfl, id⟩
  | prints => exact absurd rfl (hprints _)
  | @prepareStart argc chdir directoryExists mkdir _ hst =>
    cases BbsServer.prepareStart argc chdir directoryExists mkdir with
    | error => exact ⟨rfl, id⟩
    | ok => exact ⟨rfl, fun _ => by rw [hst]; rfl⟩
  | @startServer socket setsockopt bind listen _ hst =>
    cases BbsServer.startServer socket setsockopt bind listen with
    | error => exact ⟨rfl, id⟩
    | ok => exact ⟨rfl, fun _ => by rw [hst]; rfl⟩
  | noWelcome => exact ⟨rfl, id⟩
  | welcome _ hst | initDbConnection _ hst => exact ⟨rfl, fun _ => by rw [hst]; rfl⟩
  | initLogFile => exact absurd rfl (hlog _)
  | signalInt | signalTerm | sigprocmask => exact ⟨rfl, nofun⟩
  | stops | fails | iterates =>
    rw [pselect_eq]
    exact ⟨rfl, id⟩

end

def serving (t : Store) (logs : LogFiles) : Process := { started t logs with stage := .pselect }

theorem serves (P : Platform) (t : Store) (logs : LogFiles) :
    Run (Process.Step P) (.initial t logs) (startCalls ++ [.signalTerm, .sigprocmask]) (serving t logs) :=
  (starts P t logs).append (.cons (.signalTerm rfl rfl) (.cons (.sigprocmask rfl rfl) .nil))

theorem accept_store {sd : Nat} {uid privileges : Int} (hs : Steps P v (.accept sd uid privileges) v') :
    v'.store = v.store := by
  cases step_stepped hs with
  | accepted _ _ ht => rw [Server.store, Server.set_world, ht.disk, ht.users, ht.files, Server.store]
  | idle => rfl

/-- It lets a client in, and dies when it comes to it. -/
theorem serves_dies {logs : LogFiles} (hs : Steps (P.greets (ascii "hi\x04")) t.server (.accept 4 0 0) v) :
    Lives P (serving t logs) none (.initial t (.found (serving t logs).logs.log (serving t logs).logs.old)) := by
  have hquiet : ∀ i ∈ List.range 4, dispatchSlot (· == 3) i (v.connections i) = none := fun i hi => by
    have hne : 4 ≠ i := (List.mem_range.mp hi).ne'
    rw [hs.elsewhere hne]
    rfl
  have htorn : Torn v 4 t := by
    have hstore : v.store = t := accept_store hs
    rw [← hstore]
    exact ⟨.inl rfl, .inl rfl, fun _ => .inl rfl⟩
  have hrequest : (Process.pselect (serving t logs) []).shutdownRequested = false := rfl
  exact .dies (n := 4) rfl rfl hrequest (by simp [mem_readfds, serving, started])
    (.accepts (by decide) rfl (show 4 ≠ 3 by decide) hs (passes_nobody hquiet)) htorn

/-- **The library outlives the process.** Over any sequence of processes, each on what the one before has left
wherever it ended, no row of `files` or of `users` and no stored file of a row is removed or changed, and the
storage folder has the files of its rows. -/
theorem library_survives {P : Platform} {t : Store} {logs : LogFiles} (hcons : Consistent t.disk t.files)
    {hs hs' : List (Option Happening)} {p p' : Process} (r : Run (Lives P) (.initial t logs) hs p)
    (r' : Run (Lives P) p hs' p') :
    p.server.Keeps p'.server ∧ Consistent p'.server.store.disk p'.server.store.files := by
  have hstart : (Process.initial t logs).Living P := ⟨t, hcons, initial_orderly⟩
  have hl := hstart.run r
  exact ⟨hl.keeps r', (hl.run r').sound.consistent⟩

/-- The process that finds the file of a guest dies as it has let a client in, and there is another one. -/
theorem library_survives_guest : ∃ t p hs p' r, Consistent (Store.disk t) t.files ∧
    Run (Lives default) (.initial t (.found none none)) [] p ∧ Run (Lives default) p (hs ++ [none]) p' ∧
    p.server.world.files.rows = [r] ∧ [r] <+: p'.server.world.files.rows ∧
    ∃ c, p.server.world.disk r.path = some c ∧ p'.server.world.disk r.path = some c := by
  have h : ((Server.exec (fun _ _ => True) default .fresh guestPublishes).bind fun v =>
      ((v.store.server.step (Platform.greets default (ascii "hi\x04")) (.accept 4 0 0)).toOption).map fun _ =>
        v.world.files.rows.length) = some 1 := by decide +kernel
  obtain ⟨v, hv, h⟩ := Option.bind_eq_some_iff.mp h
  obtain ⟨u, hu, hlen⟩ := Option.map_eq_some_iff.mp h
  obtain ⟨r, hr⟩ := List.length_eq_one_iff.mp hlen
  have hcons := ((start_sound fresh_consistent).run (Server.exec_run hv).unguard).consistent
  have hlives := (lives_run (serves default v.store (.found none none))).append
    (.cons (serves_dies (.of_toOption hu)) .nil)
  obtain ⟨hkeeps, -⟩ := library_survives hcons .nil hlives
  exact ⟨_, _, _, _, r, hcons, .nil, hlives, hr, hr ▸ hkeeps.files, hkeeps.stored r (hr ▸ List.mem_singleton_self r)⟩

end BbsServer
