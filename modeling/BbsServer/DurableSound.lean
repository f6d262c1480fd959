import BbsServer.RestartSound
import BbsServer.RetrieveSound

/-!
# Stored files, one process after the other

A file of the library can be fetched from any later process, with the content that it has had, exactly if its
owner is a user, its name fits, its row has the size of the content, and `chdir` has not left that process in the
storage folder (`durable_iff`).
-/

namespace BbsServer

open CStr Function Runs

section
variable {P : Platform} {p p' : Process} {h : Option Happening} {hs : List (Option Happening)} {v : Server}
  {r : FileRow}
  {q c N : Bytes} {row : Option FileRow}

/-! ## From one process to the next -/

theorem Sound.filed (h : Sound v) (hr : r ∈ v.world.files.rows) : ∃ c, Filed v r.path c (some r) := by
  obtain ⟨c, hk⟩ := h.exclusive.stored hr
  refine ⟨c, hk, fun r' => ?_⟩
  constructor
  · intro h'
    rw [List.inj_on_of_nodup_map h.exclusive.rows hr h'.1 h'.2.symm]
  · intro he
    cases he
    exact ⟨hr, rfl⟩

theorem Filed.restart (hf : Filed v q c row) : Filed v.store.server q c row where
  kept := ⟨hf.kept.content, fun i s hs => by cases hs⟩
  row := hf.row

theorem Filed.torn {i : Nat} {t : Store} (hf : Filed v q c row) (ht : Torn v i t) : Filed t.server q c row where
  kept := ⟨ht.content hf.kept, fun i s hs => by cases hs⟩
  row r := by
    rcases ht.files with he | ⟨s, row', hc, hst, hp, hins⟩
    · show r ∈ t.files.rows ∧ _ ↔ _
      rw [he]
      exact hf.row r
    · exact hf.inserted hc hst hp hins

theorem Filed.run {v' : Server} {es : List Event} (hf : Filed v q c row) (h : Wf v) (r : Run (Steps P) v es v') :
    Filed v' q c row :=
  r.inv_under Wf (Filed · q c row) (fun _ _ _ h hs => h.step hs) (fun _ _ _ h hf hs => hf.step h hs) h hf

theorem Lives.filed (hl : p.Living P) (hf : Filed p.server q c row) (hs : Lives P p h p') :
    Filed p'.server q c row := by
  cases hs with
  | step hs =>
    rcases hs.server with heq | ⟨r, hround⟩
    · rw [heq]
      exact hf
    · obtain ⟨es, hrun⟩ := rounds_run (.snoc .nil hround)
      exact hf.run hl.sound.wf hrun
  | restart => exact hf.restart
  | dies _ _ _ _ hb ht =>
    obtain ⟨es, hrun⟩ := begins_run hb
    exact (hf.run hl.sound.wf hrun).torn ht

theorem Process.Living.filed (hl : p.Living P) (hf : Filed p.server q c row) (r : Run (Lives P) p hs p') :
    Filed p'.server q c row :=
  r.inv_under (fun p => p.Living P) (fun p => Filed p.server q c row) (fun _ _ _ hl hs => hl.step hs)
    (fun _ _ _ hl hf hs => hs.filed hl hf) hl hf

theorem Process.Living.fdsBounded (hl : p.Living P) : FdsBounded p.server.world := by
  obtain ⟨t, -, ho⟩ := hl
  obtain ⟨rs, hrun⟩ := ho.rounds
  obtain ⟨es, hrun⟩ := rounds_run hrun
  exact hrun.inv (fun v => FdsBounded v.world) (fun _ _ _ h hs => h.step hs) ⟨0, fun _ _ => rfl⟩

/-! ## The download -/

theorem Retrievable.size {w : World} (hr : Retrievable w N c) (hb : FdsBounded w) (hN : N ≠ []) :
    ∃ x ∈ w.files.rows, x.name = N ∧ x.size = ((w.disk x.path).getD []).length := by
  obtain ⟨n, hn⟩ := hb
  obtain ⟨w', t', g, p, hsend, -⟩ := hr (Session.waiting 0 [] 0) { opened := some n } (downloadLine N) rfl
    (fileCommand_downloadLine N) (sendName_downloadLine hN) rfl ⟨n, rfl, hn n (Nat.le_refl n)⟩
  obtain ⟨-, sf, hget, hfound⟩ := (fileSendPrepare_zero (sendName_downloadLine hN)).mp hsend
  obtain ⟨x, hlast, rfl⟩ := (dbGetFile_by_name rfl hN).mp hget
  obtain ⟨hx, hname⟩ := List.mem_filter.mp (List.mem_of_getLast? hlast)
  obtain ⟨d, -, -, hsize, -⟩ := sendFound_zero.mp hfound
  exact ⟨x, (mem_joined.mp hx).1, by simpa using hname, hsize⟩

theorem Filed.retrievable (hf : Filed v r.path c (some r)) (hb : FdsBounded v.world) (hN : r.name ≠ [])
    (hother : ∀ x ∈ v.world.files.rows, x.name = r.name → x = r) :
    Retrievable v.world r.name c ↔ (∃ user ∈ v.world.users.rows, user.id = r.userId) ∧ r.name.length < fileNameLen ∧
      r.size = c.length ∧ v.world.cwd = .work := by
  by_cases hsize : r.size = c.length
  · have hrow : ∀ x ∈ (some r : Option FileRow), storagePath x.hash = r.path ∧ x.name = r.name ∧
      x.size = c.length := by
      intro x hx
      cases hx
      exact ⟨rfl, rfl, hsize⟩
    rw [retrievable_of_filed hf hN hb hrow fun x hx hn => by rw [hother x hx hn], and_iff_right hsize]
    simp
  · refine iff_of_false (fun hr => ?_) fun h => hsize h.2.2.1
    obtain ⟨x, hx, hn, hs⟩ := hr.size hb hN
    rw [hother x hx hn, hf.kept.content] at hs
    exact hsize hs

end

/-- **Durability.** Let a process, at any time, have a row in its table. Then it has a stored file for it, and in any
process after it, as long as the row is the only one of its name, that very content can be downloaded by the name
exactly if its owner is a user by then, the name fits, the size in the row is the one of the content, and the
process is in its working directory. -/
theorem durable_iff {P : Platform} {t : Store} {logs : LogFiles} (hcons : Consistent t.disk t.files)
    {hs hs' : List (Option Happening)} {p p' : Process} (r : Run (Lives P) (.initial t logs) hs p)
    (r' : Run (Lives P) p hs' p') {row : FileRow} (hrow : row ∈ p.server.world.files.rows) (hN : row.name ≠ [])
    (hother : ∀ x ∈ p'.server.world.files.rows, x.name = row.name → x = row) :
    ∃ c, p.server.world.disk row.path = some c ∧
      (Retrievable p'.server.world row.name c ↔ (∃ user ∈ p'.server.world.users.rows, user.id = row.userId) ∧
        row.name.length < fileNameLen ∧ row.size = c.length ∧ p'.server.world.cwd = .work) := by
  have hstart : (Process.initial t logs).Living P := ⟨t, hcons, initial_orderly⟩
  have hl := hstart.run r
  obtain ⟨c, hf⟩ := hl.sound.filed hrow
  exact ⟨c, hf.kept.content, (hl.filed hf r').retrievable (hl.run r').fdsBounded hN hother⟩

/-! ### A file of bob -/

def bobsStore : Store where
  disk := fun p => if p = storagePath 0 then some (ascii "x") else none
  users := .bob
  files := ⟨[⟨1, 1, ascii "a", 1, ascii "text", 1, 0⟩], by decide, by decide⟩

theorem bobsStore_consistent : Consistent bobsStore.disk bobsStore.files := by
  refine ⟨List.nodup_singleton _, fun r hr => ?_⟩
  obtain rfl := List.mem_singleton.mp hr
  rfl

/-- The process that finds it dies as it serves a client, and the next one has it to send. -/
theorem durable_iff_bob : ∃ p hs p', Run (Lives default) (.initial bobsStore (.found none none)) [] p ∧
    Run (Lives default) p (hs ++ [none]) p' ∧ Retrievable p'.server.world (ascii "a") (ascii "x") := by
  have h : ((bobsStore.server.step (Platform.greets default (ascii "hi\x04")) (.accept 4 0 0)).toOption).isSome := by
    decide +kernel
  obtain ⟨u, hu⟩ := Option.isSome_iff_exists.mp h
  have hlives := (lives_run (serves default bobsStore (.found none none))).append
    (.cons (serves_dies (.of_toOption hu)) .nil)
  obtain ⟨c, hc, hiff⟩ := durable_iff bobsStore_consistent .nil hlives (List.mem_singleton_self _) (by decide)
    fun x hx _ => List.mem_singleton.mp hx
  cases hc
  refine ⟨_, _, _, .nil, hlives, hiff.mpr ⟨⟨_, List.mem_singleton_self _, rfl⟩, by decide, rfl, rfl⟩⟩

end BbsServer
