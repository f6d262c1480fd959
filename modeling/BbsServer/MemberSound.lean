import BbsServer.BoardSound

/-!
# What a member has saved

The queries for files join `files` and `users`, so a row is found only if its `user_id` is the `id` of a user. The
rows of a member are found as long as the server runs (`saved_file_found`).
-/

namespace BbsServer

open CStr Function Runs

section
variable {P : Platform} {w : World} {v v' : Server} {e : Event} {row : FileRow} {user : UserRow}

theorem mem_joined_user : (row, user) ∈ joined w ↔ row ∈ w.files.rows ∧ user ∈ w.users.rows ∧
    user.id = row.userId := by
  simp only [joined, List.mem_flatMap, List.mem_map, List.mem_filter, beq_iff_eq, Prod.mk.injEq]
  constructor
  · rintro ⟨r, hr, u, ⟨hu, hid⟩, rfl, rfl⟩
    exact ⟨hr, hu, hid⟩
  · rintro ⟨hr, hu, hid⟩
    exact ⟨row, hr, user, ⟨hu, hid⟩, rfl, rfl⟩

theorem Steps.published (h : Sound v) (hs : Steps P v e v') (hnew : row ∈ v'.world.files.rows)
    (hold : row ∉ v.world.files.rows) : ∃ i ans a, e = .ready i ans ∧ v.board.who i = some a ∧
    row.userId = a.key := by
  obtain ⟨row', hrows, rfl⟩ : ∃ row', v'.world.files.rows = v.world.files.rows ++ [row'] ∧ row' = row := by
    rcases hs.row h.wf with hf | ⟨i, s, row', c, -, -, -, -, hins, -⟩
    · exact absurd (hf ▸ hnew) hold
    · refine ⟨row', (FileTable.insert_rows hins).1, ?_⟩
      rw [(FileTable.insert_rows hins).1, List.mem_append, List.mem_singleton] at hnew
      exact (hnew.resolve_left hold).symm
  have hlib : v'.board.library = v.board.library ++ [row'.entry v'.world.disk] := by
    rw [← hs.entries h.wf h.exclusive]
    unfold Server.board
    rw [hrows, List.map_append]
    rfl
  rcases board_simulates P h hs with heq | ⟨m, hof, hm⟩
  · rw [heq] at hlib
    simpa using congrArg List.length hlib
  · rcases hm.library with hl | ⟨i, x, rfl, hl⟩
    · rw [hl] at hlib
      simpa using congrArg List.length hlib
    · rw [hlib] at hl
      obtain rfl : row'.entry v'.world.disk = x := by simpa using hl
      obtain ⟨a, hwho, howner⟩ := hm.publisher
      cases hof with
      | transfers _ _ hvis => exact ⟨_, _, a, rfl, hvis ▸ hwho, howner⟩
      | asks _ _ hvis => exact ⟨_, _, a, rfl, hvis ▸ hwho, howner⟩

theorem users_kept {es : List Event} (r : Run (Steps P) v es v') (hu : user ∈ v.world.users.rows) :
    user ∈ v'.world.users.rows :=
  r.inv (fun v => user ∈ v.world.users.rows) (fun _ _ _ hu hs => hs.users_subset hu) hu

theorem files_kept {es : List Event} (h : Wf v) (r : Run (Steps P) v es v') (hr : row ∈ v.world.files.rows) :
    row ∈ v'.world.files.rows := by
  refine r.inv_under Wf (fun v => row ∈ v.world.files.rows) (fun _ _ _ h hs => h.step hs)
    (fun v e v' h hr hs => ?_) h hr
  rcases hs.row h with hf | ⟨i, s, row', c, -, -, -, -, hins, -⟩
  · rwa [hf]
  · rw [(FileTable.insert_rows hins).1]
    exact List.mem_append_left _ hr

end

/-- Where every registration is committed, nobody is inside without being a member or having a guest's name. -/
theorem committed_genuine {disk : Bytes → Option Bytes} {users : UserTable} {files : FileTable}
    (hcons : Consistent disk files) {es : List Event} {v : Server} {P : Platform}
    (r : Run (Guarded (fun _ e => e.Commits) (Steps P)) (.start disk users files) es v) : v.board.Genuine guestName := by
  obtain ⟨xs, ms, -, -, rm, hms⟩ :=
    ((board_simulates P).guard fun _ e => e.Commits).run (fun _ _ _ h hs => h.step hs.2) r (start_sound hcons)
  refine genuine_run rm (fun m hm i x he => ?_) fun _ => rfl
  subst he
  obtain ⟨x, -, hof, hcom⟩ := related_mem hms _ hm
  cases hof with
  | transfers _ _ _ hasked => exact Bool.noConfusion (hasked.1.symm.trans hcom)
  | asks _ _ _ hasked => exact Bool.noConfusion (hasked.1.symm.trans hcom)

/-- **What a member saves is found**: where the registrations before are committed, a row that an event adds
belongs to the visitor in its slot, and unless that one has the name of a guest, the row is joined from then on
with the one user who has that name. -/
theorem saved_file_found {P : Platform} {disk : Bytes → Option Bytes} {users : UserTable} {files : FileTable}
    (hcons : Consistent disk files) {es fs : List Event} {v v₁ v' : Server} {e : Event} {row : FileRow}
    (r : Run (Guarded (fun _ e => e.Commits) (Steps P)) (.start disk users files) es v) (hs : Steps P v e v₁)
    (r' : Run (Steps P) v₁ fs v') (hnew : row ∈ v₁.world.files.rows) (hold : row ∉ v.world.files.rows) :
    ∃ i ans a, e = .ready i ans ∧ v.board.who i = some a ∧ row.userId = a.key ∧
      (a.name = guestName ∨ ∃ user, user.username = a.name ∧ (row, user) ∈ joined v'.world) := by
  have hsound := (start_sound hcons).run r.unguard
  obtain ⟨i, ans, a, he, hwho, hid⟩ := hs.published hsound hnew hold
  refine ⟨i, ans, a, he, hwho, hid, ?_⟩
  rcases committed_genuine hcons r hwho with hguest | ⟨m, hm, rfl⟩
  · exact .inl hguest
  · obtain ⟨user, hu, rfl⟩ := List.mem_map.mp hm
    refine .inr ⟨user, rfl, mem_joined_user.mpr ⟨files_kept (hsound.step hs).wf r' hnew, ?_, hid.symm⟩⟩
    exact users_kept r' (hs.users_subset hu)

def memberGives : List Event :=
  [.accept 4 0 0, .ready 4 { read := some (ascii "register bob pw b@b\n"), insert := some 1 },
    .ready 4 { read := some (ascii "file upload \"a\" 1 0\n"), availableSpace := 1, probes := [{ opened := .fd 5 }] },
    .ready 4 { read := some (leBytes 8 0 ++ leBytes 8 1 ++ ascii "x") }]

def memberSaves : Event := .ready 4 { read := some (ascii "text:END:\n"), insert := some 1 }

theorem saved_file_found_bob : ∃ v v₁ v' row user,
    Run (Guarded (fun _ e => e.Commits) (Steps default)) .fresh memberGives v ∧
    Steps default v memberSaves v₁ ∧ Run (Steps default) v₁ [.ready 4 { read := some [] }] v' ∧
    row.name = ascii "a" ∧ user.username = ascii "bob" ∧ (row, user) ∈ joined v'.world := by
  have h : ((Server.exec (fun _ e => e.Commits) default .fresh memberGives).bind fun v =>
      ((v.step default memberSaves).toOption).bind fun v₁ =>
        (Server.exec (fun _ _ => True) default v₁ [.ready 4 { read := some [] }]).map fun _ =>
          (v.world.files.rows, v₁.world.files.rows.map (·.name), (v.board.who 4).map (·.name))) =
      some ([], [ascii "a"], some (ascii "bob")) := by decide +kernel
  obtain ⟨v, hv, h⟩ := Option.bind_eq_some_iff.mp h
  obtain ⟨v₁, hs, h⟩ := Option.bind_eq_some_iff.mp h
  obtain ⟨v', hv', h⟩ := Option.map_eq_some_iff.mp h
  simp only [Prod.mk.injEq] at h
  obtain ⟨hold, hnew, hname⟩ := h
  obtain ⟨row, hrow, hn⟩ := List.map_eq_singleton_iff.mp hnew
  obtain ⟨b, hb, hbob⟩ := Option.map_eq_some_iff.mp hname
  have hrun := Server.exec_run hv
  have hrun' := (Server.exec_run hv').unguard
  have hin : row ∈ v₁.world.files.rows := by simp [hrow]
  obtain ⟨i, ans, a, he, hwho, -, ha⟩ :=
    saved_file_found fresh_consistent hrun (.of_toOption hs) hrun' hin (by simp [hold])
  obtain ⟨rfl, -⟩ : 4 = i ∧ _ := by simpa [memberSaves] using he
  obtain rfl : b = a := Option.some.inj (hb.symm.trans hwho)
  rcases ha with hg | ⟨user, hu, hj⟩
  · rw [hbob] at hg
    exact absurd hg (by decide)
  · exact ⟨v, v₁, v', row, user, hrun, .of_toOption hs, hrun', hn, hu.trans hbob, hj⟩

end BbsServer
