import BbsServer.WellFormed

/-!
# Authentication

A session gets beyond the login by the anonymous branch of `process_user_name`, by a row
that it has created itself, or by a password whose hash is in the row of its name. The
log of the session since its `accept` shows which (`authenticated`).
-/

namespace BbsServer

open CStr Runs

def ownLog (i : Nat) (trace : List Act) : List Act := trace.takeWhile (· != .accepted i)

def AnonymousLine (l : Bytes) : Prop := isExit l = false ∧ isRegister l = false ∧ isAnonymous l = true

def TookAnonymous (w : World) (i : Nat) : Prop :=
  ∃ l, .handled i .opLoginUsr (some l) ∈ ownLog i w.trace ∧ AnonymousLine l

/-- The session in slot `i` has created the row, or has presented its password. -/
def Presented (P : Platform) (w : World) (i : Nat) (row : UserRow) : Prop :=
  .insertedUser i row ∈ ownLog i w.trace ∨
    ∃ pass, .handled i .opLoginPss (some pass) ∈ ownLog i w.trace ∧ row.password = stringToSHA256 P pass

def Authenticated (P : Platform) (w : World) (s : Session) : Prop :=
  ∃ u, s.uname = some u ∧ (TookAnonymous w s.sd ∨
    ∃ row ∈ w.users.rows, row.id = s.uid ∧ row.username = u ∧ Presented P w s.sd row)

def Session.loggedIn (s : Session) : Prop := s.state ≠ .opLoginUsr ∧ s.state ≠ .opLoginPss ∧ s.state ≠ .err

section
variable {P : Platform} {ans : Answers} {w w' : World} {s s' : Session} {line : Option Bytes} {i : Nat}

theorem ownLog_append {ext t : List Act} (h : ∀ a ∈ ext, a ≠ .accepted i) : ownLog i (ext ++ t) = ext ++ ownLog i t :=
  List.takeWhile_append_of_pos fun a ha => by simpa using h a ha

theorem ownLog_grows (h : Logs (· ≠ .accepted i) w w') {a : Act} (ha : a ∈ ownLog i w.trace) :
    a ∈ ownLog i w'.trace := by
  obtain ⟨ext, hext, hne⟩ := h
  rw [hext, ownLog_append hne]
  exact List.mem_append_right _ ha

theorem mem_ownLog_log {a : Act} (h : a ≠ .accepted i) : a ∈ ownLog i (w.log a).trace := by
  rw [World.log_trace, ownLog, List.takeWhile_cons_of_pos (by simpa using h)]
  exact List.mem_cons_self ..

theorem TookAnonymous.mono (h : TookAnonymous w i) (hg : Grows i w w') : TookAnonymous w' i := by
  obtain ⟨l, hl, ha⟩ := h
  exact ⟨l, ownLog_grows hg.log hl, ha⟩

theorem Presented.mono {row : UserRow} (h : Presented P w i row) (hg : Grows i w w') : Presented P w' i row := by
  rcases h with h | ⟨pass, hp, hr⟩
  · exact .inl (ownLog_grows hg.log h)
  · exact .inr ⟨pass, ownLog_grows hg.log hp, hr⟩

theorem Authenticated.mono (h : Authenticated P w s) (hg : Grows s.sd w w') : Authenticated P w' s := by
  obtain ⟨u, hu, h⟩ := h
  refine ⟨u, hu, ?_⟩
  rcases h with h | ⟨row, hrow, hid, hname, hp⟩
  · exact .inl (h.mono hg)
  · exact .inr ⟨row, hg.users hrow, hid, hname, hp.mono hg⟩

/-! ## The password check -/

theorem dbUserAuthCb_foldl (pass : Bytes) : ∀ (rows : List UserRow) (r : OAuth),
    rows.foldl (dbUserAuthCb pass) r = r ∨
      ∃ row ∈ rows, pass = row.password ∧ (rows.foldl (dbUserAuthCb pass) r).uid = row.id
  | [], _ => .inl rfl
  | row :: rows, r => by
    rw [List.foldl_cons]
    rcases dbUserAuthCb_foldl pass rows (dbUserAuthCb pass r row) with h | ⟨x, hx, hp, hid⟩
    · rw [h]
      unfold dbUserAuthCb
      split
      · exact .inr ⟨row, List.mem_cons_self .., ‹_›, rfl⟩
      · exact .inl rfl
    · exact .inr ⟨x, List.mem_cons_of_mem _ hx, hp, hid⟩

def Matches (P : Platform) (w : World) (name : Option Bytes) (pass : Bytes) (row : UserRow) : Prop :=
  row ∈ w.users.rows ∧ some row.username = name ∧ row.password = stringToSHA256 P pass

theorem dbUserAuth_row {name : Option Bytes} {pass : Bytes} {priv : Int}
    (h : (dbUserAuth P ans w name pass { privileges := priv, uid := 0 }).uid ≠ 0) :
    ∃ row, Matches P w name pass row ∧ row.id =
    (dbUserAuth P ans w name pass { privileges := priv, uid := 0 }).uid := by
  unfold dbUserAuth at h ⊢
  split at h
  · rename_i ha
    rw [if_pos ha]
    rcases dbUserAuthCb_foldl (stringToSHA256 P pass) (w.users.rows.filter (some ·.username == name))
      { privileges := priv, uid := 0 } with he | ⟨row, hrow, hp, hid⟩
    · rw [he] at h
      exact absurd rfl h
    · obtain ⟨hrow, hname⟩ := List.mem_filter.mp hrow
      exact ⟨row, ⟨hrow, by simpa using hname, hp.symm⟩, hid.symm⟩
  · exact absurd rfl h

/-- A login that fails, or whose password is not that of a row with the name, changes no more
than the state. -/
theorem login_failed {pass : Bytes} {ret : Int} (h : login P ans w s pass = .ok (ret, w', s'))
    (hf : ret ≠ 0 ∨ ∀ row, ¬ Matches P w s.uname pass row) : s' = { s with state := .opLoginUsr } := by
  unfold login loginWith at h
  rw [tables_dbUserAuth, ok_bind] at h
  dsimp only at h
  by_cases hu : (dbUserAuth P ans w s.uname pass { privileges := 0, uid := 0 }).uid ≠ 0
  · rw [if_pos hu] at h
    obtain ⟨u, -, h⟩ := bind_ok.mp h
    obtain ⟨w₁, -, h⟩ := bind_ok.mp h
    cases h
    obtain ⟨row, hrow, -⟩ := dbUserAuth_row hu
    exact absurd hrow (hf.resolve_left (by simp) row)
  · rw [if_neg hu] at h
    obtain ⟨w₁, -, h⟩ := bind_ok.mp h
    cases h
    rfl

/-! ## One action, and runs -/

/-- An action gets a session beyond the login only with a credential. -/
theorem Did.authenticates (h : Did P ans w s line w' s')
    (hlog : ∀ l, line = some l → .handled s.sd s.state (some l) ∈ ownLog s.sd w.trace) (hcom : ans.committed = true)
    (hs : s.loggedIn → Authenticated P w s) (hs' : s'.loggedIn) : Authenticated P w' s' := by
  have hg : Grows s.sd w w' := h.grows
  by_cases hl : s.loggedIn
  · obtain ⟨hu, hid⟩ := h.user hl.1 hl.2.1
    have := (hs hl).mono hg
    unfold Authenticated at this ⊢
    rwa [hu, hid, h.sd_eq]
  obtain ⟨h1, h2, h3⟩ := hs'
  cases h with
  | registered _ _ _ hins ht =>
    refine ⟨_, rfl, .inr ⟨_, ?_, rfl, rfl, .inl (ownLog_grows (Logs.talks ht |>.mono ?_) ?_)⟩⟩
    · rw [ht.users, (UserTable.insert_rows hins).1]
      exact List.mem_append_right _ (List.mem_singleton_self _)
    · intro a ha he
      subst he
      cases ha
    · exact mem_ownLog_log (by simp)
  | rolledBack _ _ _ _ hlost => exact absurd hcom (by simp [hlost])
  | anonymous hst hl hx hr ha _ =>
    have := hlog _ hl
    rw [hst] at this
    exact ⟨_, rfl, .inl ⟨_, ownLog_grows hg.log this, hx, hr, ha⟩⟩
  | welcomed hst hl hu hne _ =>
    obtain ⟨row, ⟨hrow, hname, hpass⟩, hid⟩ := dbUserAuth_row hne
    have := hlog _ hl
    rw [hst] at this
    refine ⟨_, hu, .inr ⟨row, hg.users hrow, hid, ?_, .inr ⟨_, ownLog_grows hg.log this, hpass⟩⟩⟩
    rw [hu] at hname
    exact Option.some.inj hname
  | talked => exact absurd ⟨h1, h2, h3⟩ hl
  | left => exact absurd rfl h3
  | named => exact absurd rfl h2
  | loginAgain => exact absurd rfl h1
  | moved hst => rcases hst with hst | hst <;> simp [Session.loggedIn, hst] at hl
  | released hst => rcases hst with hst | hst <;> simp [Session.loggedIn, hst] at hl
  | ended hst => rcases hst with ⟨hst, -⟩ | hst <;> simp [Session.loggedIn, hst] at hl
  | _ => simp_all [Session.loggedIn]

def AllAuthenticated (P : Platform) (v : Server) : Prop :=
  ∀ ⦃i s⦄, v.connections i = some s → s.loggedIn → Authenticated P v.world s

theorem authenticated_step {v v' : Server} {e : Event} (h : Wf v) (ha : AllAuthenticated P v) (he : e.Commits)
    (hs : Steps P v e v') : AllAuthenticated P v' := by
  intro i t ht hl
  rcases hs.session ht with ⟨uid, privileges, -, rfl⟩ | hc | ⟨ans, s, line, b, rfl, hc, hd⟩
  · exact absurd rfl hl.1
  · have hg := hs.grows h hc
    rw [← h.sd hc] at hg
    exact (ha hc hl).mono hg
  · refine hd.authenticates (fun l hline => ?_) he (fun hs => ?_) hl
    · subst hline
      exact mem_ownLog_log (by simp)
    · exact (Authenticated.mono (ha hc hs) (.handled ..) :)

end

/-- **Authentication.** Where the rows that `INSERT`s return are committed, whoever is beyond the login is
anonymous, or has a row of its own name and id that it created or whose password it gave; a failed login changes
neither the id nor anything but the state. -/
theorem authenticated {P : Platform} {disk : Bytes → Option Bytes} {users : UserTable} {files : FileTable}
    {es : List Event} {v : Server} (r : Run (Guarded (fun _ e => e.Commits) (Steps P)) (.start disk users files) es v) :
    (∀ i s, v.connections i = some s → s.state ≠ .opLoginUsr → s.state ≠ .opLoginPss → s.state ≠ .err →
      Authenticated P v.world s) ∧
    ∀ ans w s pass ret w' s', login P ans w s pass = .ok (ret, w', s') →
      (ret ≠ 0 ∨ ∀ row, ¬ Matches P w s.uname pass row) → s'.uid = s.uid ∧ s'.state = .opLoginUsr := by
  constructor
  · have := r.inv_under Wf (AllAuthenticated P) (fun _ _ _ h hs => h.step hs.2)
      (fun _ _ _ h ha hs => authenticated_step h ha hs.1 hs.2)
      (start_wf disk users files) (fun _ _ h => by cases h)
    exact fun i s hs h1 h2 h3 => this hs ⟨h1, h2, h3⟩
  · intro ans w s pass ret w' s' h hf
    rw [login_failed h hf]
    exact ⟨rfl, rfl⟩

/-! ### A registered user

`bob` registers with the password `1234`, and a second client logs in with it. -/

def knows1234 : Platform where
  sha256 str :=
    if str = ascii "1234" then
      [0x03, 0xac, 0x67, 0x42, 0x16, 0xf3, 0xe1, 0x5c, 0x76, 0x1e, 0xe1, 0xa5, 0xe2, 0x55, 0xf0, 0x67,
       0x95, 0x36, 0x23, 0xc8, 0xb3, 0x88, 0xb4, 0x45, 0x9e, 0x13, 0xf9, 0x78, 0xd7, 0xc8, 0x46, 0xf4]
    else []
  like _ _ := false
  welcome := []

def bobTwice : List Event :=
  [.accept 4 0 0, .ready 4 { read := some (ascii "register bob 1234 b@c\n"), insert := some 1 },
    .accept 5 0 0, .ready 5 { read := some (ascii "bob") }, .ready 5 { read := some (ascii "1234") }]

theorem authenticated_bob : ∃ v s, Run (Guarded (fun _ e => e.Commits) (Steps knows1234)) .fresh bobTwice v ∧
    v.connections 5 = some s ∧ s.state = .opWait ∧ s.uid = 1 ∧ Authenticated knows1234 v.world s := by
  have h : (Server.exec (fun _ e => e.Commits) knows1234 .fresh bobTwice).map
      (fun v => (v.connections 5).map fun s => (s.state, s.uid)) = some (some (.opWait, 1)) := by
    decide +kernel
  obtain ⟨v, hv, hs⟩ := Option.map_eq_some_iff.mp h
  obtain ⟨s, hs, he⟩ := Option.map_eq_some_iff.mp hs
  simp only [Prod.mk.injEq] at he
  have r := Server.exec_run hv
  exact ⟨v, s, r, hs, he.1, he.2, (authenticated r).1 5 s hs (by simp [he.1]) (by simp [he.1]) (by simp [he.1])⟩

end BbsServer
