import BbsServer.AuthSound

/-!
# Registering, then logging in

A name that `register` has stored can log in later exactly if `process_user_name` does not take it for
one of its keywords; and `register` can return an id without having stored anything (`registered_iff`).
-/

namespace BbsServer

open CStr Function Runs

structure IsWord (a : Bytes) : Prop where
  ne : a ≠ []
  nul : 0 ∉ a
  space : ∀ c ∈ a, isspace c = false

def registerLine (u p e t : Bytes) : Bytes := ascii "register" ++ 32 :: (u ++ 32 :: (p ++ 32 :: (e ++ t)))

/-- The session in slot `i` reads `register U P E`, and `create_user` returns the positive `id`. -/
structure Registers (P : Platform) (v : Server) (i : Nat) (ans : Answers) (u p e : Bytes) (id : Int) : Prop where
  pos : 0 < id
  session : ∃ s t b w' s', v.connections i = some s ∧ s.state = .opLoginUsr ∧ (∀ c ∈ t.head?, isspace c) ∧
    lineOf ans s = some (registerLine u p e t, b) ∧
    createUser P ans (v.world.log (.handled s.sd s.state (some (registerLine u p e t)))) { s with buf := b }
      (registerLine u p e t) = .ok (id, w', s')

/-- `users` has a row with this id, this name and the hash of this password. -/
def World.HasUser (P : Platform) (w : World) (id : Int) (u p : Bytes) : Prop :=
  ∃ row ∈ w.users.rows, row.id = id ∧ row.username = u ∧ row.password = stringToSHA256 P p

def LoggedIn (v : Server) (j : Nat) (id : Int) (u : Bytes) : Prop :=
  ∃ t, v.connections j = some t ∧ t.state = .opWait ∧ t.uid = id ∧ t.uname = some u

section
variable {P : Platform} {ans : Answers} {w w' : World} {s s' t : Session} {v v' : Server} {i j : Nat}
  {a u p e l : Bytes} {id : Int}

/-! ## Words -/

theorem IsWord.scan (h : IsWord a) {t : Bytes} (ht : ∀ c ∈ t.head?, isspace c) : scanWord (a ++ t) = some (a, t) :=
  scanWord_word h.ne h.space ht

theorem IsWord.no_nl (h : IsWord a) : nl ∉ a := fun hn => absurd (h.space nl hn) (by decide)

theorem isExit_iff (h : IsWord a) : isExit a ↔ a = ascii "exit" := strncmpZero_whole (k := ascii "exit") h.nul

theorem isAnonymous_iff (h : IsWord a) : isAnonymous a ↔ a = ascii "anonymous" :=
  strncmpZero_whole (k := ascii "anonymous") h.nul

theorem isRegister_iff : isRegister l ↔ ascii "register" <+: l :=
    strncmpZero_prefix_iff (k := ascii "register") (by decide)

theorem IsWord.line (h : IsWord a) (hs : s.buf = []) (ha : ans.read = some a) : lineOf ans s = some (a, []) := by
  rw [lineOf_eq ha h.ne, hs]
  exact queryExtractFromBuf2_bare h.ne h.nul h.no_nl

/-! ## The registration -/

theorem scanRegister_line (hu : IsWord u) (hp : IsWord p) (he : IsWord e) (hul : u.length < unameLen)
    (hpl : p.length < passLen) (hel : e.length < emailLen) {t : Bytes} (ht : ∀ c ∈ t.head?, isspace c) :
    scanRegister (registerLine u p e t) = .ok (some { uname := u, pass := p, email := e }) := by
  have h1 : scanWord (32 :: (u ++ 32 :: (p ++ 32 :: (e ++ t)))) = some (u, 32 :: (p ++ 32 :: (e ++ t))) := by
    rw [scanWord_space (by decide), hu.scan (by simp; decide)]
  have h2 : scanWord (32 :: (p ++ 32 :: (e ++ t))) = some (p, 32 :: (e ++ t)) := by
    rw [scanWord_space (by decide), hp.scan (by simp; decide)]
  have h3 : scanWord (32 :: (e ++ t)) = some (e, t) := by rw [scanWord_space (by decide), he.scan ht]
  have hk : (ascii "register").isPrefixOf (registerLine u p e t) = true :=
    List.isPrefixOf_iff_prefix.mpr (List.prefix_append ..)
  unfold scanRegister
  simp only [hk, Bool.not_true, Bool.false_eq_true, if_false]
  unfold registerLine
  simp only [List.drop_left, h1, h2, h3, Nat.not_le.mpr hul, Nat.not_le.mpr hpl, Nat.not_le.mpr hel, if_false]

theorem createUser_word (h : IsWord a) (hl : a.length < unameLen) : createUser P ans w s a = .ok (0, w, s) := by
  have hscan : scanRegister a = .ok none := by
    unfold scanRegister
    dsimp only
    split
    · rfl
    · cases hr : a.drop (ascii "register").length with
      | nil => rfl
      | cons c r =>
        have hw : IsWord (c :: r) := ⟨by simp, fun hc => h.nul (List.mem_of_mem_drop (hr ▸ hc)),
          fun x hx => h.space x (List.mem_of_mem_drop (hr ▸ hx))⟩
        have hlen : (c :: r).length < unameLen := by rw [← hr, List.length_drop]; omega
        rw [show scanWord (c :: r) = some (c :: r, []) from by simpa using hw.scan (t := []) (by simp)]
        dsimp only
        rw [if_neg (Nat.not_le.mpr hlen)]
        rfl
  unfold createUser createUserWith
  rw [hscan]
  rfl

theorem createUser_row (hu : IsWord u) (hp : IsWord p) (he : IsWord e) (hul : u.length < unameLen)
    (hpl : p.length < passLen) (hel : e.length < emailLen) {t : Bytes} (ht : ∀ c ∈ t.head?, isspace c) (hpos : 0 < id)
    (h : createUser P ans w s (registerLine u p e t) = .ok (id, w', s')) :
    s'.state = .opWait ∧ (ans.committed = true → w'.HasUser P id u p) := by
  unfold createUser createUserWith at h
  rw [scanRegister_line hu hp he hul hpl hel ht, ok_bind] at h
  obtain ⟨⟨res, w₁⟩, hc, h₁⟩ := bind_ok.mp h
  clear h
  rcases dbUserCreate_cases hc with ⟨rfl, rfl⟩ | ⟨row, users, hu, hrow, -, hpos', rfl⟩
  · -- no row: 0 is returned
    dsimp only at h₁
    rw [if_neg (show ¬ (0 : Int) > 0 by decide), if_neg (show ¬ (0 : Int) = -2 by decide),
      if_neg (show ¬ (0 : Int) = -3 by decide)] at h₁
    obtain ⟨w₂, -, h₁⟩ := bind_ok.mp h₁
    cases h₁
    omega
  · dsimp only at h₁
    rw [if_pos hpos'] at h₁
    obtain ⟨w₂, ht, h₁⟩ := bind_ok.mp h₁
    cases h₁
    subst hrow
    refine ⟨rfl, fun hcom => ⟨newUser P { uname := u, pass := p, email := e } id, ?_, rfl, rfl, newUser_password ..⟩⟩
    rw [(sessionSendString_talks ht).users, if_pos hcom, (UserTable.insert_rows hu).1]
    simp

/-! ## The login -/

theorem dbUserAuth_registered {row : UserRow} (ha : ans.answered = true) (hrow : row ∈ w.users.rows)
    (hp : row.password = stringToSHA256 P p) {r : OAuth} : (dbUserAuth P ans w (some row.username) p r).uid =
    row.id := by
  have hkey : w.users.rows.filter (some ·.username == some row.username) = [row] := by
    simpa using filter_key w.users.names hrow
  unfold dbUserAuth
  rw [if_pos ha, hkey]
  simp [dbUserAuthCb, hp]

theorem processClientCommand_word (h : IsWord a) (hc : processClientCommand P ans w s a = .ok (w', s')) :
    s' = if isExit a then { s with state := .err, reason := .exit } else s := by
  unfold processClientCommand processClientCommandWith at hc
  obtain ⟨⟨ret, arg1, arg2⟩, hargs, hc⟩ := bind_ok.mp hc
  have hscan : scanWord a = some (a, []) := by simpa using h.scan (t := []) (by simp)
  have h1 : ret = 1 ∧ arg1 = a := by
    unfold scanArgs at hargs
    rw [hscan] at hargs
    dsimp only at hargs
    split at hargs
    · cases hargs
    · cases hargs; exact ⟨rfl, rfl⟩
  obtain ⟨rfl, rfl⟩ := h1
  dsimp only at hc
  split at hc
  · rename_i hfile
    obtain ⟨w₁, -, hc⟩ := bind_ok.mp hc
    cases hc
    rw [if_neg (by rw [hfile]; decide)]
  · unfold clientExitWith at hc
    split at hc
    · rename_i hx
      obtain ⟨w₁, -, hc⟩ := bind_ok.mp hc
      cases hc
      rw [if_pos hx]
    · rename_i hx
      cases hc
      rw [if_neg hx]

/-! ## The two lines -/

theorem processUserName_word {ret : Int} (h : IsWord a) (hl : a.length < unameLen)
    (hp : processUserName P ans w s a = .ok (ret, w', s')) :
    s' = if isExit a then { s with state := .err, reason := .exit }
      else if isRegister a then s
      else if isAnonymous a then { s with uname := some a, state := .opWait }
      else { s with uname := some a, state := .opLoginPss } := by
  unfold processUserName processUserNameWith at hp
  split at hp
  · rename_i hx
    obtain ⟨w₁, -, hp⟩ := bind_ok.mp hp
    cases hp
    rw [if_pos hx]
  rename_i hx
  rw [if_neg hx]
  split at hp
  · rename_i hr
    cases (createUser_word h hl).symm.trans hp
    rw [if_pos hr]
  rename_i hr
  rw [if_neg hr]
  split at hp
  · rename_i ha
    obtain ⟨w₁, -, hp⟩ := bind_ok.mp hp
    cases hp
    rw [if_pos ha, (isAnonymous_iff h).mp ha]
  · rename_i ha
    obtain ⟨w₁, -, hp⟩ := bind_ok.mp hp
    cases hp
    rw [if_neg ha]

theorem dbUserAuth_hasUser (hid : id ≠ 0) : (dbUserAuth P ans w (some u) p { privileges := 0, uid := 0 }).uid = id ↔
    ans.answered = true ∧ w.HasUser P id u p := by
  constructor
  · rintro rfl
    obtain ⟨row, ⟨hrow, hname, hp⟩, heq⟩ := dbUserAuth_row hid
    refine ⟨?_, row, hrow, heq, Option.some.inj hname, hp⟩
    by_contra ha
    exact hid (by unfold dbUserAuth; rw [if_neg ha])
  · rintro ⟨ha, row, hrow, rfl, rfl, hp⟩
    exact dbUserAuth_registered ha hrow hp

theorem login_registered {ret : Int} (hid : id ≠ 0) (hu : s.uname = some u)
    (h : login P ans w s p = .ok (ret, w', s')) :
    (s'.state = .opWait ∧ s'.uid = id ↔ ans.answered = true ∧ w.HasUser P id u p) ∧ s'.uname = some u := by
  rw [← dbUserAuth_hasUser hid, ← hu]
  unfold login loginWith at h
  rw [tables_dbUserAuth, ok_bind] at h
  dsimp only at h
  by_cases hne : (dbUserAuth P ans w s.uname p { privileges := 0, uid := 0 }).uid ≠ 0
  · rw [if_pos hne] at h
    obtain ⟨u', -, h⟩ := bind_ok.mp h
    obtain ⟨w₁, -, h⟩ := bind_ok.mp h
    cases h
    exact ⟨and_iff_right rfl, rfl⟩
  · rw [if_neg hne] at h
    obtain ⟨w₁, -, h⟩ := bind_ok.mp h
    cases h
    rw [not_not.mp hne]
    exact ⟨iff_of_false (fun h => by cases h.1) (Ne.symm hid), rfl⟩

theorem word_step (hs : Steps P v (.ready j ans) v') (hc : v.connections j = some s) (hb : s.buf = [])
    (hst : s.state = .opLoginUsr ∨ s.state = .opLoginPss ∨ s.state = .opWait) (ha : IsWord a)
    (hr : ans.read = some a) :
    ∃ w' s', performSessionAction P ans v.world s (some a) = .ok (w', s') ∧
      v'.connections j = if s'.state = .err then none else some s' := by
  have hne : s.state ≠ .opUpload ∧ s.state ≠ .opDownload ∧ s.state ≠ .fin := by
    rcases hst with h | h | h <;> simp [h]
  obtain ⟨w', s', hp, rfl⟩ := hs.line hc hne.1 hne.2.1 hne.2.2 (ha.line hb hr)
  rw [show ({ s with buf := [] } : Session) = s by rw [← hb]] at hp
  refine ⟨w', s', hp, ?_⟩
  split
  · rw [Server.set_self]
  · rw [Server.set_self]

theorem loggedIn_iff (hc : v.connections j = if s.state = .err then none else some s) :
    LoggedIn v j id u ↔ s.state = .opWait ∧ s.uid = id ∧ s.uname = some u := by
  constructor
  · rintro ⟨t, ht, h⟩
    rw [hc] at ht
    split at ht
    · cases ht
    · cases ht; exact h
  · rintro ⟨hst, h⟩
    rw [if_neg (by rw [hst]; decide)] at hc
    exact ⟨s, hc, hst, h⟩

/-- A word that is taken for a name logs in as nobody but `anonymous`. -/
theorem name_step (hs : Steps P v (.ready j ans) v') (hc : v.connections j = some s) (hb : s.buf = [])
    (hst : s.state = .opLoginUsr) (ha : IsWord a) (hl : a.length < unameLen) (hr : ans.read = some a)
    (hu : LoggedIn v' j id u) : u = ascii "anonymous" := by
  obtain ⟨w', s', hp, hc'⟩ := word_step hs hc hb (.inl hst) ha hr
  obtain ⟨ret, hp⟩ := (performSessionAction_name hst).mp hp
  have hs' := processUserName_word ha hl hp
  obtain ⟨hst', -, hun⟩ := (loggedIn_iff hc').mp hu
  by_cases hx : isExit a
  · rw [if_pos hx] at hs'
    subst hs'
    cases hst'
  rw [if_neg hx] at hs'
  by_cases hreg : isRegister a
  · rw [if_pos hreg] at hs'
    subst hs'
    rw [hst] at hst'
    cases hst'
  rw [if_neg hreg] at hs'
  by_cases hanon : isAnonymous a
  · rw [if_pos hanon] at hs'
    subst hs'
    cases hun
    exact (isAnonymous_iff ha).mp hanon
  · rw [if_neg hanon] at hs'
    subst hs'
    cases hst'

/-- A word that is taken for a command ends the session, or changes nothing of it. -/
theorem command_step (hs : Steps P v (.ready j ans) v') (hc : v.connections j = some s) (hb : s.buf = [])
    (hst : s.state = .opWait) (ha : IsWord a) (hr : ans.read = some a) :
    LoggedIn v' j id u ↔ a ≠ ascii "exit" ∧ s.uid = id ∧ s.uname = some u := by
  obtain ⟨w', s', hp, hc'⟩ := word_step hs hc hb (.inr (.inr hst)) ha hr
  rw [performSessionAction_command hst] at hp
  rw [loggedIn_iff hc', processClientCommand_word ha hp]
  split
  · rename_i hx
    exact iff_of_false (fun h => by cases h.1) fun h => h.1 ((isExit_iff ha).mp hx)
  · rename_i hx
    exact and_congr_left' (iff_of_true hst fun h => hx ((isExit_iff ha).mpr h))

theorem password_step (hs : Steps P v (.ready j ans) v') (hc : v.connections j = some s) (hb : s.buf = [])
    (hst : s.state = .opLoginPss) (hu : s.uname = some u) (hid : id ≠ 0) (ha : IsWord a) (hr : ans.read = some a) :
    LoggedIn v' j id u ↔ ans.answered = true ∧ v.world.HasUser P id u a := by
  obtain ⟨w', s', hp, hc'⟩ := word_step hs hc hb (.inr (.inl hst)) ha hr
  obtain ⟨ret, hp⟩ := (performSessionAction_password hst).mp hp
  obtain ⟨hin, hun⟩ := login_registered hid hu hp
  rw [loggedIn_iff hc', ← and_assoc, hin, and_iff_left hun]
  rfl

theorem Registers.row (h : Registers P v i ans u p e id) (hu : IsWord u) (hp : IsWord p) (he : IsWord e)
    (hul : u.length < unameLen) (hpl : p.length < passLen) (hel : e.length < emailLen)
    (hs : Steps P v (.ready i ans) v') (hcom : ans.committed = true) : v'.world.HasUser P id u p := by
  obtain ⟨s, t, b, w₁, s₁, hc, hst, ht, hl, hcreate⟩ := h.session
  obtain ⟨hst₁, hrow⟩ := createUser_row hu hp he hul hpl hel ht h.pos hcreate
  obtain ⟨w₂, s₂, hact, rfl⟩ := hs.line hc (by simp [hst]) (by simp [hst]) (by simp [hst]) hl
  obtain ⟨ret, hname'⟩ := (performSessionAction_name (s := { s with buf := b }) hst).mp hact
  have hr : isRegister (registerLine u p e t) := isRegister_iff.mpr (List.prefix_append ..)
  have hx : isExit (registerLine u p e t) = false := by
    simp [isExit, strncmpZero, registerLine, ascii]
  unfold processUserName processUserNameWith at hname'
  rw [if_neg (by simp [hx]), if_pos hr] at hname'
  obtain ⟨-, rfl, rfl⟩ : id = ret ∧ w₁ = w₂ ∧ s₁ = s₂ := by simpa using hcreate.symm.trans hname'
  rw [if_neg (by rw [hst₁]; decide)]
  exact hrow hcom

end

/-- **Registering, then logging in.** After a registration, a fresh session that sends the name and then
the password is logged in exactly if the name is no keyword, the database answers and the row was committed, or
another registration has got the same row in since; or if the name is `anonymous`, the memory of the session held
the id and the password does not end the session. -/
theorem registered_iff {P : Platform} {es₁ es₂ : List Event} {v v' u₁ u₂ u₃ u₄ : Server} {i j : Nat}
    {ans ans₁ ans₂ : Answers} {name pass email : Bytes}
    {id uid privileges : Int} (hname : IsWord name) (hpass : IsWord pass) (hemail : IsWord email)
    (hnl : name.length < unameLen) (hpl : pass.length < passLen) (hel : email.length < emailLen)
    (hreg : Registers P v i ans name pass email id) (hs₀ : Steps P v (.ready i ans) v') (r₁ : Run (Steps P) v' es₁ u₁)
    (hfresh : u₁.connections j = some (.fresh j uid privileges)) (h₁ : ans₁.read = some name)
    (hs₁ : Steps P u₁ (.ready j ans₁) u₂) (r₂ : Run (Guarded (fun _ e => ¬ e.At j) (Steps P)) u₂ es₂ u₃)
    (h₂ : ans₂.read = some pass) (hs₂ : Steps P u₃ (.ready j ans₂) u₄) :
    LoggedIn u₄ j id name ↔
      (name ≠ ascii "exit" ∧ ¬ ascii "register" <+: name ∧ name ≠ ascii "anonymous" ∧ ans₂.answered = true ∧
        (ans.committed = true ∨ u₃.world.HasUser P id name pass)) ∨
      (name = ascii "anonymous" ∧ uid = id ∧ pass ≠ ascii "exit") := by
  have hstays : ∀ v e v', v.world.HasUser P id name pass → Steps P v e v' → v'.world.HasUser P id name pass :=
    fun _ _ _ ⟨row, hrow, h⟩ hs => ⟨row, hs.users_subset hrow, h⟩
  have hcommit : ans.committed = true ∨ u₃.world.HasUser P id name pass ↔ u₃.world.HasUser P id name pass := by
    refine or_iff_right_of_imp fun hcom => ?_
    have h := r₁.inv (·.world.HasUser P id name pass) hstays (hreg.row hname hpass hemail hnl hpl hel hs₀ hcom)
    exact r₂.unguard.inv (·.world.HasUser P id name pass) hstays (hstays _ _ _ h hs₁)
  rw [hcommit]
  have hslot : u₃.connections j = u₂.connections j :=
    r₂.inv (·.connections j = u₂.connections j) (fun _ _ _ h hs => (hs.2.elsewhere hs.1).trans h) rfl
  obtain ⟨w₁, t₁, hp₁, hc₁⟩ := word_step hs₁ hfresh rfl (.inl rfl) hname h₁
  obtain ⟨ret, hp₁⟩ := (performSessionAction_name rfl).mp hp₁
  have ht₁ := processUserName_word hname hnl hp₁
  rw [← hslot] at hc₁
  by_cases hx : isExit name
  · -- the first line ends the session
    rw [if_pos hx] at ht₁
    rw [ht₁, if_pos rfl] at hc₁
    have hkey := (isExit_iff hname).mp hx
    refine iff_of_false ?_ (by simp [hkey, show ascii "exit" ≠ ascii "anonymous" by decide])
    rintro ⟨t, ht, -⟩
    rw [hs₂.empty hc₁, hc₁] at ht
    cases ht
  rw [if_neg hx] at ht₁
  by_cases hr : isRegister name
  · -- the first line is a registration that lacks words, and the password is taken for a name
    rw [if_pos hr] at ht₁
    rw [ht₁] at hc₁
    have hr := isRegister_iff.mp hr
    have hkey : name ≠ ascii "anonymous" := fun he => absurd (he ▸ hr) (by decide)
    exact iff_of_false (fun h => hkey (name_step (s := .fresh j uid privileges) hs₂ hc₁ rfl rfl hpass hpl h₂ h))
      (by simp [hr, hkey])
  rw [if_neg hr] at ht₁
  by_cases ha : isAnonymous name
  · -- the first line logs in, and the password is a command
    rw [if_pos ha] at ht₁
    rw [ht₁, if_neg (show ¬ SessState.opWait = .err by decide)] at hc₁
    rw [command_step hs₂ hc₁ rfl rfl hpass h₂]
    have hkey := (isAnonymous_iff hname).mp ha
    constructor
    · exact fun ⟨hpx, huid, _⟩ => .inr ⟨hkey, huid, hpx⟩
    · rintro (⟨-, -, hne, -⟩ | ⟨-, huid, hpx⟩)
      · exact absurd hkey hne
      · exact ⟨hpx, huid, rfl⟩
  · -- the first line is the name
    rw [if_neg ha] at ht₁
    rw [ht₁, if_neg (show ¬ SessState.opLoginPss = .err by decide)] at hc₁
    rw [password_step hs₂ hc₁ rfl rfl rfl (ne_of_gt hreg.pos) hpass h₂]
    have hx := fun h => hx ((isExit_iff hname).mpr h)
    have hr := fun h => hr (isRegister_iff.mpr h)
    have ha := fun h => ha ((isAnonymous_iff hname).mpr h)
    refine ⟨fun h => .inl ⟨hx, hr, ha, h⟩, ?_⟩
    rintro (⟨-, -, -, h⟩ | ⟨h, -⟩)
    · exact h
    · exact absurd h ha

/-! ### Three registrations -/

def registration (name : Bytes) (committed : Bool) : Answers :=
  { read := some (registerLine name (ascii "1") (ascii "b@b") [nl]), insert := some 1, committed }

def sends (line : Bytes) : Event := .ready 5 { read := some line }

/-- What `registered_iff` asks of a registration in slot 4 and a login in slot 5, and the outcome. -/
def registersAs (name : Bytes) (committed outcome : Bool) : Bool :=
  (Server.exec (fun _ _ => True) default .fresh [.accept 4 0 0]).any fun v =>
    (v.connections 4).any (fun s => s.state == .opLoginUsr &&
      lineOf (registration name committed) s == some (registerLine name (ascii "1") (ascii "b@b") [nl], []) &&
      (createUser default (registration name committed) (v.world.log (.handled s.sd s.state
        (some (registerLine name (ascii "1") (ascii "b@b") [nl])))) { s with buf := [] }
        (registerLine name (ascii "1") (ascii "b@b") [nl])).toOption.any (·.1 == 1)) &&
    (v.step default (.ready 4 (registration name committed))).toOption.any fun v' =>
      (v'.step default (.accept 5 0 0)).toOption.any fun u₁ =>
        u₁.connections 5 == some (.fresh 5 0 0) && (u₁.step default (sends name)).toOption.any fun u₂ =>
          (u₂.step default (sends (ascii "1"))).toOption.any fun u₄ =>
            ((u₄.connections 5).any fun t => t.state == .opWait && t.uid == 1 && t.uname == some name) == outcome

theorem registersAs_run (name : Bytes) (committed outcome : Bool) (h : registersAs name committed outcome = true) :
    ∃ v v' u₁ u₂ u₄ : Server, Registers default v 4 (registration name committed) name (ascii "1") (ascii "b@b") 1 ∧
    Steps default v (.ready 4 (registration name committed)) v' ∧ Run (Steps default) v' [.accept 5 0 0] u₁ ∧
    u₁.connections 5 = some (.fresh 5 0 0) ∧ Steps default u₁ (sends name) u₂ ∧
    Steps default u₂ (sends (ascii "1")) u₄ ∧ (LoggedIn u₄ 5 1 name ↔ outcome = true) := by
  obtain ⟨v, -, h⟩ := (Option.any_eq_true ..).mp h
  rw [Bool.and_eq_true] at h
  obtain ⟨hv, h⟩ := h
  obtain ⟨v', hs₀, h⟩ := any_ok h
  obtain ⟨u₁, hacc, h⟩ := any_ok h
  rw [Bool.and_eq_true, beq_iff_eq] at h
  obtain ⟨hfresh, h⟩ := h
  obtain ⟨u₂, hs₁, h⟩ := any_ok h
  obtain ⟨u₄, hs₂, h⟩ := any_ok h
  obtain ⟨s, hs, hc⟩ := (Option.any_eq_true ..).mp hv
  simp only [Bool.and_eq_true, beq_iff_eq] at hc
  obtain ⟨⟨hst, hl⟩, hcreate⟩ := hc
  obtain ⟨⟨id, w', s'⟩, hcreate, hid⟩ := any_ok hcreate
  obtain rfl : id = 1 := by simpa using hid
  refine ⟨v, v', u₁, u₂, u₄, ⟨by decide, s, [nl], [], w', s', hs, hst, by simp; decide, hl, hcreate⟩, hs₀,
    .cons hacc .nil, hfresh, hs₁, hs₂, ?_⟩
  rw [← eq_of_beq h, Option.any_eq_true]
  simp only [LoggedIn, Bool.and_eq_true, beq_iff_eq, and_assoc]

/-- A user registers as `exit`, and cannot log in. -/
theorem exit_locked_out : ∃ v v' u₁ u₂ u₄ : Server,
    Registers default v 4 (registration (ascii "exit") true) (ascii "exit") (ascii "1") (ascii "b@b") 1 ∧
    Steps default v (.ready 4 (registration (ascii "exit") true)) v' ∧ Run (Steps default) v' [.accept 5 0 0] u₁ ∧
    u₁.connections 5 = some (.fresh 5 0 0) ∧ Steps default u₁ (sends (ascii "exit")) u₂ ∧
    Steps default u₂ (sends (ascii "1")) u₄ ∧ ¬ LoggedIn u₄ 5 1 (ascii "exit") := by
  obtain ⟨v, v', u₁, u₂, u₄, hreg, hs₀, r₁, hfresh, hs₁, hs₂, h⟩ :=
    registersAs_run (ascii "exit") true false (by decide +kernel)
  exact ⟨v, v', u₁, u₂, u₄, hreg, hs₀, r₁, hfresh, hs₁, hs₂, by simp [h]⟩

/-- `bob` is told that he is registered, but his row is not committed. -/
theorem lost_locked_out : ∃ v v' u₁ u₂ u₄ : Server,
    Registers default v 4 (registration (ascii "bob") false) (ascii "bob") (ascii "1") (ascii "b@b") 1 ∧
    Steps default v (.ready 4 (registration (ascii "bob") false)) v' ∧ Run (Steps default) v' [.accept 5 0 0] u₁ ∧
    u₁.connections 5 = some (.fresh 5 0 0) ∧ Steps default u₁ (sends (ascii "bob")) u₂ ∧
    Steps default u₂ (sends (ascii "1")) u₄ ∧ ¬ LoggedIn u₄ 5 1 (ascii "bob") := by
  obtain ⟨v, v', u₁, u₂, u₄, hreg, hs₀, r₁, hfresh, hs₁, hs₂, h⟩ :=
    registersAs_run (ascii "bob") false false (by decide +kernel)
  exact ⟨v, v', u₁, u₂, u₄, hreg, hs₀, r₁, hfresh, hs₁, hs₂, by simp [h]⟩

/-- `bob` registers, and logs in. -/
theorem registered_iff_bob : ∃ u₃ u₄ : Server, LoggedIn u₄ 5 1 (ascii "bob") ∧ (LoggedIn u₄ 5 1 (ascii "bob") ↔
    (ascii "bob" ≠ ascii "exit" ∧ ¬ ascii "register" <+: ascii "bob" ∧ ascii "bob" ≠ ascii "anonymous" ∧
      ({ read := some (ascii "1") } : Answers).answered = true ∧ ((registration (ascii "bob") true).committed = true ∨
        World.HasUser default u₃.world 1 (ascii "bob") (ascii "1"))) ∨
    (ascii "bob" = ascii "anonymous" ∧ (0 : Int) = 1 ∧ ascii "1" ≠ ascii "exit")) := by
  obtain ⟨v, v', u₁, u₂, u₄, hreg, hs₀, r₁, hfresh, hs₁, hs₂, h⟩ :=
    registersAs_run (ascii "bob") true true (by decide +kernel)
  exact ⟨u₂, u₄, h.mpr rfl, registered_iff ⟨by decide, by decide, by decide +kernel⟩
    ⟨by decide, by decide, by decide +kernel⟩ ⟨by decide, by decide,
      by decide +kernel⟩ (by decide) (by decide) (by decide)
    hreg hs₀ r₁ hfresh rfl hs₁ .nil rfl hs₂⟩

end BbsServer
