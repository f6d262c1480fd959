import BbsServer.AuthSound
import BbsServer.Filled
import BbsServer.OwnLog
import BbsServer.SaveSound

/-!
# Memory that nobody assigned

`make_new_session` leaves `uid`, `privileges` and the line buffer as `malloc` returned them. The line buffer is
never read beyond what was received, `privileges` is not read at all, and `uid` gets into a row only when an
anonymous client saves a file. So two runs with the same inputs agree on the rows and on what is sent as long
as no such file is saved, and no longer (`determined_iff`).
-/

namespace BbsServer

open CStr Function Runs

/-! ## The buffer in memory -/

def queryExtractFromMem (below : UInt8) (mem : Bytes) (used : Nat) : Option (Bytes × Bytes) :=
  if used = 0 then none
  else
    match strchr (cstr mem) nl with
    | none => some (cstr (mem.take used), [])
    | some pos =>
      let beforeNl := if pos = 0 then below else mem.getD (pos - 1) 0
      let line :=
        if beforeNl = cr then (if pos = 0 then [] else mem.take (pos - 1) ++ [nl])
        else mem.take (pos + 1)
      some (line, (mem.drop (pos + 1)).take (used - (pos + 1)))

/-- `session_do_read` puts a NUL behind the bytes in use, and nothing behind it is read. -/
theorem queryExtractFromMem_eq (below : UInt8) (buf rest : Bytes) :
    queryExtractFromMem below (buf ++ 0 :: rest) buf.length = queryExtractFromBuf2 below buf := by
  unfold queryExtractFromMem queryExtractFromBuf2
  rw [cstr_append_nul]
  by_cases hb : buf = []
  · simp [hb]
  rw [if_neg (by simpa using hb), if_neg hb]
  cases hs : strchr (cstr buf) nl with
  | none => simp
  | some pos =>
    obtain ⟨-, -, hlt⟩ := strchr_eq_some hs
    have hle : pos + 1 ≤ buf.length := Nat.lt_of_lt_of_le hlt (List.IsPrefix.length_le <| cstr_prefix buf)
    have htake : ∀ n ≤ buf.length, (buf ++ 0 :: rest).take n = buf.take n :=
      fun n hn => List.take_append_of_le_length hn
    have hget : (buf ++ 0 :: rest).getD (pos - 1) 0 = buf.getD (pos - 1) 0 := by
      rw [List.getD_eq_getElem?_getD, List.getD_eq_getElem?_getD, List.getElem?_append_left (by omega)]
    have hrest : ((buf ++ 0 :: rest).drop (pos + 1)).take (buf.length - (pos + 1)) = buf.drop (pos + 1) := by
      rw [List.drop_append_of_le_length hle]
      exact List.take_left' (by simp)
    dsimp only
    rw [hget, htake _ hle, htake (pos - 1) (by omega), hrest]

/-! ## Two runs -/

/-- The same input; `M` relates what the new session has in `uid`. -/
def Event.Alike (M : Int → Int → Prop) : Event → Event → Prop
  | .accept sd uid _, .accept sd' uid' _ => sd = sd' ∧ M uid uid'
  | .acceptFailed, .acceptFailed => True
  | .ready i ans, .ready j ans' => i = j ∧ ans = ans'
  | _, _ => False

def Event.SameInput : Event → Event → Prop := Event.Alike fun _ _ => True

def Act.isOutput : Act → Bool
  | .said .. | .wrote .. | .insertedUser .. | .insertedFile .. => true
  | _ => false

def World.outputs (w : World) : List Act := w.trace.filter Act.isOutput

/-- At every point of the run, another run with the same inputs has inserted the same rows and sent the same. -/
def Determined (P : Platform) (v₀ : Server) (es : List Event) : Prop :=
  ∀ es₁ es₂ fs v v', es = es₁ ++ es₂ → List.Forall₂ Event.SameInput es₁ fs → Run (Steps P) v₀ es₁ v →
    Run (Steps P) v₀ fs v' → v'.world.outputs = v.world.outputs

/-- No file of a client that took the anonymous login is saved. -/
def SavesNamed (v : Server) : Event → Prop
  | .ready i ans => ∀ s ∈ v.connections i, ∀ r ∈ lineOf ans s, Saves ans { s with buf := r.2 } r.1 →
    ¬ TookAnonymous v.world i
  | _ => True

def Session.Unassigned (w : World) (s : Session) : Prop :=
  s.state = .opLoginUsr ∨ s.state = .opLoginPss ∨ TookAnonymous w s.sd

def Session.Twin (M : Int → Int → Prop) (w : World) (s s' : Session) : Prop :=
  ∃ u p, s' = s.filled u p ∧ (s.Unassigned w → M s.uid u) ∧ (¬ s.Unassigned w → u = s.uid)

/-- The two runs differ in memory that nothing has assigned. -/
structure Twin (M : Int → Int → Prop) (v v' : Server) : Prop where
  world : v'.world = v.world
  none : ∀ {i}, v.connections i = none → v'.connections i = none
  some : ∀ {i s}, v.connections i = some s → ∃ s', v'.connections i = some s' ∧ s.Twin M v.world s'

def LoginFirst (v : Server) : Prop :=
  ∀ ⦃i s⦄, v.connections i = some s → s.state = .opLoginUsr ∨ s.state = .opLoginPss → ¬ TookAnonymous v.world i

section
variable {P : Platform} {ans : Answers} {w w₁ w' : World} {s t : Session} {line : Option Bytes} {l : Bytes}
  {i j : Nat}
  {u p : Int} {M : Int → Int → Prop} {v v₁ v' : Server} {e e' : Event}

/-! ## The anonymous login -/

theorem ownLog_logOf (i : Nat) (t : List Act) : ownLog i (logOf i t) = logOf i (ownLog i t) := by
  induction t with
  | nil => rfl
  | cons a t ih =>
    unfold ownLog logOf at ih ⊢
    by_cases ha : a = .accepted i
    · subst ha
      simp [Act.owner]
    · rw [List.takeWhile_cons_of_pos (by simpa using ha), List.filter_cons, List.filter_cons]
      by_cases ho : a.owner = some i
      · rw [if_pos (by simpa using ho), if_pos (by simpa using ho),
          List.takeWhile_cons_of_pos (by simpa using ha), ih]
      · rw [if_neg (by simpa using ho), if_neg (by simpa using ho), ih]

theorem tookAnonymous_congr (h : logOf i w'.trace = logOf i w.trace) : TookAnonymous w' i ↔ TookAnonymous w i := by
  have hmem : ∀ {a : Act} {t : List Act}, a.owner = some i → (a ∈ ownLog i (logOf i t) ↔ a ∈ ownLog i t) := by
    intro a t ha
    rw [ownLog_logOf, logOf, List.mem_filter]
    simp [ha]
  unfold TookAnonymous
  apply exists_congr
  intro l
  rw [← hmem (t := w'.trace) rfl, ← hmem (t := w.trace) rfl, h]

theorem tookAnonymous_act (h : performSessionAction P ans w s line = .ok (w', t)) : TookAnonymous w' s.sd ↔
    TookAnonymous w s.sd ∨ s.state = .opLoginUsr ∧ ∃ l, line = some l ∧ AnonymousLine l := by
  obtain ⟨ext, hext, he⟩ := (performSessionAction_did h).logs
  have hown : ownLog s.sd w'.trace = ext ++ .handled s.sd s.state line :: ownLog s.sd w.trace := by
    rw [hext, ownLog_append fun a ha ha' => by subst ha'; exact he _ ha]
    exact congrArg (ext ++ ·) (List.takeWhile_cons_of_pos (by simp))
  unfold TookAnonymous
  simp only [hown, List.mem_append, List.mem_cons]
  constructor
  · rintro ⟨l, hl | hl | hl, ha⟩
    · exact absurd (he _ hl) (by simp [Act.Of])
    · obtain ⟨-, hst, hline⟩ := Act.handled.inj hl
      exact .inr ⟨hst.symm, l, hline.symm, ha⟩
    · exact .inl ⟨l, hl, ha⟩
  · rintro (⟨l, hl, ha⟩ | ⟨hst, l, rfl, ha⟩)
    · exact ⟨l, .inr (.inr hl), ha⟩
    · exact ⟨l, .inr (.inl (by rw [hst])), ha⟩

/-- At the login prompt, the anonymous lines are those that lead to commands without a registration. -/
theorem anonymous_iff (h : performSessionAction P ans w s (some l) = .ok (w', t)) (hst : s.state = .opLoginUsr) :
    AnonymousLine l ↔ t.state = .opWait ∧ ¬ isRegister l := by
  obtain ⟨ret, h⟩ := (performSessionAction_name hst).mp h
  unfold processUserName processUserNameWith at h
  unfold AnonymousLine
  by_cases hx : isExit l
  · rw [if_pos hx] at h
    obtain ⟨w₁, -, h⟩ := bind_ok.mp h
    cases h
    simp [hx]
  rw [if_neg hx] at h
  by_cases hr : isRegister l
  · simp [hr]
  rw [if_neg hr] at h
  by_cases ha : isAnonymous l
  · rw [if_pos ha] at h
    obtain ⟨w₁, -, h⟩ := bind_ok.mp h
    cases h
    simp [hx, hr, ha]
  · rw [if_neg ha] at h
    obtain ⟨w₁, -, h⟩ := bind_ok.mp h
    cases h
    simp [ha]

theorem Did.login_state (h : Did P ans w s line w' t) (herr : t.state ≠ .err)
    (hst : s.state = .opLoginUsr ∨ s.state = .opLoginPss) :
    t.state = .opWait ∨ t.state = .opLoginUsr ∨ t.state = .opLoginPss := by
  cases h with
  | talked | notFound => exact .inr hst
  | left => exact absurd rfl herr
  | registered | rolledBack | anonymous | welcomed => exact .inl rfl
  | named => exact .inr (.inr rfl)
  | loginAgain => exact .inr (.inl rfl)
  | moved h => rcases h with h | h <;> simp [h] at hst
  | released h => rcases h with h | h <;> simp [h] at hst
  | ended h => rcases h with ⟨h, -⟩ | h <;> simp [h] at hst
  | _ => simp_all

theorem unassigned_act (h : performSessionAction P ans w s line = .ok (w', t))
    (hl : s.state = .opLoginUsr ∨ s.state = .opLoginPss → ¬ TookAnonymous w s.sd)
    (herr : t.state = .err → s.state ≠ .opLoginUsr ∧ s.state ≠ .opLoginPss) :
    (s.assigns line t → ¬ t.Unassigned w') ∧ (¬ s.assigns line t → (t.Unassigned w' ↔ s.Unassigned w)) ∧
      (t.state = .opLoginUsr ∨ t.state = .opLoginPss → ¬ TookAnonymous w' t.sd) := by
  have hd := performSessionAction_did h
  have htook := tookAnonymous_act h
  unfold Session.assigns Session.Unassigned
  rw [hd.sd_eq]
  by_cases hst : s.state = .opLoginUsr ∨ s.state = .opLoginPss
  · have hstate := hd.login_state (fun he => by rcases hst with h | h <;> simp [h] at herr <;> exact herr he) hst
    rw [or_iff_right (hl hst)] at htook
    rcases hst with hst | hst
    · cases line with
      | none =>
        simp only [performSessionAction, performSessionActionWith, hst] at h
        cases h
      | some l =>
        have htook : TookAnonymous w' s.sd ↔ t.state = .opWait ∧ ¬ isRegister l := by
          rw [htook, ← anonymous_iff h hst]
          simp [hst]
        rw [htook]
        rcases hstate with ht | ht | ht <;> simp [ht, hst]
    · have htook : ¬ TookAnonymous w' s.sd := by
        rw [htook]
        simp [hst]
      rcases hstate with ht | ht | ht <;> simp [ht, hst, htook]
  · have ht : ¬ (t.state = .opLoginUsr ∨ t.state = .opLoginPss) := fun ht => hst (hd.login_back ht)
    rw [or_iff_left fun h => hst (.inl h.1)] at htook
    rw [not_or] at hst ht
    simp [hst, ht, htook]

theorem kept_uid (h : performSessionAction P ans w s line = .ok (w', t)) (ha : ¬ s.assigns line t) :
    t.uid = s.uid := by
  rcases performSessionAction_filled (u := s.uid) (p := s.privileges) h (fun _ _ _ => rfl) with ⟨ha', -⟩ | ⟨-, h'⟩
  · exact absurd ha' ha
  · have ht : t = t.filled s.uid s.privileges := (Prod.mk.inj (Except.ok.inj (h.symm.trans h'))).2
    have huid := congrArg Session.uid ht
    exact huid

/-! ## One event -/

theorem Served.twin {x x' : Option Session} (h : Served P ans w s u p w₁ x x') (hm : s.Unassigned w → M s.uid u)
    (hu : ¬ s.Unassigned w → u = s.uid) (hl : s.state = .opLoginUsr ∨ s.state = .opLoginPss →
    ¬ TookAnonymous w s.sd) :
    (x = none ∧ x' = none) ∨ ∃ t t', x = some t ∧ x' = some t' ∧ t.sd = s.sd ∧ t.Twin M w₁ t' ∧
      (t.state = .opLoginUsr ∨ t.state = .opLoginPss → ¬ TookAnonymous w₁ t.sd) := by
  cases h with
  | gone => exact .inl ⟨rfl, rfl⟩
  | idle => exact .inr ⟨s, _, rfl, rfl, rfl, ⟨u, p, rfl, hm, hu⟩, hl⟩
  | @assigned line b w' t hx ha =>
    obtain ⟨h1, -, h3⟩ := unassigned_act hx hl fun he => by rw [ha.1] at he; cases he
    refine .inr ⟨t, t, rfl, rfl, (performSessionAction_did hx).sd_eq, ?_, h3⟩
    exact ⟨t.uid, t.privileges, rfl, fun h => absurd h (h1 ha), fun _ => rfl⟩
  | @kept line b w' t hx ha herr =>
    obtain ⟨-, h2, h3⟩ := unassigned_act hx hl fun he => by rcases herr he with h | h <;> simp [h]
    have huid : t.uid = ({ s with buf := b } : Session).uid := kept_uid hx ha
    have hiff : t.Unassigned w₁ ↔ s.Unassigned w := h2 ha
    refine .inr ⟨t, _, rfl, rfl, (performSessionAction_did hx).sd_eq, ⟨u, p, rfl, fun h => ?_, fun h => ?_⟩, h3⟩
    · rw [huid]
      exact hm (hiff.mp h)
    · rw [huid]
      exact hu (mt hiff.mpr h)

theorem twin_set (ht : Twin M v v') (h : Wf v) (hl : LoginFirst v) {x x' : Option Session}
    (hlog : ∀ j, j ≠ i → logOf j w₁.trace = logOf j v.world.trace)
    (hx : (x = none ∧ x' = none) ∨ ∃ t t', x = some t ∧ x' = some t' ∧ t.sd = i ∧ t.Twin M w₁ t' ∧
      (t.state = .opLoginUsr ∨ t.state = .opLoginPss → ¬ TookAnonymous w₁ t.sd)) :
    LoginFirst (v.set i w₁ x) ∧ Twin M (v.set i w₁ x) (v'.set i w₁ x') := by
  have htook : ∀ j, j ≠ i → (TookAnonymous w₁ j ↔ TookAnonymous v.world j) :=
    fun j hj => tookAnonymous_congr (hlog j hj)
  refine ⟨fun j t hj hst => ?_, rfl, fun {j} hj => ?_, fun {j t} hj => ?_⟩
  · rw [Server.set_world]
    rcases Server.set_connections.mp hj with ⟨rfl, rfl⟩ | ⟨hne, hj⟩
    · rcases hx with ⟨hx, -⟩ | ⟨t', -, hx, -, hsd, -, hfirst⟩
      · cases hx
      · cases hx
        rw [← hsd]
        exact hfirst hst
    · rw [htook j hne]
      exact hl hj hst
  · by_cases hij : j = i
    · subst hij
      rcases hx with ⟨-, hx'⟩ | ⟨t, -, hx, -⟩
      · rw [Server.set_self, hx']
      · rw [Server.set_self, hx] at hj
        cases hj
    · exact (update_of_ne hij ..).trans (ht.none ((update_of_ne hij ..).symm.trans hj))
  · rcases Server.set_connections.mp hj with ⟨rfl, rfl⟩ | ⟨hne, hj⟩
    · rcases hx with ⟨hx, -⟩ | ⟨t', t'', hx, hx', -, htwin, -⟩
      · cases hx
      · cases hx
        exact ⟨t'', by rw [Server.set_self, hx'], htwin⟩
    · obtain ⟨t', ht', u, p, rfl, hm, hu⟩ := ht.some hj
      have hiff : t.Unassigned w₁ ↔ t.Unassigned v.world := by
        unfold Session.Unassigned
        rw [h.sd hj, htook j hne]
      exact ⟨_, Server.set_connections.mpr (.inr ⟨hne, ht'⟩), u, p, rfl, fun h => hm (hiff.mp h),
        fun h => hu (mt hiff.mpr h)⟩

/-- **One event** in both runs. -/
theorem twin_step (ht : Twin M v v') (h : Wf v) (hl : LoginFirst v) (hs : Steps P v e v₁) (hg : SavesNamed v e)
    (he : e.Alike M e') : LoginFirst v₁ ∧ ∃ v₁', Steps P v' e' v₁' ∧ Twin M v₁ v₁' := by
  cases e with
  | acceptFailed =>
    cases e' with
    | acceptFailed =>
      obtain rfl : v = v₁ := Except.ok.inj hs
      exact ⟨hl, v', rfl, ht⟩
    | _ => exact he.elim
  | accept sd uid privileges =>
    cases e' with
    | accept sd' uid' privileges' =>
      obtain ⟨rfl, hm⟩ := he
      have hlog : ∀ j, j ≠ sd → logOf j v₁.world.trace = logOf j v.world.trace := fun j hj => hs.logOf_eq h hj.symm
      have hs' : acceptClient P v sd uid privileges = .ok v₁ := hs
      unfold acceptClient acceptClientWith at hs'
      split at hs'
      · cases hs'
      rename_i hfree
      split at hs'
      · cases hs'
      rename_i hlt
      obtain ⟨⟨w₁, s⟩, hnew, hs'⟩ := bind_ok.mp hs'
      cases hs'
      have hstep : Steps P v' (.accept sd uid' privileges') (v'.set sd w₁ (some (s.filled uid' privileges'))) := by
        show acceptClient P v' sd uid' privileges' = _
        unfold acceptClient acceptClientWith
        rw [ht.world, if_neg hfree, if_neg hlt]
        exact congrArg (· >>= _) (makeNewSession_filled.trans (congrArg (Except.map (fill uid' privileges')) hnew))
      obtain ⟨w₂, hsay, hnew⟩ := bind_ok.mp hnew
      cases hnew
      -- nothing has been handled since the accept
      have hfresh : ¬ TookAnonymous w₁ sd := by
        obtain ⟨rfl, -⟩ := sessionSendString_ok hsay
        simp [TookAnonymous, ownLog]
      have hnew : (Session.fresh sd uid privileges).Twin M w₁ (.fresh sd uid' privileges') :=
        ⟨uid', privileges', rfl, fun _ => hm, fun hu => absurd (.inl rfl) hu⟩
      obtain ⟨hl₁, ht₁⟩ := twin_set ht h hl hlog (.inr ⟨_, _, rfl, rfl, rfl, hnew, fun _ => hfresh⟩)
      exact ⟨hl₁, _, hstep, ht₁⟩
    | _ => exact he.elim
  | ready i ans =>
    cases e' with
    | ready j ans' =>
      obtain ⟨rfl, rfl⟩ := he
      have hlog : ∀ j, j ≠ i → logOf j v₁.world.trace = logOf j v.world.trace := fun j hj => hs.logOf_eq h hj.symm
      cases hc : v.connections i with
      | none =>
        obtain rfl := hs.empty hc
        refine ⟨hl, v', ?_, ht⟩
        unfold Steps Server.step Server.stepWith
        simp only [ht.none hc]
      | some s =>
        obtain ⟨s', hc', u, p, rfl, hm, hu⟩ := ht.some hc
        have hsave : ∀ r ∈ lineOf ans s, Saves ans { s with buf := r.2 } r.1 → u = s.uid := by
          intro r hr hsave
          refine hu fun hun => ?_
          have hst : s.state = .opUploadDescription := hsave.1
          rcases hun with h1 | h1 | h1
          · rw [h1] at hst
            cases hst
          · rw [h1] at hst
            cases hst
          · rw [h.sd hc] at h1
            exact hg s hc r hr hsave h1
        obtain ⟨w₁, x, x', rfl, hstep, hserved⟩ :=
          serveSession_filled ((steps_ready_iff hc).mp hs) hc hc' ht.world hsave
        have htwin := hserved.twin hm hu fun hst => by rw [h.sd hc]; exact hl hc hst
        rw [h.sd hc] at htwin
        obtain ⟨hl₁, ht₁⟩ := twin_set ht h hl hlog htwin
        exact ⟨hl₁, _, (steps_ready_iff hc').mpr hstep, ht₁⟩
    | _ => exact he.elim

/-! ## A row with an unassigned id -/

@[simp] theorem outputs_closeFd (w : World) (s : Session) : (w.closeFd s).outputs = w.outputs := by
  unfold World.closeFd
  split <;> rfl

theorem saved_outputs (hs : Saves ans s l) (h : performSessionAction P ans w s (some l) = .ok (w', t)) :
    t.state = .opWait ∧ ∃ text row, row.userId = s.uid ∧
    w'.outputs = .said s.sd text :: .insertedFile s.sd row :: w.outputs := by
  obtain ⟨hst, hends, hi⟩ := hs
  have hd := performSessionAction_did h
  clear h
  cases hd with
  | @saved l' f dsc b name id row files _ _ _ _ _ _ _ hrow _ =>
    refine ⟨rfl, savedText name, row, by rw [hrow], ?_⟩
    rw [outputs_closeFd]
    rfl
  | talked _ _ hne => exact absurd hst hne
  | described _ hl hne =>
    cases hl
    exact absurd hends hne
  | notSaved _ _ _ _ _ _ hno => exact absurd hno hi
  | _ => simp_all

theorem dbSaveFile_any {sf : SFile} {uid id : Int} (h : dbSaveFile ans w s sf uid = .ok (id, w₁))
    (hi : ans.insert ≠ none)
    (s' : Session) (uid' : Int) : id ≠ 0 ∧ ∃ w₂, dbSaveFile ans w s' sf uid' = .ok (id, w₂) := by
  unfold dbSaveFile at h ⊢
  obtain ⟨name, hname, h⟩ := bind_ok.mp h
  cases hid : ans.insert with
  | none => exact absurd hid hi
  | some id =>
    simp only [hid] at h
    split at h
    · rename_i files hins
      cases h
      refine ⟨(ne_of_gt (FileTable.insert_rows hins).2), ?_⟩
      unfold FileTable.insert at hins ⊢
      split at hins
      · rename_i hkey
        rw [hname, ok_bind]
        simp only [dif_pos hkey]
        exact ⟨_, rfl⟩
      · cases hins
    · cases h

theorem saves_any (hs : Saves ans s l) (h : performSessionAction P ans w s (some l) = .ok (w', t)) (u p : Int) :
    ∃ r, performSessionAction P ans w (s.filled u p) (some l) = .ok r := by
  obtain ⟨hst, hends, hi⟩ := hs
  rw [performSessionAction_describe hst] at h
  rw [performSessionAction_describe (s := s.filled u p) hst]
  change ∃ r, describeWith sessionSendString (dbSaveFile ans) ans (w.log (.handled s.sd s.state (some l)))
    (s.filled u p) l = .ok r
  generalize w.log (.handled s.sd s.state (some l)) = w₀ at h ⊢
  have hbind := h
  obtain ⟨⟨res, t₀⟩, hdesc, hbind⟩ := bind_ok.mp hbind
  obtain rfl : res = true := by simpa [EndsDescription, hdesc, Except.toOption] using hends
  have hdesc' : fileUploadDescription ans (s.filled u p) l = .ok (true, t₀.filled u p) := by
    rw [fileUploadDescription_filled, hdesc]
    rfl
  simp only [if_true] at hbind
  obtain ⟨f, hf, hbind⟩ := bind_ok.mp hbind
  obtain ⟨⟨id, w₁⟩, hdb, hbind⟩ := bind_ok.mp hbind
  obtain ⟨name, hname, -⟩ := bind_ok.mp hbind
  rw [deref_ok] at hf hname
  obtain ⟨hid, w₂, hdb'⟩ := dbSaveFile_any hdb hi (t₀.filled u p) u
  rw [describeWith_saved hdesc hf hname hdb hid] at h
  obtain ⟨w₃, hsay, -⟩ := bind_ok.mp h
  rw [describeWith_saved hdesc' hf hname hdb' hid]
  exact ⟨_, bind_ok.mpr ⟨_, if_pos (sessionSendString_ok hsay).2, rfl⟩⟩

/-- A file that the server saves for an anonymous client shows the memory. -/
theorem saves_unequal (ht : Twin M v v') (hne : ∀ a b, M a b → a ≠ b) (h : Wf v) (hs : Steps P v e v₁)
    (hg : ¬ SavesNamed v e) : ∃ v₁', Steps P v' e v₁' ∧ v₁'.world.outputs ≠ v₁.world.outputs := by
  cases e with
  | accept | acceptFailed => exact absurd trivial hg
  | ready i ans =>
    simp only [SavesNamed, not_forall, not_not, exists_prop] at hg
    obtain ⟨s, hc, ⟨l, b⟩, hl, hsave, htook⟩ := hg
    have hst : s.state = .opUploadDescription := hsave.1
    have hup : ¬ (s.state = .opUpload ∨ s.state = .opDownload) := by simp [hst]
    obtain ⟨s', hc', u, p, rfl, hm, -⟩ := ht.some hc
    have huid : s.uid ≠ u := hne _ _ (hm (.inr (.inr (by rw [h.sd hc]; exact htook))))
    have hread : sessionDoRead ans v.world s = .ok (true, some l, v.world, { s with buf := b }) := by
      have hserve := (steps_ready_iff hc).mp hs
      unfold serveSession serveSessionWith at hserve
      rw [if_neg hup] at hserve
      obtain ⟨r, hread, -⟩ := bind_ok.mp hserve
      exact (sessionDoRead_line hl (by simp [hst]) hread) ▸ hread
    obtain ⟨w₁, t, hx, rfl⟩ := hs.line hc (by simp [hst]) (by simp [hst]) (by simp [hst]) hl
    obtain ⟨⟨w₂, t'⟩, hx'⟩ := saves_any hsave hx u p
    obtain ⟨ht₁, text, row, hrow, hout⟩ := saved_outputs hsave hx
    obtain ⟨ht₂, text', row', hrow', hout'⟩ := saved_outputs (hsave.filled u p) hx'
    have hs' : Steps P v' (.ready i ans) (v'.set i w₂ (some t')) := by
      rw [steps_ready_iff hc']
      unfold serveSession serveSessionWith
      rw [show (s.filled u p).state = s.state from rfl, if_neg hup, ht.world]
      refine (congrArg (· >>= _) (sessionDoRead_filled.trans (congrArg _ hread))).trans ?_
      change (performSessionAction P ans v.world (Session.filled { s with buf := b } u p) (some l) >>= _) = _
      rw [hx']
      exact if_neg (by rw [ht₂]; decide)
    refine ⟨_, hs', fun heq => huid ?_⟩
    rw [if_neg (by rw [ht₁]; decide), Server.set_world, Server.set_world, hout, hout'] at heq
    have hrows : row' = row := (Act.insertedFile.inj (List.cons.inj (List.cons.inj heq).2).1).2
    calc s.uid = row.userId := hrow.symm
      _ = row'.userId := by rw [hrows]
      _ = u := hrow'

/-! ## Runs -/

def Event.shifted : Event → Event
  | .accept sd uid privileges => .accept sd (uid + 1) privileges
  | e => e

theorem alike_shifted (e : Event) : e.Alike (fun a b => b = a + 1) e.shifted := by
  cases e <;> simp [Event.Alike, Event.shifted]

theorem Event.Alike.input (h : e.Alike M e') : e.SameInput e' := by
  cases e <;> cases e' <;> simp_all [Event.Alike, Event.SameInput]

variable {disk : Bytes → Option Bytes} {users : UserTable} {files : FileTable} {es fs : List Event}

theorem twin_run (r : Run (Guarded SavesNamed (Steps P)) (.start disk users files) es v)
    (he : List.Forall₂ (Event.Alike M) es fs) :
    ∃ v', Run (Steps P) (.start disk users files) fs v' ∧ Twin M v v' := by
  have hstep : ∀ v e v₁ v' e', Wf v ∧ LoginFirst v ∧ Twin M v v' → Event.Alike M e e' →
      Guarded SavesNamed (Steps P) v e v₁ → ∃ v₁', Steps P v' e' v₁' ∧ Wf v₁ ∧ LoginFirst v₁ ∧ Twin M v₁ v₁' := by
    rintro v e v₁ v' e' ⟨h, hl, ht⟩ he ⟨hg, hs⟩
    obtain ⟨hl₁, v₁', hs', ht₁⟩ := twin_step ht h hl hs hg he
    exact ⟨v₁', hs', h.step hs, hl₁, ht₁⟩
  have hstart : Twin M (.start disk users files) (.start disk users files) := ⟨rfl, fun _ => rfl, fun h => by cases h⟩
  obtain ⟨v', r', -, -, ht⟩ := r.follow hstep ⟨start_wf disk users files, fun _ _ h => (by cases h), hstart⟩ he
  exact ⟨v', r', ht⟩

theorem determined_of_guarded (r : Run (Guarded SavesNamed (Steps P)) (.start disk users files) es v) :
    Determined P (.start disk users files) es := by
  intro es₁ es₂ fs v₁ v₁' he hfs r₁ r₁'
  subst he
  obtain ⟨b, rg, -⟩ := r.split
  obtain rfl := Run.det Steps.det r₁ rg.unguard
  obtain ⟨v', r', ht⟩ := twin_run rg hfs
  rw [Run.det Steps.det r₁' r']
  unfold World.outputs
  rw [ht.world]

theorem guarded_of_determined (r : Run (Steps P) (.start disk users files) es v)
    (hd : Determined P (.start disk users files) es) :
    Run (Guarded SavesNamed (Steps P)) (.start disk users files) es v := by
  induction r with
  | nil => exact .nil
  | @snoc b c es e r hs ih =>
    have rg := ih fun es₁ es₂ fs v v' he => hd es₁ (es₂ ++ [e]) fs v v' (by rw [he, List.append_assoc])
    refine .snoc rg ⟨?_, hs⟩
    by_contra hg
    have hshift : List.Forall₂ (Event.Alike fun a b => b = a + 1) es (es.map Event.shifted) :=
      List.forall₂_map_right_iff.mpr (List.forall₂_same.mpr fun e _ => alike_shifted e)
    obtain ⟨b', r', ht⟩ := twin_run rg hshift
    obtain ⟨c', hs', hne⟩ := saves_unequal ht (fun a b h => by omega) (Reachable.wf ⟨_, _, _, es, r⟩) hs hg
    have hsame : List.Forall₂ Event.SameInput (es ++ [e]) (es.map Event.shifted ++ [e]) :=
      List.rel_append (hshift.imp fun _ _ h => h.input) (.cons (by cases e <;> simp [Event.SameInput, Event.Alike]) .nil)
    exact hne (hd _ [] _ c c' (List.append_nil _).symm hsame (.snoc r hs) (.snoc r' hs'))

/-- **Unassigned memory.** What is read of the line buffer is what was received. Two runs with the same
inputs insert the same rows and send the same bytes, whatever `malloc` returned, exactly as long as no file of
an anonymous client is saved. -/
theorem determined_iff (r : Run (Steps P) (.start disk users files) es v) :
    (∀ below buf rest, queryExtractFromMem below (buf ++ 0 :: rest) buf.length = queryExtractFromBuf2 below buf) ∧
    (Determined P (.start disk users files) es ↔ Run (Guarded SavesNamed (Steps P)) (.start disk users files) es v) :=
  ⟨queryExtractFromMem_eq, guarded_of_determined r, determined_of_guarded⟩

end

/-! ### A file without an owner -/

def anonymousSave (uid : Int) : List Event :=
  [.accept 4 uid 0, .ready 4 { read := some (ascii "anonymous") },
    .ready 4 { read := some (ascii "file upload \"a\" 1 0\n"), availableSpace := 1, probes := [{ opened := .fd 5 }] },
    .ready 4 { read := some (leBytes 8 0 ++ leBytes 8 1 ++ ascii "x") },
    .ready 4 { read := some (ascii "text:END:\n"), insert := some 1 }]

def Act.savedFor : Act → Option Int
  | .insertedFile _ row => some row.userId
  | _ => none

theorem anonymousSave_run (uid : Int) (h : uid = 0 ∨ uid = 7) :
    ∃ v, Run (Steps default) .fresh (anonymousSave uid) v ∧ v.world.outputs.filterMap Act.savedFor = [uid] := by
  have hrun : (Server.exec (fun _ _ => True) default .fresh (anonymousSave uid)).map
      (fun v => v.world.outputs.filterMap Act.savedFor) = some [uid] := by
    rcases h with rfl | rfl <;> decide +kernel
  obtain ⟨v, hv, hout⟩ := Option.map_eq_some_iff.mp hrun
  exact ⟨v, (Server.exec_run hv).unguard, hout⟩

/-- The `user_id` of the row is what `malloc` returned. -/
theorem anonymousSave_differs : ∃ v v', List.Forall₂ Event.SameInput (anonymousSave 0) (anonymousSave 7) ∧
    Run (Steps default) .fresh (anonymousSave 0) v ∧ Run (Steps default) .fresh (anonymousSave 7) v' ∧
    v'.world.outputs ≠ v.world.outputs := by
  obtain ⟨v, r, hv⟩ := anonymousSave_run 0 (.inl rfl)
  obtain ⟨v', r', hv'⟩ := anonymousSave_run 7 (.inr rfl)
  refine ⟨v, v', by simp [anonymousSave, Event.SameInput, Event.Alike], r, r', fun h => ?_⟩
  rw [h, hv] at hv'
  cases hv'

theorem determined_iff_anonymousSave : ∃ v, (Determined default .fresh (anonymousSave 0) ↔
    Run (Guarded SavesNamed (Steps default)) .fresh (anonymousSave 0) v) := by
  obtain ⟨v, r, -⟩ := anonymousSave_run 0 (.inl rfl)
  exact ⟨v, (determined_iff r).2⟩

end BbsServer
