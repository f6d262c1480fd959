import Mathlib.Data.List.Nodup
import BbsServer.RegisterSound

/-!
# Lines with and without a terminator

`query_extract_from_buf` keeps the newline of a line, and drops the carriage return before it. A handler
does the same for a text with any of the three endings exactly in the cases of `Insensitive`.
-/

namespace BbsServer

open CStr

def handleLine (P : Platform) (ans : Answers) (w : World) (s : Session) (line : Bytes) : M (World × Session) :=
  match s.state with
  | .opLoginUsr => do
    let (_, w, s) ← processUserName P ans w s line
    .ok (w, s)
  | .opLoginPss => do
    let (_, w, s) ← login P ans w s line
    .ok (w, s)
  | .opWait => processClientCommand P ans w s line
  | .opDownloadWaitConfirmPackage => downloadConfirm w s line
  | _ => .ok (w, s)

def SessState.takesLine (st : SessState) : Prop :=
  st = .opLoginUsr ∨ st = .opLoginPss ∨ st = .opWait ∨ st = .opDownloadWaitConfirmPackage

structure Effect where
  state : SessState
  reason : ErrorReason
  uname : Option Bytes
  uid : Int
  privileges : Int
  users : List UserRow
  files : List FileRow

def effectOf (r : World × Session) : Effect :=
  { state := r.2.state, reason := r.2.reason, uname := r.2.uname, uid := r.2.uid, privileges := r.2.privileges,
    users := r.1.users.rows, files := r.1.files.rows }

def lineFrom (ans : Answers) (buf : Bytes) : Option Bytes :=
  (queryExtractFromBuf2 (ans.below buf.length) buf).map (·.1)

def Insensitive (P : Platform) (ans : Answers) (w : World) (s : Session) (t : Bytes) : Prop :=
  match s.state with
  | .opLoginUsr => ascii "register" <+: t
  | .opLoginPss => ans.answered = true → ∀ row ∈ w.users.rows, some row.username = s.uname →
      (row.password = stringToSHA256 P t ↔ row.password = stringToSHA256 P (t ++ [nl]))
  | .opWait => t ≠ ascii "exit"
  | _ => True

section
variable {P : Platform} {ans : Answers} {w : World} {s : Session} {t : Bytes}

/-! ## What the buffer gives -/

theorem performSessionAction_handleLine (hst : s.state.takesLine) : performSessionAction P ans w s (some t) =
    handleLine P ans (w.log (.handled s.sd s.state (some t))) s t := by
  rcases hst with h | h | h | h
  all_goals
    unfold performSessionAction performSessionActionWith handleLine
    simp only [h]
    rfl

theorem lineFrom_bare (h0 : 0 ∉ t) (hn : nl ∉ t) : lineFrom ans t = if t = [] then none else some t := by
  unfold lineFrom
  split
  · rename_i h
    rw [h]
    rfl
  · rename_i h
    rw [queryExtractFromBuf2_bare h h0 hn]
    rfl

/-- Of an empty line the byte below is tested. -/
theorem lineFrom_nl (h0 : 0 ∉ t) (hn : nl ∉ t) (hcr : cr ∉ t) :
    lineFrom ans (t ++ [nl]) = some (if t = [] ∧ ans.below 1 = cr then [] else t ++ [nl]) := by
  have hpos : strchr (cstr (t ++ [nl])) nl = some t.length := by
    rw [cstr_of_nul_not_mem (by simpa using ⟨h0, by decide⟩)]
    exact strchr_append hn
  unfold lineFrom queryExtractFromBuf2
  rw [if_neg (by simp), hpos]
  cases t with
  | nil =>
    by_cases hb : ans.below 1 = cr
    · simp [hb]
    · simp [hb]
  | cons c t =>
    have hlast : (c :: t ++ [nl]).getD ((c :: t).length - 1) 0 ∈ c :: t := by
      rw [List.getD_eq_getElem?_getD, List.getElem?_append_left (by simp), List.getElem?_eq_getElem (by simp)]
      exact List.getElem_mem _
    have hne : (c :: t ++ [nl]).getD ((c :: t).length - 1) 0 ≠ cr := fun he => hcr (he ▸ hlast)
    dsimp only
    rw [if_neg (show (c :: t).length ≠ 0 by simp), if_neg hne, if_neg (by simp), List.take_of_length_le (by simp)]
    rfl

theorem lineFrom_crnl (h0 : 0 ∉ t) (hn : nl ∉ t) : lineFrom ans (t ++ [cr, nl]) = some (t ++ [nl]) := by
  have hpos : strchr (cstr (t ++ [cr, nl])) nl = some (t.length + 1) := by
    rw [cstr_of_nul_not_mem (by simpa using ⟨h0, by decide⟩)]
    have := strchr_append (a := t ++ [cr]) (b := []) (c := nl) (by simpa using ⟨hn, by decide⟩)
    simpa using this
  unfold lineFrom queryExtractFromBuf2
  rw [if_neg (show t ++ [cr, nl] ≠ [] by simp), hpos]
  dsimp only
  rw [if_neg (show t.length + 1 ≠ 0 by simp), Nat.add_sub_cancel, if_pos (by simp), if_neg (by simp)]
  simp

/-! ## Scanning a line -/

theorem scanArgs_snoc : scanArgs ans (t ++ [nl]) = scanArgs ans t := by
  unfold scanArgs
  rw [scanWord_snoc (by decide)]
  cases scanWord t with
  | none => rfl
  | some r =>
    simp only [Option.map_some]
    split
    · rfl
    · rw [scanWord_snoc (by decide)]
      cases scanWord r.2 with
      | none => rfl
      | some q => rfl

theorem skipTwoWords_snoc : skipTwoWords (t ++ [nl]) = (skipTwoWords t).map (· ++ [nl]) := by
  unfold skipTwoWords
  rw [scanWord_snoc (by decide)]
  cases scanWord t with
  | none => rfl
  | some r =>
    simp only [Option.map_some, Option.bind_some, scanWord_snoc (show isspace nl by decide), Option.map_map]
    rfl

theorem scanUInt_snoc : scanUInt (t ++ [nl]) = (scanUInt t).map fun r => (r.1, r.2 ++ [nl]) := by
  unfold scanUInt
  rw [scanNum_snoc (by decide), Option.map_map, Option.map_map]
  rfl

theorem scanListArgs_snoc : scanListArgs (t ++ [nl]) = scanListArgs t := by
  unfold scanListArgs
  rw [skipTwoWords_snoc]
  cases skipTwoWords t with
  | none => rfl
  | some u =>
    simp only [Option.map_some, Option.bind_some, scanUInt_snoc]
    cases scanUInt u with
    | none => rfl
    | some r =>
      simp only [Option.map_some, scanUInt_snoc]
      cases scanUInt r.2 with
      | none => rfl
      | some q => rfl

theorem fileSearch_snoc : fileSearch w s (t ++ [nl]) = fileSearch w s t := by
  unfold fileSearch fileSearchWith
  rw [skipTwoWords_snoc]
  cases skipTwoWords t with
  | none => rfl
  | some u =>
    simp only [Option.map_some, Option.bind_some, scanWord_snoc (show isspace nl by decide)]
    cases scanWord u with
    | none => rfl
    | some r =>
      simp only [Option.map_some, scanWord_snoc (show isspace nl by decide)]
      cases scanWord r.2 with
      | none => rfl
      | some q => rfl

theorem prefix_snoc {k : Bytes} (h : nl ∉ k) : k <+: t ++ [nl] ↔ k <+: t := by
  rw [List.prefix_concat_iff]
  constructor
  · rintro (rfl | hk)
    · simp at h
    · exact hk
  · exact .inr

theorem scanRegister_snoc : scanRegister (t ++ [nl]) = scanRegister t := by
  have hk : (ascii "register").isPrefixOf (t ++ [nl]) = (ascii "register").isPrefixOf t := by
    rw [Bool.eq_iff_iff, List.isPrefixOf_iff_prefix, List.isPrefixOf_iff_prefix]
    exact prefix_snoc (by decide)
  unfold scanRegister
  dsimp only
  rw [hk]
  by_cases hp : ascii "register" <+: t
  · have hdrop : (t ++ [nl]).drop (ascii "register").length = t.drop (ascii "register").length ++ [nl] :=
      List.drop_append_of_le_length hp.length_le
    rw [hdrop, scanWord_snoc (by decide)]
    cases scanWord (t.drop (ascii "register").length) with
    | none => rfl
    | some r =>
      simp only [Option.map_some, scanWord_snoc (show isspace nl by decide)]
      cases scanWord r.2 with
      | none => rfl
      | some q =>
        simp only [Option.map_some, scanWord_snoc (show isspace nl by decide)]
        cases scanWord q.2 with
        | none => rfl
        | some e => rfl
  · have : (ascii "register").isPrefixOf t = false := by
      rw [Bool.eq_false_iff, ne_eq, List.isPrefixOf_iff_prefix]
      exact hp
    rw [this]
    rfl

theorem fileSendPrepareWith_snoc {send : SendString} {get : GetFile → M (Option SFile)}
    {found : SFile → M (Int × World × Session)} :
    fileSendPrepareWith send get found w s (t ++ [nl]) = fileSendPrepareWith send get found w s t := by
  unfold fileSendPrepareWith
  rw [strchr_snoc (by decide), strrchr_snoc (by decide)]
  cases hb : strchr t 91 with
  | none => rfl
  | some b =>
    cases he : strrchr t 93 with
    | none => rfl
    | some e =>
      have hb := (strchr_eq_some hb).2.2
      have he := (strrchr_eq_some he).2.2
      have hname : ((t ++ [nl]).drop (b + 1)).take (e - (b + 1)) = (t.drop (b + 1)).take (e - (b + 1)) := by
        rw [List.drop_append_of_le_length hb, List.take_append_of_le_length (by rw [List.length_drop]; omega)]
      simp only [hname]

theorem scanSizePerm_snoc : scanSizePerm ans (t ++ [nl]) = scanSizePerm ans t := by
  unfold scanSizePerm scanLong scanInt
  rw [scanNum_snoc (by decide)]
  cases scanNum t with
  | none => rfl
  | some r =>
    simp only [Option.map_some, scanNum_snoc (show isspace nl by decide)]
    cases scanNum r.2.2 with
    | none => rfl
    | some q => rfl

theorem fileReceivePrepare_snoc : fileReceivePrepare ans w s (t ++ [nl]) = fileReceivePrepare ans w s t := by
  unfold fileReceivePrepare fileReceivePrepareWith
  rw [strchr_snoc (by decide)]
  cases hb : strchr t 34 with
  | none => rfl
  | some b =>
    have hb := (strchr_eq_some hb).2.2
    simp only [List.drop_append_of_le_length hb, strrchr_snoc (show nl ≠ 34 by decide)]
    cases hn : strrchr (t.drop (b + 1)) 34 with
    | none => rfl
    | some n =>
      have hn := (strrchr_eq_some hn).2.2
      simp only [List.drop_append_of_le_length hn, List.take_append_of_le_length hn.le, scanSizePerm_snoc]

/-! ## The keywords -/

theorem isExit_snoc (h0 : 0 ∉ t) : isExit (t ++ [nl]) = false := by
  rw [Bool.eq_false_iff]
  intro h
  have := (strncmpZero_whole (k := ascii "exit") (by simpa using ⟨h0, by decide⟩)).mp h
  exact absurd (show nl ∈ ascii "exit" by rw [← this]; simp) (by decide)

theorem isAnonymous_snoc (h0 : 0 ∉ t) : isAnonymous (t ++ [nl]) = false := by
  rw [Bool.eq_false_iff]
  intro h
  have := (strncmpZero_whole (k := ascii "anonymous") (by simpa using ⟨h0, by decide⟩)).mp h
  exact absurd (show nl ∈ ascii "anonymous" by rw [← this]; simp) (by decide)

theorem keyword_snoc {k : Bytes} (h0 : 0 ∉ k) (hn : nl ∉ k) :
    strncmpZero (t ++ [nl]) k k.length = strncmpZero t k k.length := by
  rw [Bool.eq_iff_iff, strncmpZero_prefix_iff h0, strncmpZero_prefix_iff h0]
  exact prefix_snoc hn

/-! ## The handlers -/

theorem processClientCommand_snoc (h0 : 0 ∉ t) (hx : t ≠ ascii "exit") :
    processClientCommand P ans w s (t ++ [nl]) = processClientCommand P ans w s t := by
  have hexit : ∀ w s, clientExit w s (t ++ [nl]) = clientExit w s t := fun w s => by
    have : isExit t = false := by
      rw [Bool.eq_false_iff]
      exact fun h => hx ((strncmpZero_whole (k := ascii "exit") h0).mp h)
    unfold clientExit clientExitWith
    rw [isExit_snoc h0, this]
  unfold processClientCommand processClientCommandWith
  simp only [scanArgs_snoc, scanListArgs_snoc, fileReceivePrepare_snoc, fileSendPrepareWith_snoc,
    fileSearch_snoc, hexit]

theorem downloadConfirm_snoc : downloadConfirm w s (t ++ [nl]) = downloadConfirm w s t := by
  have hcont : strncmpZero (t ++ [nl]) (ascii "continue") 8 = strncmpZero t (ascii "continue") 8 :=
    keyword_snoc (by decide) (by decide)
  have hcancel : strncmpZero (t ++ [nl]) (ascii "cancel") 6 = strncmpZero t (ascii "cancel") 6 :=
    keyword_snoc (by decide) (by decide)
  unfold downloadConfirm
  rw [hcont, hcancel]
  by_cases h : strncmpZero t (ascii "continue") 8 = true
  · have hlen : 8 ≤ t.length := ((strncmpZero_prefix_iff (k := ascii "continue") (by decide)).mp h).length_le
    have hscan : scanContinue (t ++ [nl]) = scanContinue t := by
      unfold scanContinue scanInt
      rw [List.drop_append_of_le_length hlen, scanNum_snoc (by decide)]
      cases scanNum (t.drop 8) with
      | none => rfl
      | some r => rfl
    rw [hscan]
  · rw [if_neg h, if_neg h]

theorem name_insensitive (h0 : 0 ∉ t) :
    (do let (_, w, s) ← processUserName P ans w s t; .ok (w, s) : M (World × Session)).map effectOf =
      (do let (_, w, s) ← processUserName P ans w s (t ++ [nl]); .ok (w, s) : M (World × Session)).map effectOf ↔
    ascii "register" <+: t := by
  have hreg : isRegister (t ++ [nl]) = isRegister t := keyword_snoc (k := ascii "register") (by decide) (by decide)
  unfold processUserName processUserNameWith
  rw [isExit_snoc h0, isAnonymous_snoc h0, hreg]
  by_cases hr : isRegister t = true
  · have hx : isExit t = false := by
      rw [Bool.eq_false_iff]
      intro h
      have ht := (strncmpZero_whole (k := ascii "exit") h0).mp h
      rw [ht] at hr
      exact absurd hr (by decide)
    have hcreate : createUser P ans w s (t ++ [nl]) = createUser P ans w s t := by
      unfold createUser createUserWith
      rw [scanRegister_snoc]
    simp only [hr, hx, hcreate, Bool.false_eq_true, if_true, if_false]
    exact iff_of_true trivial (isRegister_iff.mp hr)
  · refine iff_of_false (fun h => ?_) (fun h => hr (isRegister_iff.mpr h))
    have hlen : ∀ {x : String}, (ascii x).length < inBufSize → ∀ w, sessionSendString w s (ascii x) =
        .ok (w.log (.said s.sd (ascii x))) := fun h _ => if_pos h
    simp only [hr, Bool.false_eq_true, if_false, hlen (x := "Bye!") (by decide),
      hlen (x := "Welcome, Anonymous!") (by decide),
      hlen (x := "password> ") (by decide), ok_bind] at h
    -- with the newline, the line is a name
    split at h
    · simp [Except.map, effectOf] at h
    split at h
    · simp [Except.map, effectOf] at h
    · simp [Except.map, effectOf] at h

theorem dbUserAuth_iff : (dbUserAuth P ans w s.uname t { privileges := 0, uid := 0 }).uid ≠ 0 ↔
    ans.answered = true ∧ ∃ row ∈ w.users.rows, some row.username = s.uname ∧ row.password = stringToSHA256 P t := by
  constructor
  · intro h
    refine ⟨?_, ?_⟩
    · by_contra ha
      unfold dbUserAuth at h
      rw [if_neg ha] at h
      exact h rfl
    · obtain ⟨row, ⟨hrow, hname, hp⟩, -⟩ := dbUserAuth_row h
      exact ⟨row, hrow, hname, hp⟩
  · rintro ⟨ha, row, hrow, hname, hp⟩
    rw [← hname, dbUserAuth_registered ha hrow hp]
    have := (w.users.idRange row hrow).1
    omega

theorem dbUserAuth_privileges {name : Option Bytes} :
    (dbUserAuth P ans w name t { privileges := 0, uid := 0 }).privileges = 0 := by
  have hcb : ∀ (pass : Bytes) (rows : List UserRow) (r : OAuth), r.privileges = 0 →
      (rows.foldl (dbUserAuthCb pass) r).privileges = 0 := by
    intro pass rows
    induction rows with
    | nil => exact fun r h => h
    | cons row rows ih =>
      intro r h
      apply ih
      unfold dbUserAuthCb
      split
      · rfl
      · exact h
  unfold dbUserAuth
  split
  · exact hcb _ _ _ rfl
  · rfl

theorem login_state {p : Bytes} {ret : Int} {w' : World} {s' : Session} (h : login P ans w s p = .ok (ret, w', s')) :
    s'.state = if (dbUserAuth P ans w s.uname p { privileges := 0, uid := 0 }).uid ≠ 0 then .opWait else .opLoginUsr := by
  unfold login loginWith at h
  rw [tables_dbUserAuth, ok_bind] at h
  dsimp only at h
  split at h
  · rename_i hu
    obtain ⟨u, -, h⟩ := bind_ok.mp h
    obtain ⟨w₁, -, h⟩ := bind_ok.mp h
    cases h
    rw [if_pos hu]
  · rename_i hu
    obtain ⟨w₁, -, h⟩ := bind_ok.mp h
    cases h
    rw [if_neg hu]

theorem login_outcome {p q : Bytes}
    (h : (do let (_, w, s) ← login P ans w s p; .ok (w, s) : M (World × Session)).map effectOf =
      (do let (_, w, s) ← login P ans w s q; .ok (w, s) : M (World × Session)).map effectOf)
    (hp : (dbUserAuth P ans w s.uname p { privileges := 0, uid := 0 }).uid ≠ 0) :
    (dbUserAuth P ans w s.uname q { privileges := 0, uid := 0 }).uid ≠ 0 := by
  intro hq
  have hsend : sessionSendString w s (ascii "login_again>\n") = .ok (w.log (.said s.sd (ascii "login_again>\n"))) :=
    if_pos (by decide)
  have hlogin : login P ans w s q =
      .ok (1, w.log (.said s.sd (ascii "login_again>\n")), { s with state := .opLoginUsr }) := by
    unfold login loginWith
    rw [tables_dbUserAuth, ok_bind]
    dsimp only
    rw [if_neg (not_not.mpr hq), hsend]
    rfl
  rw [hlogin] at h
  cases hx : login P ans w s p with
  | error => rw [hx] at h; cases h
  | ok r =>
    obtain ⟨ret, w', s'⟩ := r
    have hst := login_state hx
    rw [if_pos hp] at hst
    rw [hx] at h
    have := congrArg Effect.state (Except.ok.inj h)
    simp only [effectOf, hst] at this
    cases this

theorem login_insensitive :
    (do let (_, w, s) ← login P ans w s t; .ok (w, s) : M (World × Session)).map effectOf =
      (do let (_, w, s) ← login P ans w s (t ++ [nl]); .ok (w, s) : M (World × Session)).map effectOf ↔
    (ans.answered = true → ∀ row ∈ w.users.rows, some row.username = s.uname →
      (row.password = stringToSHA256 P t ↔ row.password = stringToSHA256 P (t ++ [nl]))) := by
  constructor
  · intro h ha row hrow hname
    -- the row that a password matches is this one
    have hmatch : ∀ {p q : Bytes}, ((dbUserAuth P ans w s.uname p { privileges := 0, uid := 0 }).uid ≠ 0 →
        (dbUserAuth P ans w s.uname q { privileges := 0, uid := 0 }).uid ≠ 0) →
        row.password = stringToSHA256 P p → row.password = stringToSHA256 P q := by
      intro p q hpq hp
      obtain ⟨-, row', hrow', hname', hq⟩ := dbUserAuth_iff.mp (hpq (dbUserAuth_iff.mpr ⟨ha, row, hrow, hname, hp⟩))
      have : row' = row := List.inj_on_of_nodup_map w.users.names hrow' hrow
        (Option.some.inj (hname'.trans hname.symm))
      rwa [this] at hq
    exact ⟨hmatch (login_outcome h), hmatch (login_outcome h.symm)⟩
  · intro h
    have huid : (dbUserAuth P ans w s.uname t { privileges := 0, uid := 0 }).uid =
        (dbUserAuth P ans w s.uname (t ++ [nl]) { privileges := 0, uid := 0 }).uid := by
      by_cases hu : (dbUserAuth P ans w s.uname t { privileges := 0, uid := 0 }).uid ≠ 0
      · obtain ⟨ha, row, hrow, hname, hp⟩ := dbUserAuth_iff.mp hu
        rw [← hname, dbUserAuth_registered ha hrow hp, dbUserAuth_registered ha hrow ((h ha row hrow hname).mp hp)]
      · rw [not_not.mp hu]
        by_contra hne
        obtain ⟨ha, row, hrow, hname, hp⟩ := dbUserAuth_iff.mp (Ne.symm hne)
        exact hu (dbUserAuth_iff.mpr ⟨ha, row, hrow, hname, (h ha row hrow hname).mpr hp⟩)
    have hauth : dbUserAuth P ans w s.uname t { privileges := 0, uid := 0 } =
        dbUserAuth P ans w s.uname (t ++ [nl]) { privileges := 0, uid := 0 } := by
      have h1 : (dbUserAuth P ans w s.uname t { privileges := 0, uid := 0 }).privileges = 0 := dbUserAuth_privileges
      have h2 : (dbUserAuth P ans w s.uname (t ++ [nl]) { privileges := 0, uid := 0 }).privileges = 0 :=
        dbUserAuth_privileges
      generalize dbUserAuth P ans w s.uname t { privileges := 0, uid := 0 } = a at *
      generalize dbUserAuth P ans w s.uname (t ++ [nl]) { privileges := 0, uid := 0 } = b at *
      cases a
      cases b
      simp_all
    unfold login loginWith
    rw [tables_dbUserAuth, tables_dbUserAuth, hauth]

/-- **What the newline changes.** -/
theorem handleLine_snoc (hst : s.state.takesLine) (h0 : 0 ∉ t) :
    (handleLine P ans w s t).map effectOf = (handleLine P ans w s (t ++ [nl])).map effectOf ↔
      Insensitive P ans w s t := by
  unfold handleLine Insensitive
  rcases hst with h | h | h | h
  · simp only [h]
    exact name_insensitive h0
  · simp only [h]
    exact login_insensitive
  · simp only [h]
    by_cases hx : t = ascii "exit"
    · refine iff_of_false (fun he => ?_) (not_not.mpr hx)
      obtain rfl := hx
      have hexit : processClientCommand P ans w s (ascii "exit") = .ok (w.log (.said s.sd (ascii "OK. Bye!\n")),
          { s with state := .err, reason := .exit }) := rfl
      have hword : processClientCommand P ans w s (ascii "exit" ++ [nl]) = .ok (w, s) := rfl
      rw [hexit, hword] at he
      have := congrArg Effect.state (Except.ok.inj he)
      rw [show (effectOf (w, s)).state = s.state from rfl, h] at this
      cases this
    · rw [processClientCommand_snoc h0 hx]
      exact iff_of_true rfl hx
  · simp only [h]
    rw [downloadConfirm_snoc]
    exact iff_of_true rfl trivial

end

def endings (t : Bytes) : List Bytes := [t, t ++ [nl], t ++ [cr, nl]]

/-- **Line terminators.** In a state handled from a line, a text has one effect under all three endings
exactly if it is empty and not taken for a carriage return, or the handler is insensitive to the newline. -/
theorem terminator_iff {P : Platform} {ans : Answers} {w : World} {s : Session} {t : Bytes} (hst : s.state.takesLine)
    (h0 : 0 ∉ t) (hn : nl ∉ t) (hcr : cr ∉ t) :
    (∀ b₁ ∈ endings t, ∀ b₂ ∈ endings t, ∀ l₁ ∈ lineFrom ans b₁, ∀ l₂ ∈ lineFrom ans b₂,
      (handleLine P ans w s l₁).map effectOf = (handleLine P ans w s l₂).map effectOf) ↔
    (t = [] ∧ ans.below 1 ≠ cr) ∨ Insensitive P ans w s t := by
  have hlines : ∀ b ∈ endings t, ∀ l ∈ lineFrom ans b, l = t ++ [nl] ∨ (l = t ∧ ¬ (t = [] ∧ ans.below 1 ≠ cr)) := by
    intro b hb l hl
    simp only [endings, List.mem_cons, List.not_mem_nil, or_false] at hb
    rcases hb with rfl | rfl | rfl
    · rw [lineFrom_bare h0 hn] at hl
      split at hl
      · cases hl
      · rename_i hne
        cases hl
        exact .inr ⟨rfl, fun h => hne h.1⟩
    · rw [lineFrom_nl h0 hn hcr] at hl
      cases hl
      split
      · rename_i h
        exact .inr ⟨h.1.symm, fun h' => h'.2 h.2⟩
      · exact .inl rfl
    · rw [lineFrom_crnl h0 hn] at hl
      cases hl
      exact .inl rfl
  by_cases he : t = [] ∧ ans.below 1 ≠ cr
  · refine iff_of_true (fun b₁ hb₁ b₂ hb₂ l₁ hl₁ l₂ hl₂ => ?_) (.inl he)
    rcases hlines b₁ hb₁ l₁ hl₁ with rfl | ⟨-, h⟩
    · rcases hlines b₂ hb₂ l₂ hl₂ with rfl | ⟨-, h⟩
      · rfl
      · exact absurd he h
    · exact absurd he h
  · rw [or_iff_right he, ← handleLine_snoc hst h0]
    -- both lines come up
    have hbare : ∃ b ∈ endings t, t ∈ lineFrom ans b := by
      by_cases hne : t = []
      · have hb : ans.below 1 = cr := by
          by_contra hb
          exact he ⟨hne, hb⟩
        exact ⟨t ++ [nl], by simp [endings], by rw [lineFrom_nl h0 hn hcr, if_pos ⟨hne, hb⟩, hne]; rfl⟩
      · exact ⟨t, by simp [endings], by rw [lineFrom_bare h0 hn, if_neg hne]; rfl⟩
    constructor
    · intro h
      obtain ⟨b, hb, hl⟩ := hbare
      exact h b hb (t ++ [cr, nl]) (by simp [endings]) t hl (t ++ [nl]) (by rw [lineFrom_crnl h0 hn]; rfl)
    · intro h b₁ hb₁ b₂ hb₂ l₁ hl₁ l₂ hl₂
      rcases hlines b₁ hb₁ l₁ hl₁ with rfl | ⟨rfl, -⟩
      · rcases hlines b₂ hb₂ l₂ hl₂ with rfl | ⟨rfl, -⟩
        · rfl
        · exact h.symm
      · rcases hlines b₂ hb₂ l₂ hl₂ with rfl | ⟨rfl, -⟩
        · exact h
        · rfl

/-! ### `exit` and a registration before the login -/

/-- `exit` ends the session, `exit` with a newline is a user name. -/
theorem exit_newline : ascii "exit" ∈ lineFrom {} (ascii "exit") ∧ ascii "exit\n" ∈ lineFrom {} (ascii "exit\n") ∧
    (handleLine default {} Server.fresh.world (.fresh 4 0 0) (ascii "exit")).map effectOf ≠
      (handleLine default {} Server.fresh.world (.fresh 4 0 0) (ascii "exit\n")).map effectOf := by
  refine ⟨by decide, by decide, fun h => ?_⟩
  have := congrArg Effect.state (Except.ok.inj h)
  exact absurd this (by decide)

theorem terminator_iff_register : (∀ b₁ ∈ endings (ascii "register bob 1 b@b"), ∀ b₂ ∈ endings (ascii "register bob 1 b@b"),
    ∀ l₁ ∈ lineFrom {} b₁, ∀ l₂ ∈ lineFrom {} b₂, (handleLine default {} Server.fresh.world (.fresh 4 0 0) l₁).map effectOf =
      (handleLine default {} Server.fresh.world (.fresh 4 0 0) l₂).map effectOf) ↔
    (ascii "register bob 1 b@b" = [] ∧ ({} : Answers).below 1 ≠ cr) ∨
      Insensitive default {} Server.fresh.world (.fresh 4 0 0) (ascii "register bob 1 b@b") :=
  terminator_iff (.inl rfl) (by decide) (by decide) (by decide)

end BbsServer
