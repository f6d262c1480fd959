import BbsServer.AuthSound
import BbsServer.Backend

/-!
# The identity of a login, with either database

`db_user_auth` passes the privileges of a row in one `char`, which `login` reads as the text of a number.
`db_sqlite.c` stores the column behind the last one there, and `db_postgresql.c` the first character of the
column (`identity_iff`).
-/

namespace BbsServer

open CStr

def UserRow.cells (r : UserRow) : List Cell :=
  [.integer r.id, .text r.username, .text r.password, .integer r.privileges]

def selectedUsers (w : World) (name : Option Bytes) : List UserRow := w.users.rows.filter (some ·.username == name)

def authRows (w : World) (name : Option Bytes) : List (List Cell) := (selectedUsers w name).map UserRow.cells

def dbUserAuthStmt (passwordHashed : Bytes) (row : List Cell) (r : OAuth) : M (DbCbResp × OAuth) := do
  let pass ← deref (columnText row 2)
  if passwordHashed = pass then .ok (.dbSuccess, { privileges := toChar (columnInt row 6), uid := columnInt row 0 })
  else .ok (.dbFail, r)

def dbUserAuthSqlite (P : Platform) (prepared : Bool) (rows : List (List Cell)) (pass : Bytes) (r : OAuth) :
    M (Int × OAuth) := do
  let (res, r) ← vdbQueryM prepared rows (dbUserAuthStmt (stringToSHA256 P pass)) r
  .ok (if res = .dbSuccess then r.uid else 0, r)

def firstChar (s : Bytes) : Int := toChar (s.headD 0).toNat

def dbUserAuthPostgresql (P : Platform) (res updated : PgResult) (pass : Bytes) (r : OAuth) : M (Int × OAuth) := do
  if res.refused then .ok (1, r)
  else if res.ntuples = 0 then .ok (4, r)
  else
    let value ← deref (res.getvalue 0 2)
    if stringToSHA256 P pass = value then
      let privileges ← deref (res.getvalue 0 3)
      let id ← deref (res.getvalue 0 0)
      .ok (if updated.refused then 3 else 0, { privileges := firstChar privileges, uid := atoi id })
    else .ok (2, r)

def Backend.dbUserAuth (b : Backend) (P : Platform) (updated : PgResult) (w : World) (name : Option Bytes)
    (pass : Bytes) (r : OAuth) : M (Int × OAuth) :=
  match b with
  | .sqlite => dbUserAuthSqlite P true (authRows w name) pass r
  | .postgresql => dbUserAuthPostgresql P (.tuples (authRows w name)) updated pass r

/-! ## What a login should take from the row -/

/-- `db_user_auth` fills the response exactly for a row with the name and the password's hash, with its id; and
`login` then has its id and its privileges, where they fit a `char` and the greeting fits its buffer. -/
structure YieldsIdentity (P : Platform) (b : Backend) (updated : PgResult) (after : Bytes) (w : World) (s : Session)
    (pass : Bytes) : Prop where
  unset : (∀ row, ¬ Matches P w s.uname pass row) → ∀ r, ∃ ret, b.dbUserAuth P updated w s.uname pass r = .ok (ret, r)
  set : ∀ row, Matches P w s.uname pass row → ∀ r, ∃ ret r', b.dbUserAuth P updated w s.uname pass r = .ok (ret, r') ∧
    r'.uid = row.id ∧ 0 < row.id
  login : ∀ row, Matches P w s.uname pass row → -2 ^ 7 ≤ row.privileges → row.privileges < 2 ^ 7 →
    (welcomeText row.username).length < inBufSize →
    ∃ w' s', loginWith sessionSendString (b.dbUserAuth P updated w) after w s pass = .ok (0, w', s') ∧
      s'.uid = row.id ∧ s'.privileges = row.privileges

def ReadsFrom (c : UInt8) (after : Bytes) (v : Int) : Prop :=
  ∃ x rest, ReadsInt 0 (cstr (c :: after)) x rest ∧ -2 ^ 63 ≤ x ∧ x < 2 ^ 63 ∧ toChar x = v

/-- The privileges that get through the `char`, with what lies behind it in memory. -/
def Backend.Passes (after : Bytes) (v : Int) : Backend → Prop
  | .sqlite => v = 0
  | .postgresql => ReadsFrom ((decimalInt v).headD 0) after v

section
variable {P : Platform} {ans : Answers} {b : Backend} {updated : PgResult} {after pass : Bytes} {w : World}
  {s : Session}
  {name : Option Bytes} {row : UserRow} {r : OAuth} {v x : Int} {c : UInt8}

/-! ## `db_user_auth` -/

theorem selectedUsers_cases (w : World) (name : Option Bytes) : selectedUsers w name = [] ∨
    ∃ row ∈ w.users.rows, some row.username = name ∧ selectedUsers w name = [row] := by
  cases h : selectedUsers w name with
  | nil => exact .inl rfl
  | cons row rows =>
    obtain ⟨hrow, hname⟩ := List.mem_filter.mp
      (show row ∈ selectedUsers w name by rw [h]; exact List.mem_cons_self ..)
    obtain rfl : some row.username = name := by simpa using hname
    refine .inr ⟨row, hrow, rfl, h.symm.trans ?_⟩
    simpa [selectedUsers] using filter_key w.users.names hrow

theorem Matches.selected (h : Matches P w name pass row) : selectedUsers w name = [row] := by
  obtain ⟨hrow, rfl, -⟩ := h
  simpa [selectedUsers] using filter_key w.users.names hrow

def Backend.char (b : Backend) (v : Int) : Int :=
  match b with
  | .sqlite => 0
  | .postgresql => firstChar (decimalInt v)

theorem dbUserAuth_none (h : selectedUsers w name = []) :
    ∃ ret, b.dbUserAuth P updated w name pass r = .ok (ret, r) := by
  have hrows : authRows w name = [] := congrArg (List.map _) h
  unfold Backend.dbUserAuth
  rw [hrows]
  cases b with
  | sqlite => exact ⟨0, rfl⟩
  | postgresql => exact ⟨4, rfl⟩

theorem dbUserAuthStmt_cells (hid : toInt row.id = row.id) (hash : Bytes) : dbUserAuthStmt hash row.cells r =
    .ok (if row.password = hash then (.dbSuccess, ⟨0, row.id⟩) else (.dbFail, r)) := by
  have hcells : dbUserAuthStmt hash row.cells r =
      if hash = row.password then .ok (.dbSuccess, ⟨0, toInt row.id⟩) else .ok (.dbFail, r) := rfl
  rw [hcells, hid]
  by_cases hp : row.password = hash
  · rw [if_pos hp, if_pos hp.symm]
  · rw [if_neg hp, if_neg (Ne.symm hp)]

theorem dbUserAuthPostgresql_cells : dbUserAuthPostgresql P (.tuples [row.cells]) updated pass r =
    if stringToSHA256 P pass = row.password then
      .ok (if updated.refused then 3 else 0, ⟨firstChar (decimalInt row.privileges), atoi (decimalInt row.id)⟩)
    else .ok (2, r) := by
  have hpass : (PgResult.tuples [row.cells]).getvalue 0 2 = some row.password := rfl
  have hpriv : (PgResult.tuples [row.cells]).getvalue 0 3 = some (decimalInt row.privileges) := rfl
  have hid : (PgResult.tuples [row.cells]).getvalue 0 0 = some (decimalInt row.id) := rfl
  unfold dbUserAuthPostgresql
  rw [if_neg (by simp), if_neg (by simp), hpass, hpriv, hid]
  simp only [deref, ok_bind]

theorem dbUserAuth_one (b : Backend) (P : Platform) (updated : PgResult) (pass : Bytes) (r : OAuth)
    (hrow : row ∈ w.users.rows)
    (h : selectedUsers w name = [row]) : ∃ ret, b.dbUserAuth P updated w name pass r =
      .ok (ret, if row.password = stringToSHA256 P pass then ⟨b.char row.privileges, row.id⟩ else r) := by
  have hrows : authRows w name = [row.cells] := congrArg (List.map _) h
  obtain ⟨hpos, hlt⟩ := w.users.idRange row hrow
  unfold Backend.dbUserAuth
  rw [hrows]
  cases b with
  | sqlite =>
    have hcb := dbUserAuthStmt_cells (r := r) (toInt_of_lt (by omega) hlt) (stringToSHA256 P pass)
    by_cases hp : row.password = stringToSHA256 P pass
    · rw [if_pos hp] at hcb ⊢
      exact ⟨row.id, by unfold dbUserAuthSqlite; rw [vdbQueryM_one hcb]; rfl⟩
    · rw [if_neg hp] at hcb ⊢
      exact ⟨0, by unfold dbUserAuthSqlite; rw [vdbQueryM_one hcb]; rfl⟩
  | postgresql =>
    dsimp only
    rw [dbUserAuthPostgresql_cells, atoi_decimalInt hpos.le hlt]
    by_cases hp : row.password = stringToSHA256 P pass
    · exact ⟨if updated.refused then 3 else 0, by rw [if_pos hp, if_pos hp.symm]; rfl⟩
    · exact ⟨2, by rw [if_neg hp, if_neg (Ne.symm hp)]⟩

theorem dbUserAuth_sqlite (P : Platform) (ans : Answers) (w : World) (name : Option Bytes) (pass : Bytes)
    (r : OAuth) :
    ∃ ret, dbUserAuthSqlite P ans.answered (authRows w name) pass r =
    .ok (ret, dbUserAuth P ans w name pass r) := by
  unfold dbUserAuth
  cases ha : ans.answered with
  | false => exact ⟨0, rfl⟩
  | true =>
    rw [if_pos rfl]
    change ∃ ret, Backend.sqlite.dbUserAuth P .notTuples w name pass r = .ok (ret, (selectedUsers w name).foldl _ r)
    rcases selectedUsers_cases w name with h | ⟨row, hrow, -, h⟩
    · rw [h]
      exact dbUserAuth_none h
    · obtain ⟨ret, hret⟩ := dbUserAuth_one .sqlite P .notTuples pass r hrow h
      refine ⟨ret, hret.trans ?_⟩
      rw [h]
      unfold dbUserAuthCb
      simp only [List.foldl_cons, List.foldl_nil, eq_comm, Backend.char]

theorem login_with : login P ans w s pass =
    loginWith sessionSendString (fun name pass r => dbUserAuthSqlite P ans.answered (authRows w name) pass r)
      ans.after w s pass := by
  obtain ⟨ret, h⟩ := dbUserAuth_sqlite P ans w s.uname pass { privileges := 0, uid := 0 }
  unfold login loginWith
  rw [tables_dbUserAuth, ok_bind]
  beta_reduce
  rw [h]
  rfl

/-! ## The text behind the `char` -/

theorem byte_toChar (c : UInt8) : UInt8.ofNat (toChar c.toNat % 256).toNat = c := by
  have hmod : toChar c.toNat % 256 = c.toNat := by
    have hlow : toChar c.toNat % ((2 ^ 8 : Nat) : Int) = c.toNat % ((2 ^ 8 : Nat) : Int) := by
      unfold toChar wrap
      rw [Int.bmod_emod]
    have := c.toNat_lt
    omega
  rw [hmod]
  simp

theorem decimalInt_head (v : Int) : (0 ≤ v ∧ isdigit ((decimalInt v).headD 0)) ∨ v < 0 ∧
    (decimalInt v).headD 0 = 45 := by
  cases v with
  | ofNat n =>
    obtain ⟨c, t, hc⟩ := List.exists_cons_of_ne_nil (decimal_ne_nil n)
    refine .inl ⟨Int.natCast_nonneg n, ?_⟩
    show isdigit ((decimal n).headD 0)
    rw [hc]
    exact decimal_digits n c (by rw [hc]; exact List.mem_cons_self ..)
  | negSucc n => exact .inr ⟨Int.negSucc_lt_zero n, rfl⟩

/-- A number outside `long` is told from one that fits by its low byte. -/
theorem toChar_clampLong (hsign : 0 ≤ v ∧ 0 ≤ x ∨ v < 0 ∧ x ≤ 0) :
    toChar (clampLong x) = v ↔ -2 ^ 63 ≤ x ∧ x < 2 ^ 63 ∧ toChar x = v := by
  by_cases hfit : -2 ^ 63 ≤ x ∧ x < 2 ^ 63
  · rw [clampLong_of_le hfit.1 hfit.2, ← and_assoc, and_iff_right hfit]
  · refine iff_of_false (fun h => ?_) fun h => hfit ⟨h.1, h.2.1⟩
    rcases hsign with ⟨hv, hx⟩ | ⟨hv, hx⟩
    · have hclamp : clampLong x = 2 ^ 63 - 1 := by unfold clampLong; omega
      rw [hclamp, show toChar (2 ^ 63 - 1) = -1 by decide] at h
      omega
    · have hclamp : clampLong x = -2 ^ 63 := by unfold clampLong; omega
      rw [hclamp, show toChar (-2 ^ 63) = 0 by decide] at h
      omega

theorem toChar_atoi (s : Bytes) : toChar (atoi s) =
    ((scanNum s).map fun r => toChar (clampLong (signed r.1 r.2.1))).getD 0 := by
  unfold atoi scanInt
  cases scanNum s with
  | none => rfl
  | some r => exact (toChar_wrap _).trans (congrArg toChar (toLong_eq ..))

/-- What `atoi` makes of the first character of a value and the memory behind it. -/
theorem toChar_atoi_iff : toChar (atoi (cstr ((decimalInt v).headD 0 :: after))) = v ↔
    ReadsFrom ((decimalInt v).headD 0) after v := by
  unfold ReadsFrom ReadsInt
  simp only [← scanNum_iff]
  rw [toChar_atoi]
  have hcons : ∀ {c : UInt8}, c ≠ 0 → cstr (c :: after) = c :: cstr after := fun h => by simp [cstr, h]
  cases hs : scanNum (cstr ((decimalInt v).headD 0 :: after)) with
  | none =>
    refine iff_of_false (fun h => ?_) (by simp)
    rcases decimalInt_head v with ⟨hv, hd⟩ | ⟨hv, -⟩
    · rw [hcons (fun h0 => by rw [h0] at hd; exact absurd hd (by decide))] at hs
      obtain ⟨n, rest, hn⟩ := scanNum_digit (cstr after) hd
      rw [hn] at hs
      cases hs
    · simp at h
      omega
  | some r =>
    obtain ⟨neg, n, rest⟩ := r
    have hsign : 0 ≤ v ∧ 0 ≤ signed neg n ∨ v < 0 ∧ signed neg n ≤ 0 := by
      rcases decimalInt_head v with ⟨hv, hd⟩ | ⟨hv, hc⟩
      · rw [hcons (fun h0 => by rw [h0] at hd; exact absurd hd (by decide))] at hs
        obtain ⟨m, rest', hm⟩ := scanNum_digit (cstr after) hd
        rw [hm] at hs
        cases hs
        exact .inl ⟨hv, by simp [signed]⟩
      · rw [hc, hcons (by decide)] at hs
        obtain rfl := scanNum_minus hs
        exact .inr ⟨hv, by simp [signed]⟩
    simp only [Option.map_some, Option.getD_some, Option.some.injEq, Prod.mk.injEq]
    rw [toChar_clampLong hsign]
    constructor
    · rintro ⟨h1, h2, h3⟩
      exact ⟨_, rest, ⟨neg, n, ⟨rfl, rfl, rfl⟩, rfl⟩, h1, h2, h3⟩
    · rintro ⟨x, rest', ⟨neg', n', ⟨rfl, rfl, rfl⟩, rfl⟩, h⟩
      exact h

theorem passes_iff (b : Backend) :
    toChar (atoi (cstr (UInt8.ofNat (b.char v % 256).toNat :: after))) = v ↔ b.Passes after v := by
  cases b with
  | sqlite =>
    have hnul : UInt8.ofNat (Backend.sqlite.char v % 256).toNat = 0 := rfl
    have hempty : cstr (0 :: after) = [] := by simp [cstr]
    have hzero : toChar (atoi []) = 0 := by decide
    rw [hnul, hempty, hzero]
    exact eq_comm
  | postgresql =>
    unfold Backend.char firstChar
    dsimp only
    rw [byte_toChar]
    exact toChar_atoi_iff

/-! ## `login` -/

theorem loginWith_set {auth : Option Bytes → Bytes → OAuth → M (Int × OAuth)} {ret : Int} {u : Bytes}
    (hauth : auth s.uname pass { privileges := 0, uid := 0 } = .ok (ret, r)) (hr : r.uid ≠ 0) (hu : s.uname = some u)
    (hfit : (welcomeText u).length < inBufSize) : loginWith sessionSendString auth after w s pass =
      .ok (0, w.log (.said s.sd (welcomeText u)),
      { s with state := .opWait, privileges := toChar (atoi (cstr (UInt8.ofNat (r.privileges % 256).toNat :: after))),
               uid := r.uid }) := by
  unfold loginWith
  rw [hauth, ok_bind]
  dsimp only
  rw [if_pos hr, hu, deref, ok_bind, sessionSendString, if_pos hfit, ok_bind]

theorem Matches.auth (h : Matches P w s.uname pass row) (b : Backend) (updated : PgResult) (r : OAuth) :
    ∃ ret, b.dbUserAuth P updated w s.uname pass r = .ok (ret, ⟨b.char row.privileges, row.id⟩) := by
  obtain ⟨ret, hret⟩ := dbUserAuth_one b P updated pass r h.1 h.selected
  rw [if_pos h.2.2] at hret
  exact ⟨ret, hret⟩

theorem YieldsIdentity.char (h : YieldsIdentity P b updated after w s pass) (hrow : Matches P w s.uname pass row)
    (hlo : -2 ^ 7 ≤ row.privileges) (hhi : row.privileges < 2 ^ 7)
    (hfit : (welcomeText row.username).length < inBufSize) :
    toChar (atoi (cstr (UInt8.ofNat (b.char row.privileges % 256).toNat :: after))) = row.privileges := by
  obtain ⟨ret, hauth⟩ := hrow.auth b updated { privileges := 0, uid := 0 }
  obtain ⟨w', s', hrun, -, hpriv⟩ := h.login row hrow hlo hhi hfit
  have hid := (w.users.idRange row hrow.1).1
  rw [loginWith_set hauth (by simp; omega) hrow.2.1.symm hfit] at hrun
  cases hrun
  exact hpriv

theorem dbUserAuth_unset (h : ∀ row, ¬ Matches P w name pass row) (r : OAuth) :
    ∃ ret, b.dbUserAuth P updated w name pass r = .ok (ret, r) := by
  rcases selectedUsers_cases w name with hs | ⟨row, hrow, hname, hs⟩
  · exact dbUserAuth_none hs
  · obtain ⟨ret, hret⟩ := dbUserAuth_one b P updated pass r hrow hs
    rw [if_neg fun hp => h row ⟨hrow, hname, hp⟩] at hret
    exact ⟨ret, hret⟩

end

/-- **The identity of a login.** Either database sets the id exactly for a row with the name and the password's
hash; the session has the privileges of that row exactly if they get through the `char`: with SQLite if they
are 0, with PostgreSQL if the memory behind their first character goes on to the number. -/
theorem identity_iff (P : Platform) (b : Backend) (updated : PgResult) (after : Bytes) (w : World) (s : Session)
    (pass : Bytes) : YieldsIdentity P b updated after w s pass ↔ ∀ row, Matches P w s.uname pass row →
      -2 ^ 7 ≤ row.privileges → row.privileges < 2 ^ 7 → (welcomeText row.username).length < inBufSize →
      b.Passes after row.privileges := by
  constructor
  · exact fun h row hrow hlo hhi hfit => (passes_iff b).mp (h.char hrow hlo hhi hfit)
  · intro h
    refine ⟨fun hno r => dbUserAuth_unset hno r, fun row hrow r => ?_, fun row hrow hlo hhi hfit => ?_⟩
    · obtain ⟨ret, hauth⟩ := hrow.auth b updated r
      exact ⟨ret, _, hauth, rfl, (w.users.idRange row hrow.1).1⟩
    · obtain ⟨ret, hauth⟩ := hrow.auth b updated { privileges := 0, uid := 0 }
      have hid := (w.users.idRange row hrow.1).1
      exact ⟨_, _, loginWith_set hauth (by simp; omega) hrow.2.1.symm hfit, rfl,
        (passes_iff b).mpr (h row hrow hlo hhi hfit)⟩

/-! ### A row with privileges -/

def bobWith (privileges : Int) : World :=
  .start (fun _ => none) ⟨[⟨1, ascii "bob", stringToSHA256 knows1234 (ascii "1234"), ascii "b@c", privileges⟩],
    by simp, by simp, by simp, by simp⟩ .empty

def bobsSession : Session := { Session.fresh 4 0 0 with uname := some (ascii "bob"), state := .opLoginPss }

/-- SQLite loses the 1 that every registered user has, and PostgreSQL makes a 1 of a 10. -/
theorem privileges_lost : ¬ YieldsIdentity knows1234 .sqlite .notTuples [] (bobWith 1) bobsSession (ascii "1234") ∧
    ¬ YieldsIdentity knows1234 .postgresql .notTuples [] (bobWith 10) bobsSession (ascii "1234") := by
  have hmatch : ∀ v, Matches knows1234 (bobWith v) bobsSession.uname (ascii "1234")
      ⟨1, ascii "bob", stringToSHA256 knows1234 (ascii "1234"), ascii "b@c", v⟩ :=
        fun v => ⟨List.mem_singleton_self _, rfl, rfl⟩
  constructor
  · intro h
    exact absurd (h.char (hmatch 1) (by decide) (by decide) (by decide)) (by decide)
  · intro h
    exact absurd (h.char (hmatch 10) (by decide) (by decide) (by decide)) (by decide)

end BbsServer
