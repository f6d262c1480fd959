import BbsServer.Backend

/-!
# The answer to a registration, with either database

`db_user_create` of `db_postgresql.c` looks for the name and the email before it inserts; that of
`db_sqlite.c` leaves both to the constraints and tells a clash from no other failure. The codes that
`create_user` distinguishes come from PostgreSQL, or where there is no clash (`user_codes_iff`).
-/

namespace BbsServer

open CStr

/-! ## `db_user_create` -/

/-- What `INSERT INTO users ... RETURNING id` leaves, if it is not refused; `id` is the next id, unless the
database cannot insert a row. -/
def World.insertUser (w : World) (s : Session) (id : Option Int) (row : Int → UserRow) : Option (Int × World) :=
  id.bind fun id => (w.users.insert (row id)).map fun users =>
    (id, { w with users, trace := .insertedUser s.sd (row id) :: w.trace })

def returningId (inserted : Option (Int × World)) : List (List Cell) := inserted.toList.map fun r => [.integer r.1]

def insertResult (inserted : Option (Int × World)) : PgResult :=
  if inserted.isSome then .tuples (returningId inserted) else .notTuples

def dbUserCreateCb (row : List Cell) (_ : Int) : DbCbResp × Int := (.dbSuccess, columnInt row 0)

/-- `db_user_create` of `db_sqlite.c`. The row is returned by one step and committed by the next. -/
def dbUserCreateSqlite (P : Platform) (prepared committed : Bool) (id : Option Int) (w : World) (s : Session)
    (args : DbUserCreate) : M (Int × World) :=
  let inserted := if prepared then w.insertUser s id (newUser P args) else none
  let (_, uid) := vdbQuery prepared (returningId inserted) dbUserCreateCb 0
  .ok (uid, if committed then (inserted.map (·.2)).getD w else w)

def selectIds (answered : Bool) (w : World) (key : UserRow → Bool) : PgResult :=
  if answered then .tuples ((w.users.rows.filter key).map fun r => [.integer r.id]) else .notTuples

def dbUserCreatePostgresql (P : Platform) (byName byEmail : Bool) (id : Option Int) (w : World) (s : Session)
    (args : DbUserCreate) : M (Int × World) := do
  let res := selectIds byName w (·.username == args.uname)
  if res.refused then .ok (-1, w)
  else if res.ntuples > 0 then .ok (-2, w)
  else
    let res := selectIds byEmail w (·.email == args.email)
    if res.refused then .ok (-1, w)
    else if res.ntuples > 0 then .ok (-3, w)
    else
      let inserted := w.insertUser s id (newUser P args)
      let res := insertResult inserted
      if res.refused then .ok (-4, w)
      else
        let value ← deref (res.getvalue 0 0)
        .ok (atoi value, (inserted.map (·.2)).getD w)

inductive UsersDb
  | sqlite (prepared committed : Bool)
  | postgresql (byName byEmail : Bool)

def UsersDb.backend : UsersDb → Backend
  | .sqlite .. => .sqlite
  | .postgresql .. => .postgresql

def Backend.users : Backend → UsersDb
  | .sqlite => .sqlite true true
  | .postgresql => .postgresql true true

def UsersDb.dbUserCreate (P : Platform) : UsersDb → Option Int → World → Session → DbUserCreate → M (Int × World)
  | .sqlite prepared committed => dbUserCreateSqlite P prepared committed
  | .postgresql byName byEmail => dbUserCreatePostgresql P byName byEmail

/-! ## The codes -/

structure NextId (t : UserTable) where
  id : Int
  new : id ∉ t.rows.map (·.id)
  range : 0 < id ∧ id < 2 ^ 31

def World.HasName (w : World) (name : Bytes) : Prop := ∃ r ∈ w.users.rows, r.username = name

def World.HasEmail (w : World) (email : Bytes) : Prop := ∃ r ∈ w.users.rows, r.email = email

/-- The result tells a clash of names, else a clash of emails, else the id of the one row that is new. -/
structure Codes (P : Platform) (w : World) (args : DbUserCreate) (id res : Int) (w' : World) : Prop where
  name : w.HasName args.uname → res = -2
  email : ¬ w.HasName args.uname → w.HasEmail args.email → res = -3
  row : ¬ w.HasName args.uname → ¬ w.HasEmail args.email →
    w'.users.rows = w.users.rows ++ [newUser P args id] ∧ res = id ∧ 0 < res

/-- A result that is not positive: the table is as it was, and `create_user` leaves the session. -/
def LeavesUser (db : World → Session → DbUserCreate → M (Int × World)) (args : DbUserCreate) : Prop :=
  ∀ w s, ∃ res w', db w s args = .ok (res, w') ∧ (res ≤ 0 → w'.users = w.users ∧
    ∀ line, scanRegister line = .ok (some args) →
      ∃ w'' s', createUserWith sessionSendString db w s line = .ok (res, w'', s') ∧
      w''.users = w.users ∧ s'.state = s.state ∧ s'.uname = s.uname ∧ s'.uid = s.uid)

structure CreatesUser (P : Platform) (b : Backend) (w : World) (s : Session) (next : NextId w.users)
    (args : DbUserCreate) : Prop where
  codes : ∃ res w', b.users.dbUserCreate P (some next.id) w s args = .ok (res, w') ∧ Codes P w args next.id res w'
  leaves : ∀ db : UsersDb, db.backend = b → ∀ id, LeavesUser (db.dbUserCreate P id) args

section
variable {P : Platform} {ans : Answers} {w w' : World} {s s' : Session} {line : Bytes} {args : DbUserCreate}
  {id : Option Int} {res : Int} {db : World → Session → DbUserCreate → M (Int × World)}

theorem insertUser_some {r : Int × World} (h : w.insertUser s id (newUser P args) = some r) :
    id = some r.1 ∧ 0 < r.1 ∧ r.1 < 2 ^ 31 ∧ r.2.users.rows = w.users.rows ++ [newUser P args r.1] := by
  obtain ⟨i, rfl, h⟩ := Option.bind_eq_some_iff.mp h
  obtain ⟨users, hu, rfl⟩ := Option.map_eq_some_iff.mp h
  refine ⟨rfl, (UserTable.insert_rows hu).2, ?_, (UserTable.insert_rows hu).1⟩
  unfold UserTable.insert at hu
  split at hu
  · rename_i hc; exact hc.2.2
  · cases hu

/-- The constraints of the table are all that can refuse a row with the next id. -/
theorem insertUser_next (next : NextId w.users) (hn : ¬ w.HasName args.uname) (he : ¬ w.HasEmail args.email) :
    ∃ w', w.insertUser s (some next.id) (newUser P args) = some (next.id, w') := by
  have hnew : (newUser P args next.id).id ∉ w.users.rows.map (·.id) ∧
      (newUser P args next.id).username ∉ w.users.rows.map (·.username) ∧
      (newUser P args next.id).email ∉ w.users.rows.map (·.email) :=
    ⟨next.new, fun h => hn (List.mem_map.mp h), fun h => he (List.mem_map.mp h)⟩
  exact ⟨_, congrArg (Option.map _) (dif_pos ⟨hnew, next.range⟩)⟩

theorem insertUser_clash (h : w.HasName args.uname ∨ w.HasEmail args.email) :
    w.insertUser s id (newUser P args) = none := by
  cases id with
  | none => rfl
  | some i =>
    refine congrArg (Option.map _) (dif_neg fun hc => ?_)
    rcases h with h | h
    · exact hc.1.2.1 (List.mem_map.mpr h)
    · exact hc.1.2.2 (List.mem_map.mpr h)

theorem dbUserCreateSqlite_none {prepared committed : Bool}
    (h : (if prepared then w.insertUser s id (newUser P args) else none) = none) :
    dbUserCreateSqlite P prepared committed id w s args = .ok (0, w) := by
  unfold dbUserCreateSqlite
  rw [h]
  cases prepared <;> cases committed <;> rfl

theorem dbUserCreateSqlite_some {committed : Bool} {r : Int × World}
    (h : w.insertUser s id (newUser P args) = some r) :
    dbUserCreateSqlite P true committed id w s args = .ok (r.1, if committed then r.2 else w) := by
  obtain ⟨-, hpos, hlt, -⟩ := insertUser_some h
  have huid : toInt r.1 = r.1 := toInt_of_lt (by omega) hlt
  unfold dbUserCreateSqlite
  rw [if_pos rfl, h]
  show Except.ok (toInt r.1, if committed then r.2 else w) = _
  rw [huid]

theorem dbUserCreate_sqlite (prepared committed : Bool) : dbUserCreate P
      { ans with insert := (if prepared then w.insertUser s id (newUser P args) else none).map (·.1), committed } w s args =
    dbUserCreateSqlite P prepared committed id w s args := by
  cases h : (if prepared then w.insertUser s id (newUser P args) else none) with
  | none => exact (dbUserCreateSqlite_none h).symm
  | some r =>
    obtain ⟨rfl, h⟩ := Option.ite_none_right_eq_some.mp h
    rw [dbUserCreateSqlite_some h]
    obtain ⟨i, rfl, h⟩ := Option.bind_eq_some_iff.mp h
    obtain ⟨users, hu, rfl⟩ := Option.map_eq_some_iff.mp h
    unfold dbUserCreate
    simp only [Option.map_some]
    split
    · rename_i users' hu'
      cases hu'.symm.trans hu
      rfl
    · rename_i hnone
      cases hnone.symm.trans hu

theorem ntuples_selectIds {key : UserRow → Bool} :
    0 < (selectIds true w key).ntuples ↔ ∃ r ∈ w.users.rows, key r := by
  simp [selectIds, List.length_pos_iff_exists_mem]

theorem ntuples_name {u : Bytes} : 0 < (selectIds true w (·.username == u)).ntuples ↔ w.HasName u := by
  simp [ntuples_selectIds, World.HasName]

theorem ntuples_email {e : Bytes} : 0 < (selectIds true w (·.email == e)).ntuples ↔ w.HasEmail e := by
  simp [ntuples_selectIds, World.HasEmail]

theorem dbUserCreatePostgresql_name (byEmail : Bool) (hn : w.HasName args.uname) :
    dbUserCreatePostgresql P true byEmail id w s args = .ok (-2, w) := by
  unfold dbUserCreatePostgresql
  rw [if_neg (by simp [selectIds]), if_pos (ntuples_name.mpr hn)]

theorem dbUserCreatePostgresql_email (byEmail : Bool) (hn : ¬ w.HasName args.uname) :
    dbUserCreatePostgresql P true byEmail id w s args =
      if !byEmail then .ok (-1, w)
      else if 0 < (selectIds true w (·.email == args.email)).ntuples then .ok (-3, w)
      else .ok ((w.insertUser s id (newUser P args)).getD (-4, w)) := by
  unfold dbUserCreatePostgresql
  rw [if_neg (by simp [selectIds]), if_neg (mt ntuples_name.mp hn)]
  cases byEmail with
  | false => rfl
  | true =>
    rw [if_neg (by simp [selectIds])]
    simp only [Bool.not_true, Bool.false_eq_true, if_false]
    refine if_congr Iff.rfl rfl ?_
    cases h : w.insertUser s id (newUser P args) with
    | none => rfl
    | some r =>
      obtain ⟨-, hpos, hlt, -⟩ := insertUser_some h
      show Except.ok (atoi (decimalInt r.1), r.2) = _
      rw [atoi_decimalInt hpos.le hlt]
      rfl

/-- PostgreSQL inserts a row, or leaves the world and returns one of its codes. -/
theorem dbUserCreatePostgresql_cases (byName byEmail : Bool) :
    (∃ r, w.insertUser s id (newUser P args) = some r ∧ dbUserCreatePostgresql P byName byEmail id w s args = .ok r) ∨
    ∃ res, res ≤ 0 ∧ dbUserCreatePostgresql P byName byEmail id w s args = .ok (res, w) := by
  cases byName with
  | false => exact .inr ⟨-1, by decide, rfl⟩
  | true =>
    by_cases hn : w.HasName args.uname
    · exact .inr ⟨-2, by decide, dbUserCreatePostgresql_name byEmail hn⟩
    rw [dbUserCreatePostgresql_email byEmail hn]
    cases byEmail with
    | false => exact .inr ⟨-1, by decide, rfl⟩
    | true =>
      rw [if_neg (by decide)]
      split
      · exact .inr ⟨-3, by decide, rfl⟩
      · cases h : w.insertUser s id (newUser P args) with
        | none => exact .inr ⟨-4, by decide, rfl⟩
        | some r => exact .inl ⟨r, rfl, rfl⟩

/-- Either database: the id of a row, or the world as it was. -/
theorem UsersDb.dbUserCreate_cases (d : UsersDb) (P : Platform) (id : Option Int) (w : World) (s : Session)
    (args : DbUserCreate) :
    (∃ r, 0 < r.1 ∧ d.dbUserCreate P id w s args = .ok r) ∨ ∃ res, res ≤ 0 ∧
    d.dbUserCreate P id w s args = .ok (res, w) := by
  cases d with
  | sqlite prepared committed =>
    show (∃ r, 0 < r.1 ∧ dbUserCreateSqlite P prepared committed id w s args = .ok r) ∨
      ∃ res, res ≤ 0 ∧ dbUserCreateSqlite P prepared committed id w s args = .ok (res, w)
    cases h : (if prepared then w.insertUser s id (newUser P args) else none) with
    | none => exact .inr ⟨0, le_rfl, dbUserCreateSqlite_none h⟩
    | some r =>
      obtain ⟨rfl, h⟩ := Option.ite_none_right_eq_some.mp h
      exact .inl ⟨(r.1, if committed then r.2 else w), (insertUser_some h).2.1, dbUserCreateSqlite_some h⟩
  | postgresql byName byEmail =>
    refine (dbUserCreatePostgresql_cases byName byEmail).imp_left ?_
    rintro ⟨r, h, hr⟩
    exact ⟨r, (insertUser_some h).2.1, hr⟩

theorem createUserWith_failed (hline : scanRegister line = .ok (some args)) (hdb : db w s args = .ok (res, w'))
    (hres : res ≤ 0) : ∃ t, createUserWith sessionSendString db w s line = .ok (res, w'.log (.said s.sd t), s) := by
  have hsend : ∀ {x : String}, (ascii x).length < inBufSize → sessionSendString w' s (ascii x) =
      .ok (w'.log (.said s.sd (ascii x))) := fun h => if_pos h
  unfold createUserWith
  rw [hline, ok_bind]
  dsimp only
  rw [hdb, ok_bind]
  dsimp only
  rw [if_neg (by omega)]
  split
  · exact ⟨_, by rw [hsend (by decide), ok_bind]⟩
  · split
    · exact ⟨_, by rw [hsend (by decide), ok_bind]⟩
    · exact ⟨_, by rw [hsend (by decide), ok_bind]⟩

theorem UsersDb.leaves (d : UsersDb) (id : Option Int) : LeavesUser (d.dbUserCreate P id) args := by
  intro w s
  rcases d.dbUserCreate_cases P id w s args with ⟨r, hpos, hr⟩ | ⟨res, hle, hr⟩
  · exact ⟨r.1, r.2, hr, fun h => absurd h (by omega)⟩
  · refine ⟨res, w, hr, fun _ => ⟨rfl, fun line hline => ?_⟩⟩
    obtain ⟨t, ht⟩ := createUserWith_failed hline hr hle
    exact ⟨_, s, ht, rfl, rfl, rfl, rfl⟩

theorem users_insert (b : Backend) (next : NextId w.users) (hn : ¬ w.HasName args.uname)
    (he : ¬ w.HasEmail args.email) :
    ∃ w', b.users.dbUserCreate P (some next.id) w s args = .ok (next.id, w') ∧
      w'.users.rows = w.users.rows ++ [newUser P args next.id] := by
  obtain ⟨w', hw⟩ := insertUser_next (P := P) (s := s) next hn he
  refine ⟨w', ?_, (insertUser_some hw).2.2.2⟩
  cases b with
  | sqlite => exact dbUserCreateSqlite_some hw
  | postgresql =>
    show dbUserCreatePostgresql P true true _ w s args = _
    rw [dbUserCreatePostgresql_email true hn, if_neg (by decide), if_neg (mt ntuples_email.mp he), hw]
    rfl

theorem sqlite_clash (h : w.HasName args.uname ∨ w.HasEmail args.email) :
    Backend.sqlite.users.dbUserCreate P id w s args = .ok (0, w) :=
  dbUserCreateSqlite_none ((if_pos rfl).trans (insertUser_clash h))

theorem postgresql_clash (id : Option Int) (h : w.HasName args.uname ∨ w.HasEmail args.email) : ∃ res,
    Backend.postgresql.users.dbUserCreate P id w s args = .ok (res, w) ∧ (w.HasName args.uname → res = -2) ∧
      (¬ w.HasName args.uname → res = -3) := by
  by_cases hn : w.HasName args.uname
  · exact ⟨-2, dbUserCreatePostgresql_name true hn, fun _ => rfl, fun h => absurd hn h⟩
  · refine ⟨-3, ?_, fun h => absurd h hn, fun _ => rfl⟩
    show dbUserCreatePostgresql P true true id w s args = _
    rw [dbUserCreatePostgresql_email true hn, if_neg (by decide), if_pos (ntuples_email.mpr (h.resolve_left hn))]

end

/-- **The codes of a registration.** `db_user_create` tells which of the name and the email exists, or inserts
the row, and a failure changes nothing, exactly if the database is PostgreSQL or neither exists. -/
theorem user_codes_iff {P : Platform} (b : Backend) (w : World) (s : Session) (next : NextId w.users)
    (args : DbUserCreate) :
    CreatesUser P b w s next args ↔ b = .postgresql ∨ ¬ w.HasName args.uname ∧ ¬ w.HasEmail args.email := by
  by_cases hclash : w.HasName args.uname ∨ w.HasEmail args.email
  · have hnot : ¬ (¬ w.HasName args.uname ∧ ¬ w.HasEmail args.email) := fun h => hclash.elim h.1 h.2
    rw [or_iff_left hnot]
    cases b with
    | sqlite =>
      refine iff_of_false (fun h => ?_) (by decide)
      obtain ⟨res, w', hrun, hcodes⟩ := h.codes
      obtain ⟨rfl, -⟩ : 0 = res ∧ _ := by simpa using (sqlite_clash hclash).symm.trans hrun
      by_cases hn : w.HasName args.uname
      · exact absurd (hcodes.name hn) (by decide)
      · exact absurd (hcodes.email hn (hclash.resolve_left hn)) (by decide)
    | postgresql =>
      obtain ⟨res, hrun, hname, hemail⟩ := postgresql_clash (P := P) (s := s) (some next.id) hclash
      exact iff_of_true ⟨⟨res, w, hrun, hname, fun hn _ => hemail hn, fun hn he => absurd ⟨hn, he⟩ hnot⟩,
        fun d _ id => d.leaves id⟩ rfl
  · rw [not_or] at hclash
    obtain ⟨w', hrun, hrows⟩ := users_insert (P := P) (s := s) b next hclash.1 hclash.2
    exact iff_of_true ⟨⟨next.id, w', hrun, fun h => absurd h hclash.1, fun _ h => absurd h hclash.2,
      fun _ _ => ⟨hrows, rfl, next.range.1⟩⟩, fun d _ id => d.leaves id⟩ (.inr hclash)

/-! ### A name that exists -/

def bobsTable : UserTable :=
  ⟨[⟨1, ascii "bob", [], ascii "b@c", 1⟩], by simp, by simp, by simp, by simp⟩

def bobsWorld : World := World.start (fun _ => none) bobsTable .empty

def secondId : NextId bobsWorld.users := ⟨2, by decide, by decide⟩

/-- SQLite reports the name of `bob` as 0, which `create_user` answers with its last text. -/
theorem taken_name_zero :
    Backend.sqlite.users.dbUserCreate default (some 2) bobsWorld (.fresh 4 0 0)
      ⟨ascii "bob", ascii "1234", ascii "b@d"⟩ = .ok (0, bobsWorld) ∧
    ¬ CreatesUser default .sqlite bobsWorld (.fresh 4 0 0) secondId ⟨ascii "bob", ascii "1234", ascii "b@d"⟩ := by
  have hname : bobsWorld.HasName (ascii "bob") := ⟨_, List.mem_singleton_self _, rfl⟩
  have hzero : Backend.sqlite.users.dbUserCreate default (some 2) bobsWorld (.fresh 4 0 0)
      ⟨ascii "bob", ascii "1234", ascii "b@d"⟩ = .ok (0, bobsWorld) := sqlite_clash (.inl hname)
  refine ⟨hzero, fun h => ?_⟩
  obtain ⟨res, w', hrun, hcodes⟩ := h.codes
  obtain ⟨rfl, -⟩ : 0 = res ∧ _ := by simpa using hzero.symm.trans hrun
  exact absurd (hcodes.name hname) (by decide)

end BbsServer
