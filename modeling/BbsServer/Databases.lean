import BbsServer.CreateSound
import BbsServer.IdentitySound
import BbsServer.ListedSound
import BbsServer.LookupSound
import BbsServer.SaveSound

/-!
# The server over its database

A build takes the functions of `db.h` from `db_sqlite.c` or from `db_postgresql.c`. Over `db_sqlite.c` the server
is that of the other modules (`stepOver_sqlite`).
-/

namespace BbsServer

open CStr

def Database.sqlite (P : Platform) : Database :=
  { Database.tables P with dbUserAuth := fun ans w name => dbUserAuthSqlite P ans.answered (authRows w name) }

/-- What PostgreSQL adds: its order and `ILIKE`, the text of a date, its result for the `UPDATE` of a login, and
the memory that `malloc` gives for a file. -/
structure Postgres where
  order : Sqlite
  day : Bytes
  updated : PgResult
  memory : SFile

def selected (answered : Bool) (rows : List (List Cell)) : PgResult := if answered then .tuples rows else .notTuples

def fileRows (w : World) (key : FileKey) : List (List Cell) :=
  ((((joined w).map (·.1)).map FileRow.found).filter key.holds).map FoundRow.cells

def PgInsert.ofId : Option Int → PgInsert
  | none => .failed
  | some id => .tuples [id]

def Database.postgresql (P : Platform) (G : Postgres) : Database where
  dbUserAuth ans w name := dbUserAuthPostgresql P (selected ans.answered (authRows w name)) G.updated
  dbUserCreate ans := dbUserCreatePostgresql P ans.answered ans.answered ans.insert
  dbSaveFile ans := dbSaveFilePostgresql (.ofId ans.insert)
  dbGetFile ans w := dbGetFilePostgresql G.memory fun key => selected ans.answered (fileRows w key)
  dbGetFilesData ans w arg := do
    let (count, list, fullCount) ←
      dbGetFilesDataPostgresql G.order (ans.answered, ans.answered) ans.fullCount (w.tables G.day)
      ⟨cstr arg.searchStr, nul_not_mem_cstr _, arg.limit, arg.offset, .id, .asc⟩
    .ok (list, count, fullCount)

abbrev Server.stepOver (D : Database) := Server.stepWith sessionSendString D

/-! ## Over `db_sqlite.c` -/

section
variable {P : Platform} {ans : Answers} {w : World} {s : Session}

theorem performSessionAction_sqlite {line : Option Bytes} :
    performSessionActionWith sessionSendString (.sqlite P) ans w s line = performSessionAction P ans w s line := by
  unfold performSessionAction performSessionActionWith
  cases hst : s.state with
  | opLoginPss =>
    cases line with
    | none => rfl
    | some l =>
      have hlogin : ∀ w, loginWith sessionSendString ((Database.sqlite P).dbUserAuth ans w) ans.after w s l =
        login P ans w s l :=
        fun _ => login_with.symm
      simp only [deref, ok_bind, hlogin]
  | _ => rfl

theorem stepOver_sqlite (v : Server) (e : Event) : v.stepOver (.sqlite P) P e = v.step P e := by
  cases e with
  | accept | acceptFailed => rfl
  | ready i ans =>
    simp only [Server.step, Server.stepOver, Server.stepWith]
    cases v.connections i with
    | none => rfl
    | some s => simp only [serveSessionWith, performSessionAction_sqlite]

end

end BbsServer
