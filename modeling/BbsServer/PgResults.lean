import BbsServer.Lib.Stateful
import BbsServer.Lib.Heap
import BbsServer.CreateSound
import BbsServer.IdentitySound
import BbsServer.LookupSound
import BbsServer.ListedSound

/-!
# The results of PostgreSQL

`db_postgresql.c` with its static variables `conn` and `res`, and the results that libpq allocates. A result that
has been cleared is not there any more, so that clearing it or reading it again fails. A query that fails may have
none.
-/

namespace BbsServer

open CStr Stateful

/-- `conn` and `res`, and how many queries there have been; a connection that is not there has been finished. -/
structure Pg where
  connected : Bool
  res : Option Nat
  heap : Heap PgResult
  queries : Nat

/-- libpq is given a result that has been cleared, or a connection that has been finished. -/
inductive PgFault
  | cleared
  | finished
  | halt (h : Halt)
  deriving DecidableEq, Repr

abbrev PgM := StateT Pg (Except PgFault)

/-! ## libpq -/

section
variable (A : Heap.Allocator PgResult) (null : Nat → Bool)

/-- `res = PQexecParams(conn, ...)`, where `answer` is what the database says, and `null` for which of the queries
that fail it returns `NULL`. -/
def pqExec (answer : PgResult) : PgM Unit := fun db =>
  if db.connected then
    let db := { db with queries := db.queries + 1 }
    if answer.refused && null db.queries then .ok ((), { db with res := none })
    else .ok ((), { db with res := some (A.alloc db.heap answer).1, heap := (A.alloc db.heap answer).2 })
  else .error .finished

def pqClear : PgM Unit := fun db =>
  match db.res with
  | none => .ok ((), db)
  | some p =>
    match db.heap.free p with
    | none => .error .cleared
    | some heap => .ok ((), { db with heap })

def pqResult : PgM PgResult := fun db =>
  match db.res with
  | none => .ok (.notTuples, db)
  | some p =>
    match db.heap.get p with
    | none => .error .cleared
    | some r => .ok (r, db)

def pqRefused : PgM Bool := do
  let res ← pqResult
  return res.refused

def pqNtuples : PgM Nat := do
  let res ← pqResult
  return res.ntuples

def pqGetvalue (tup field : Nat) : PgM Bytes := do
  let res ← pqResult
  lift .halt (deref (res.getvalue tup field))

def clearRes : PgM Unit := do
  pqClear
  modify fun db => { db with res := none }

/-- `exit_query`, `exit_query_2` and `exit_query_3`, which leave `res` as it is. -/
def exitQuery {α : Type} (code : α) : PgM α := do
  let db ← get
  if db.res ≠ none then pqClear
  return code

/-! ## The functions of `db.h` -/

def dbUserAuthPg (P : Platform) (answer updated : PgResult) (pass : Bytes) (r : OAuth) : PgM (Int × OAuth) := do
  pqExec A null answer
  if ← pqRefused then exitQuery (1, r)
  else if (← pqNtuples) = 0 then exitQuery (4, r)
  else
    let value ← pqGetvalue 0 2
    if stringToSHA256 P pass = value then
      let privileges ← pqGetvalue 0 3
      let id ← pqGetvalue 0 0
      clearRes
      pqExec A null updated
      if ← pqRefused then exitQuery (3, { privileges := firstChar privileges, uid := atoi id })
      else exitQuery (0, { privileges := firstChar privileges, uid := atoi id })
    else exitQuery (2, r)

def dbUserCreatePg (P : Platform) (byName byEmail : Bool) (id : Option Int) (w : World) (s : Session)
    (args : DbUserCreate) :
    PgM (Int × World) := do
  pqExec A null (selectIds byName w (·.username == args.uname))
  if ← pqRefused then exitQuery (-1, w)
  else if (← pqNtuples) > 0 then exitQuery (-2, w)
  else
    pqExec A null (selectIds byEmail w (·.email == args.email))
    if ← pqRefused then exitQuery (-1, w)
    else if (← pqNtuples) > 0 then exitQuery (-3, w)
    else
      clearRes
      let inserted := w.insertUser s id (newUser P args)
      pqExec A null (insertResult inserted)
      if ← pqRefused then exitQuery (-4, w)
      else
        let value ← pqGetvalue 0 0
        clearRes
        return (atoi value, (inserted.map (·.2)).getD w)

def PgInsert.result : PgInsert → PgResult
  | .failed => .notTuples
  | .tuples ids => .tuples (ids.map fun id => [.integer id])

def dbSaveFilePg (res : PgInsert) (w : World) (s : Session) (sf : SFile) (uid : Int) : PgM (Int × World) := do
  let name ← lift .halt (deref sf.name)
  let w ← lift .halt (w.insertFile s res.stored (savedRow sf uid · name))
  pqExec A null res.result
  if ← pqRefused then exitQuery (0, w)
  else
    let value ← pqGetvalue 0 0
    clearRes
    return (atoi value, w)

def dbGetFilePg (sf : SFile) (query : FileKey → PgResult) (arg : GetFile) : PgM (Option SFile) :=
  match postgresqlKey arg with
  | none => return none
  | some key =>
    if 64 ≤ key.value.length then lift .halt (.error (.fault .overflow))
    else do
      pqExec A null (query key)
      if ← pqRefused then exitQuery none
      else
        let id ← pqGetvalue 0 0
        let ownerId ← pqGetvalue 0 1
        let name ← pqGetvalue 0 2
        let size ← pqGetvalue 0 3
        let description ← pqGetvalue 0 4
        let permissions ← pqGetvalue 0 5
        let hash ← pqGetvalue 0 6
        clearRes
        return some { sf with
          id := atoi id, ownerId := atoi ownerId, name := some name, size := sizeT (atoll size),
          description := some description, permissions := toChar (atoi permissions), hash := .ofInt 32 (atoi hash) }

def pgItemPg (i : Nat) : PgM FlItem := do
  let id ← pqGetvalue i 0
  let ownerId ← pqGetvalue i 1
  let name ← pqGetvalue i 2
  let size ← pqGetvalue i 3
  let description ← pqGetvalue i 4
  let permissions ← pqGetvalue i 5
  let hash ← pqGetvalue i 6
  let owner ← pqGetvalue i 7
  return { name, description, owner, permissions := toChar (atoi permissions), ownerId := atoi ownerId,
           hash := .ofInt 32 (atoi hash), size := sizeT (atoll size), id := atoi id }

def pgItemsPg : List Nat → List FlItem → PgM (List FlItem)
  | [], list => return list
  | i :: is, list => do
    let item ← pgItemPg i
    pgItemsPg is (list ++ [item])

def dbGetFilesDataPg (S : Sqlite) (answered : Bool × Bool) (unset : Int) (t : Tables) (arg : GetFilesDb) :
    PgM (Int × List FlItem × Int) := do
  pqExec A null (if answered.1 then t.selectFilesPostgresql S arg arg.pgParams else .notTuples)
  if ← pqRefused then exitQuery (0, [], unset)
  else
    let list ← pgItemsPg (List.range (← pqNtuples)) []
    let count ← pqNtuples
    clearRes
    pqExec A null (if answered.2 then t.countFilesPostgresql S arg arg.pgCountParams else .notTuples)
    if ← pqRefused then exitQuery (0, list, unset)
    else
      let fullCount ← pqGetvalue 0 0
      clearRes
      return (toInt count, list, toInt (atoll fullCount))

end

/-- After `init_db_connection`; a connection that is not OK has been finished. -/
def Pg.init (ok : Bool) : Pg := { connected := ok, res := none, heap := ⟨fun _ => none, by simp⟩, queries := 0 }

end BbsServer
