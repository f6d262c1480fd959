import Mathlib.Data.List.Sort
import BbsServer.World

/-!
# Database

`db_sqlite.c` and `db_common.c` on the two tables. Without `ORDER BY`, rows come in
the order of the table. A `SELECT` that is not answered gives no row; an `INSERT` is answered with the
new id or fails. Columns that no handler reads are left out.
-/

namespace BbsServer

open CStr

/-! ## Password hashes -/

def be64 (b : Bytes) : Nat := b.foldl (fun n c => n * 256 + c.toNat) 0

def sha256RawToString (passHashed : Bytes) : Bytes :=
  (List.range 4).flatMap fun i => hexDigits 16 (be64 ((passHashed.drop (i * 8)).take 8))

def stringToSHA256 (P : Platform) (str : Bytes) : Bytes := sha256RawToString (P.sha256 str)

/-! ## Users -/

structure OAuth where
  privileges : Int
  uid : Int

/-- `db_user_auth_cb`: the query has four columns, so column 6 reads as 0. -/
def dbUserAuthCb (passwordHashed : Bytes) (r : OAuth) (row : UserRow) : OAuth :=
  if passwordHashed = row.password then { privileges := 0, uid := row.id } else r

def dbUserAuth (P : Platform) (ans : Answers) (w : World) (name : Option Bytes) (pass : Bytes) (r : OAuth) : OAuth :=
  if ans.answered then
    (w.users.rows.filter (some ·.username == name)).foldl (dbUserAuthCb (stringToSHA256 P pass)) r
  else r

structure DbUserCreate where
  uname : Bytes
  pass : Bytes
  email : Bytes
  deriving DecidableEq, Repr

def newUser (P : Platform) (args : DbUserCreate) (id : Int) : UserRow :=
  { id, username := args.uname, password := stringToSHA256 P args.pass, email := args.email, privileges := 1 }

@[simp] theorem newUser_password (P : Platform) (args : DbUserCreate) (id : Int) :
    (newUser P args id).password = stringToSHA256 P args.pass := by
  rw [newUser]

/-- `db_user_create`: the new id, or 0. The callback has the id before the `INSERT` is committed, and `vdb_query`
does not look at an error of that step. -/
def dbUserCreate (P : Platform) (ans : Answers) (w : World) (s : Session) (args : DbUserCreate) : M (Int × World) :=
  match ans.insert with
  | none => .ok (0, w)
  | some id =>
    let row := newUser P args id
    match w.users.insert row with
    | some users => .ok (id, if ans.committed then { w with users, trace := .insertedUser s.sd row :: w.trace } else w)
    | none => .error .refused

/-! ## Files -/

/-- `db_save_file`: the new id, or -1. What it returns where the commit fails is in `dbSaveFileSqlite`;
`perform_session_action` only tests for 0. -/
def dbSaveFile (ans : Answers) (w : World) (s : Session) (sf : SFile) (uid : Int) : M (Int × World) := do
  let name ← deref sf.name
  match ans.insert with
  | none => .ok (-1, w)
  | some id =>
    let row : FileRow :=
      { id, userId := uid, name, size := sf.size, description := sf.description.getD [],
        permissions := sf.permissions, hash := sf.hash }
    match w.files.insert row with
    | some files => .ok (id, { w with files, trace := .insertedFile s.sd row :: w.trace })
    | none => .error .refused

def joined (w : World) : List (FileRow × UserRow) :=
  w.files.rows.flatMap fun r => (w.users.rows.filter (·.id == r.userId)).map (r, ·)

theorem filter_key {α β} [BEq β] [LawfulBEq β] {f : α → β} {x : α} : ∀ {l : List α}, (l.map f).Nodup → x ∈ l →
    l.filter (f · == f x) = [x]
  | y :: l, hn, hx => by
    rw [List.map_cons, List.nodup_cons] at hn
    rcases List.mem_cons.mp hx with rfl | hx
    · have hrest : l.filter (f · == f x) = [] := List.filter_eq_nil_iff.mpr fun z hz he =>
        hn.1 (List.mem_map.mpr ⟨z, hz, by simpa using he⟩)
      rw [List.filter_cons_of_pos (by simp), hrest]
    · have hne : f y ≠ f x := fun he => hn.1 (List.mem_map.mpr ⟨x, hx, he.symm⟩)
      rw [List.filter_cons_of_neg (by simpa using hne), filter_key hn.2 hx]

structure GetFile where
  id : Int
  userId : Int
  name : Bytes

def dbGetFileDb (row : FileRow) : SFile :=
  { name := some row.name, path := none, description := some row.description, permissions := toChar row.permissions,
    size := row.size, rest := row.size, packageRest := 0, hash := row.hash, id := row.id, ownerId := row.userId }

/-- `db_get_file`: the callback runs on every row, so the last one stays. -/
def dbGetFile (ans : Answers) (w : World) (arg : GetFile) : Option SFile :=
  let key : FileRow → Bool :=
    if arg.id ≠ 0 then (·.id == arg.id)
    else if arg.userId ≠ 0 then (·.userId == arg.userId)
    else (arg.name ≠ [] && ·.name == arg.name)
  if ans.answered then (((joined w).map (·.1)).filter key).getLast?.map dbGetFileDb else none

structure FlItem where
  name : Bytes
  description : Bytes
  owner : Bytes
  permissions : Int
  ownerId : Int
  hash : BitVec 32
  size : Nat
  id : Int
  deriving DecidableEq, Repr

structure GetFiles where
  searchStr : Bytes
  limit : Int
  offset : Int

def dbGetFilesDataDb (row : FileRow × UserRow) : FlItem :=
  { name := row.1.name, description := row.1.description, owner := row.2.username,
    permissions := toChar row.1.permissions, ownerId := row.1.userId, hash := row.1.hash, size := row.1.size,
    id := row.1.id }

/-- `LIMIT ? OFFSET ?`: a negative limit is none, a negative offset is 0. -/
def limitOffset {α} (limit offset : Int) (l : List α) : List α :=
  let l := l.drop offset.toNat
  if limit < 0 then l else l.take limit.toNat

def orderById (l : List (FileRow × UserRow)) : List (FileRow × UserRow) := l.insertionSort fun a b => a.1.id ≤ b.1.id

/-- `db_get_files_data`: the list, the count of its rows, and `full_count`, for the one
sort order the server asks for, `ORDER BY files.id ASC`. The count by name binds the
pointer `search_str` as a number, `boundPtr`. -/
def dbGetFilesData (P : Platform) (ans : Answers) (boundPtr : Bytes) (w : World) (arg : GetFiles) :
    List FlItem × Int × Int :=
  let byName := arg.searchStr ≠ []
  if ans.answered then
    let rows := if byName then (joined w).filter (P.like arg.searchStr ·.1.name) else joined w
    let list := (limitOffset arg.limit arg.offset (orderById rows)).map dbGetFilesDataDb
    let counted := if byName then w.files.rows.filter (P.like boundPtr ·.name) else w.files.rows
    (list, toInt list.length, toInt counted.length)
  else ([], 0, ans.fullCount)

/-! ## `db.h` -/

structure Database where
  dbUserAuth : Answers → World → Option Bytes → Bytes → OAuth → M (Int × OAuth)
  dbUserCreate : Answers → World → Session → DbUserCreate → M (Int × World)
  dbSaveFile : Answers → World → Session → SFile → Int → M (Int × World)
  dbGetFile : Answers → World → GetFile → M (Option SFile)
  dbGetFilesData : Answers → World → GetFiles → M (List FlItem × Int × Int)

/-- The two tables. The result of `db_user_auth` is the `uid` of a response that had 0, as `login` gives it one. -/
def Database.tables (P : Platform) : Database where
  dbUserAuth ans w name pass r :=
    .ok ((BbsServer.dbUserAuth P ans w name pass r).uid, BbsServer.dbUserAuth P ans w name pass r)
  dbUserCreate := BbsServer.dbUserCreate P
  dbSaveFile := BbsServer.dbSaveFile
  dbGetFile ans w arg := .ok (BbsServer.dbGetFile ans w arg)
  dbGetFilesData ans w arg := .ok (BbsServer.dbGetFilesData P ans [] w arg)

section
variable (P : Platform) (ans : Answers) (w : World)

@[simp] theorem tables_dbUserAuth (name : Option Bytes) (pass : Bytes) (r : OAuth) :
    (Database.tables P).dbUserAuth ans w name pass r =
    .ok ((dbUserAuth P ans w name pass r).uid, dbUserAuth P ans w name pass r) :=
  rfl

@[simp] theorem tables_dbUserCreate : (Database.tables P).dbUserCreate ans = dbUserCreate P ans := rfl

@[simp] theorem tables_dbSaveFile : (Database.tables P).dbSaveFile ans = dbSaveFile ans := rfl

@[simp] theorem tables_dbGetFile (arg : GetFile) :
    (Database.tables P).dbGetFile ans w arg = .ok (dbGetFile ans w arg) := rfl

@[simp] theorem tables_dbGetFilesData (arg : GetFiles) :
    (Database.tables P).dbGetFilesData ans w arg = .ok (dbGetFilesData P ans [] w arg) := rfl

end

end BbsServer
