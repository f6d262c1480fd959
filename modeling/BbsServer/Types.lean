import BbsServer.Lib.CStr

/-!
# Sessions, files and rows

The data of `main.h`, `types.h` and `db.h`: `enum sess_states`, `enum error_reason`,
`s_file_t`, `session`, and the rows of the two tables. A `NULL` pointer is `none`, a
descriptor of `-1` is `none`, and a `size_t` is a natural number kept below
`2 ^ 64` by `sizeT`.
-/

namespace BbsServer

open CStr

def maxConnections : Nat := 1024
def inBufSize : Nat := 1024
def packageSize : Nat := inBufSize * 10
def fileHashSeed : Int := 898
def storageFolder : Bytes := ascii "./storage"
def emailLen : Nat := 256
def unameLen : Nat := 51
def passLen : Nat := 51
def fileNameLen : Nat := 65

inductive SessState
  | opEditFile
  | opDownload
  | opEditUser
  | opLoginUsr
  | opLoginPss
  | opLoginAnon
  | opWait
  | opUpload
  | opUploadDescription
  | opDownloadWaitConfirmPackage
  | err
  | fin
  deriving DecidableEq, Repr

inductive ErrorReason
  | noReason
  | exit
  deriving DecidableEq, Repr

structure SFile where
  name : Option Bytes
  path : Option Bytes
  description : Option Bytes
  permissions : Int
  size : Nat
  rest : Nat
  packageRest : Nat
  hash : BitVec 32
  id : Int
  ownerId : Int
  deriving DecidableEq, Repr

/-- `session`. The line buffer is the list of its `buf_used` bytes in use; the byte
after them is the NUL that `session_do_read` and `query_extract_from_buf_2` store. -/
structure Session where
  buf : Bytes
  state : SessState
  reason : ErrorReason
  privileges : Int
  uname : Option Bytes
  uid : Int
  fd : Option Nat
  sd : Nat
  file : Option SFile
  deriving DecidableEq, Repr

/-! ## Machine integers

Conversions to `size_t`, `int` and `char`. -/

def sizeT (x : Int) : Nat := (x % 2 ^ 64).toNat

def toInt (x : Int) : Int := wrap 32 x

def toChar (x : Int) : Int := wrap 8 x

def subSize (a b : Nat) : Nat := sizeT ((a : Int) - b)

@[simp] theorem sizeT_of_lt {n : Nat} (h : n < 2 ^ 64) : sizeT n = n := by
  unfold sizeT; omega

theorem subSize_of_le {a b : Nat} (ha : a < 2 ^ 64) (h : b ≤ a) : subSize a b = a - b := by
  unfold subSize sizeT; omega

theorem toInt_of_lt {x : Int} (h : -2 ^ 31 ≤ x) (h' : x < 2 ^ 31) : toInt x = x := by
  unfold toInt wrap
  rw [Int.bmod_eq_of_le] <;> omega

theorem toChar_wrap (x : Int) : toChar (wrap 32 x) = toChar x := Int.bmod_bmod_of_dvd ⟨2 ^ 24, by decide⟩

/-! ## Rows -/

structure UserRow where
  id : Int
  username : Bytes
  password : Bytes
  email : Bytes
  privileges : Int
  deriving DecidableEq, Repr

structure FileRow where
  id : Int
  userId : Int
  name : Bytes
  size : Nat
  description : Bytes
  permissions : Int
  hash : BitVec 32
  deriving DecidableEq, Repr

/-- The `users` table with its constraints: `UNIQUE` keys, and assigned ids are
positive and fit the `int` that `sqlite3_column_int` reads. -/
structure UserTable where
  rows : List UserRow
  ids : (rows.map (·.id)).Nodup
  names : (rows.map (·.username)).Nodup
  emails : (rows.map (·.email)).Nodup
  idRange : ∀ r ∈ rows, 0 < r.id ∧ r.id < 2 ^ 31

structure FileTable where
  rows : List FileRow
  ids : (rows.map (·.id)).Nodup
  idRange : ∀ r ∈ rows, 0 < r.id ∧ r.id < 2 ^ 31

def UserTable.empty : UserTable := ⟨[], by simp, by simp, by simp, by simp⟩
def FileTable.empty : FileTable := ⟨[], by simp, by simp⟩

theorem nodup_map_snoc {α β} {f : α → β} {l : List α} {a : α} (hl : (l.map f).Nodup) (ha : f a ∉ l.map f) :
    ((l ++ [a]).map f).Nodup := by
  rw [List.map_append, List.nodup_append]
  refine ⟨hl, by simp, fun x hx y hy e => ?_⟩
  simp only [List.map_cons, List.map_nil, List.mem_singleton] at hy
  exact ha (hy ▸ e ▸ hx)

def UserTable.insert (t : UserTable) (r : UserRow) : Option UserTable :=
  if h : (r.id ∉ t.rows.map (·.id) ∧ r.username ∉ t.rows.map (·.username) ∧ r.email ∉ t.rows.map (·.email)) ∧
      0 < r.id ∧ r.id < 2 ^ 31 then
    some {
      rows := t.rows ++ [r]
      ids := nodup_map_snoc t.ids h.1.1
      names := nodup_map_snoc t.names h.1.2.1
      emails := nodup_map_snoc t.emails h.1.2.2
      idRange := by
        intro x hx
        rcases List.mem_append.mp hx with hx | hx
        · exact t.idRange x hx
        · rw [List.mem_singleton.mp hx]; exact h.2 }
  else none

def FileTable.insert (t : FileTable) (r : FileRow) : Option FileTable :=
  if h : r.id ∉ t.rows.map (·.id) ∧ 0 < r.id ∧ r.id < 2 ^ 31 then
    some {
      rows := t.rows ++ [r]
      ids := nodup_map_snoc t.ids h.1
      idRange := by
        intro x hx
        rcases List.mem_append.mp hx with hx | hx
        · exact t.idRange x hx
        · rw [List.mem_singleton.mp hx]; exact h.2 }
  else none

theorem UserTable.insert_rows {t t' : UserTable} {r : UserRow} (h : t.insert r = some t') :
    t'.rows = t.rows ++ [r] ∧ 0 < r.id := by
  unfold UserTable.insert at h
  split at h
  · rename_i hc; cases h; exact ⟨rfl, hc.2.1⟩
  · cases h

theorem FileTable.insert_rows {t t' : FileTable} {r : FileRow} (h : t.insert r = some t') :
    t'.rows = t.rows ++ [r] ∧ 0 < r.id := by
  unfold FileTable.insert at h
  split at h
  · rename_i hc; cases h; exact ⟨rfl, hc.2.1⟩
  · cases h

end BbsServer
