import BbsServer.BindSound
import BbsServer.LookupSound
import BbsServer.PagingSound

/-!
# The statements of SQLite

The tables of `check_and_create_tables`, the parameters of a statement, and `vdb_query` with its arguments, the rows
that the statement gives, and their count.
-/

namespace BbsServer

open CStr

inductive UsersColumn
  | id
  | username
  | password
  | email
  | createdAt
  | lastLogin
  | privileges
  deriving DecidableEq, Repr

inductive FilesColumn
  | id
  | userId
  | name
  | size
  | createdAt
  | description
  | permissions
  | hash
  deriving DecidableEq, Repr

abbrev UsersRow := UsersColumn → Cell
abbrev FilesRow := FilesColumn → Cell

structure UsersRow.Valid (u : UsersRow) : Prop where
  id : ∃ n, u .id = .integer n
  notNull : ∀ c ∈ [UsersColumn.username, .password, .email, .createdAt, .privileges], u c ≠ .null

structure FilesRow.Valid (r : FilesRow) : Prop where
  id : ∃ n, r .id = .integer n
  notNull : ∀ c ∈ [FilesColumn.name, .size, .createdAt], r c ≠ .null

@[ext] structure Tables where
  users : List UsersRow
  files : List FilesRow
  userIds : (users.map (· .id)).Nodup
  fileIds : (files.map (· .id)).Nodup
  validUsers : ∀ u ∈ users, UsersRow.Valid u
  validFiles : ∀ r ∈ files, FilesRow.Valid r

def Tables.empty : Tables := ⟨[], [], by simp, by simp, by simp, by simp⟩

def sqlEq (a b : Cell) : Bool := a ≠ .null && a == b

def Tables.join (t : Tables) : List (FilesRow × UsersRow) :=
  t.files.flatMap fun r => (t.users.filter fun u => sqlEq (r .userId) (u .id)).map (r, ·)

/-! ## Parameters -/

def Pointer.text (p : Pointer) (n : Int) : Cell :=
  match p.mem with
  | none => .null
  | some m => .text (if n < 0 then cstr m else m.take n.toNat)

def Bound.cell : Bound → Cell
  | .text p n => p.text n
  | .int n => .integer n
  | .int64 n => .integer n
  | .blob _ _ => .null

def paramCell (binds : List Bind) (k : Nat) : Cell := ((binds.find? (·.param == k)).map (·.value.cell)).getD .null

inductive SqlExpr
  | param (name : Nat)
  | date
  deriving DecidableEq, Repr

def SqlExpr.name? : SqlExpr → Option Nat
  | .param name => some name
  | .date => none

/-- `$`-parameters are numbered in the order in which they first appear. -/
def paramNumber (exprs : List SqlExpr) (name : Nat) : Nat := (exprs.filterMap SqlExpr.name?).eraseDups.idxOf name + 1

def SqlExpr.eval (exprs : List SqlExpr) (binds : List Bind) (today : Cell) : SqlExpr → Cell
  | .param name => paramCell binds (paramNumber exprs name)
  | .date => today

/-! ## `vdb_query` -/

def stepRowsCount {σ : Type} (callback : List Cell → σ → M (DbCbResp × σ)) :
    List (List Cell) → DbCbResp → σ → Int → M (DbCbResp × σ × Int)
  | [], res, resp, count => .ok (res, resp, count)
  | row :: rows, _, resp, count => do
    let (res, resp) ← callback row resp
    if res = .dbErr then .ok (res, resp, count)
    else
      let count ← int32 (count + 1)
      stepRowsCount callback rows res resp count

/-- `vdb_query` for a statement that is prepared; `exec` is what it does with its parameters, and `count` is what
`count_ptr` points to. -/
def vdbQuerySql {σ τ : Type} (exec : List Bind → List (List Cell) × τ) (idle : τ)
    (callback : List Cell → σ → M (DbCbResp × σ)) (resp : σ) (count : Int) (argTypes : List DbArgType)
    (args : List VaArg) :
    M ((DbCbResp × σ × Int) × τ) :=
  match bindArgs 0 argTypes args 0 with
  | none => .error (.fault .overflow)
  | some (_, false) => .ok ((.dbErr, resp, count), idle)
  | some (binds, true) => do
    let answer ← stepRowsCount callback (exec binds).1 .dbNoResult resp 0
    .ok (answer, (exec binds).2)

section
variable {t : Tables} {r : FilesRow} {u : UsersRow} {a b : Cell} {n : Int}

@[simp] theorem sqlEq_integer : sqlEq (.integer n) a = (Cell.integer n == a) := rfl

theorem sqlEq_iff : sqlEq a b ↔ a ≠ .null ∧ a = b := by simp [sqlEq]

theorem mem_join : (r, u) ∈ t.join ↔ r ∈ t.files ∧ u ∈ t.users ∧ sqlEq (r .userId) (u .id) := by
  simp only [Tables.join, List.mem_flatMap, List.mem_map, List.mem_filter, Prod.mk.injEq]
  constructor
  · rintro ⟨r', hr, u', ⟨hu, heq⟩, rfl, rfl⟩
    exact ⟨hr, hu, heq⟩
  · rintro ⟨hr, hu, heq⟩
    exact ⟨r, hr, u, ⟨hu, heq⟩, rfl, rfl⟩

/-! ## The tables of the main model -/

def UserRow.columns (day : Bytes) (u : UserRow) : UsersRow
  | .id => .integer u.id
  | .username => .text u.username
  | .password => .text u.password
  | .email => .text u.email
  | .createdAt => .text day
  | .lastLogin => .text day
  | .privileges => .integer u.privileges

def FileRow.columns (day : Bytes) (r : FileRow) : FilesRow
  | .id => .integer r.id
  | .userId => .integer r.userId
  | .name => .text r.name
  | .size => .integer r.size
  | .createdAt => .text day
  | .description => .text r.description
  | .permissions => .integer r.permissions
  | .hash => .integer r.hash.toInt

theorem nodup_cells {α : Type} {f : α → Int} {g : α → Cell} (hg : ∀ a, g a = .integer (f a)) {l : List α}
    (h : (l.map f).Nodup) : (l.map g).Nodup := by
  have hmap : l.map g = (l.map f).map Cell.integer := by
    rw [List.map_map]
    exact List.map_congr_left fun a _ => hg a
  rw [hmap]
  exact h.map fun a b he => by injection he

def World.tables (day : Bytes) (w : World) : Tables where
  users := w.users.rows.map (·.columns day)
  files := w.files.rows.map (·.columns day)
  userIds := by
    rw [List.map_map]
    exact nodup_cells (fun _ => rfl) w.users.ids
  fileIds := by
    rw [List.map_map]
    exact nodup_cells (fun _ => rfl) w.files.ids
  validUsers := by
    intro u hu
    obtain ⟨u, -, rfl⟩ := List.mem_map.mp hu
    exact ⟨⟨u.id, rfl⟩, by simp [UserRow.columns]⟩
  validFiles := by
    intro r hr
    obtain ⟨r, -, rfl⟩ := List.mem_map.mp hr
    exact ⟨⟨r.id, rfl⟩, by simp [FileRow.columns]⟩

theorem join_tables (day : Bytes) (w : World) :
    (w.tables day).join = (joined w).map fun x => (x.1.columns day, x.2.columns day) := by
  unfold Tables.join joined World.tables
  dsimp only
  rw [List.flatMap_map, List.map_flatMap]
  refine List.flatMap_congr fun r _ => ?_
  rw [List.filter_map, List.map_map, List.map_map]
  refine congrArg (List.map _) (List.filter_congr fun u _ => ?_)
  show sqlEq (.integer r.userId) (.integer u.id) = (u.id == r.userId)
  rw [sqlEq_integer, Bool.eq_iff_iff, beq_iff_eq, beq_iff_eq, Cell.integer.injEq, eq_comm]

end

end BbsServer
