import Mathlib.Data.Nat.ModEq
import BbsServer.RoundTripSound

/-!
# The total of a listing

`db_get_files_data` of `db_sqlite.c` with its two queries. The one that counts has no `JOIN`, and for a search it is
given the address of the text instead of the text (`total_iff`).
-/

namespace BbsServer

open CStr

inductive SortBy
  | id
  | name
  | createdAt
  | userId
  deriving DecidableEq, Repr

inductive SortDirection
  | asc
  | desc
  deriving DecidableEq, Repr

def SortBy.column : SortBy → FilesColumn
  | .id => .id
  | .name => .name
  | .createdAt => .createdAt
  | .userId => .userId

/-- `i_get_files_db`, without `user_id`, which nothing reads. -/
structure GetFilesDb where
  searchStr : Bytes
  nul : 0 ∉ searchStr
  limit : Int
  offset : Int
  sortBy : SortBy
  sortDirection : SortDirection

/-- What SQLite decides: `text LIKE pattern`, and an order of the rows. -/
structure Sqlite where
  like : Bytes → Bytes → Bool
  orderBy : FilesColumn → SortDirection → List (FilesRow × UsersRow) → List (FilesRow × UsersRow)
  perm : ∀ c d l, (orderBy c d l).Perm l

def Sqlite.nameLike (S : Sqlite) (pattern name : Cell) : Bool :=
  pattern ≠ .null && name ≠ .null && S.like pattern.value name.value

def likePattern (percent : Bytes) : Cell → Cell
  | .null => .null
  | c => .text (percent ++ c.value ++ percent)

def Cell.toInteger : Cell → Int
  | .integer n => n
  | _ => 0

/-! ## The two queries -/

def Tables.listBy (t : Tables) (S : Sqlite) (arg : GetFilesDb) (named : Cell → Bool) : List (FilesRow × UsersRow) :=
  S.orderBy arg.sortBy.column arg.sortDirection (t.join.filter fun x => named (x.1 .name))

def listCells (x : FilesRow × UsersRow) : List Cell := selectFileColumns.map x.1 ++ [x.2 .username]

def Tables.selectFiles (t : Tables) (S : Sqlite) (arg : GetFilesDb) (binds : List Bind) : List (List Cell) :=
  if arg.searchStr = [] then
    (limitOffset (paramCell binds 1).toInteger (paramCell binds 2).toInteger (t.listBy S arg fun _ => true)).map listCells
  else
    (limitOffset (paramCell binds 2).toInteger (paramCell binds 3).toInteger
      (t.listBy S arg (S.nameLike (likePattern (ascii "%") (paramCell binds 1))))).map listCells

/-- `SELECT COUNT(id) FROM files`, for a search `WHERE name LIKE '%%' || ? || '%%'`. -/
def Tables.countFiles (t : Tables) (S : Sqlite) (arg : GetFilesDb) (binds : List Bind) : List (List Cell) :=
  let rows := if arg.searchStr = [] then t.files
    else t.files.filter fun r => S.nameLike (likePattern (ascii "%%") (paramCell binds 1)) (r .name)
  [[.integer (rows.countP fun r => r .id ≠ .null)]]

def dbGetFilesDataStmt (row : List Cell) (list : List FlItem) : M (DbCbResp × List FlItem) := do
  let name ← deref (columnText row 2)
  let size := sizeT (columnInt64 row 3)
  let description ← deref (columnText row 4)
  let owner ← deref (columnText row 7)
  .ok (.dbSuccess, list ++ [{
    name, description, owner, permissions := toChar (columnInt row 5), ownerId := columnInt row 1,
    hash := .ofInt 32 (columnInt row 6), size, id := columnInt row 0 }])

def dbGetFilesCountStmt (row : List Cell) (_ : Int) : M (DbCbResp × Int) := .ok (.dbSuccess, columnInt row 0)

def listTypes (byName : Bool) : List DbArgType :=
  if byName then [.dbStr, .dbInt, .dbInt, .dbEnd] else [.dbInt, .dbInt, .dbEnd]

def GetFilesDb.listArgs (arg : GetFilesDb) (addr : Nat) (byName : Bool) : List VaArg :=
  if byName then [.pointer (.ofText addr (some arg.searchStr)), .int arg.limit, .int arg.offset]
  else [.int arg.limit, .int arg.offset]

def countTypes (byName : Bool) : List DbArgType := if byName then [.dbInt, .dbEnd] else [.dbEnd]

def GetFilesDb.countArgs (arg : GetFilesDb) (addr : Nat) (byName : Bool) : List VaArg :=
  if byName then [.pointer (.ofText addr (some arg.searchStr))] else []

/-- `db_get_files_data`: the count, the list, and `full_count`, which is `unset` before; `addr` is the address of
`search_str`. -/
def dbGetFilesDataSql (S : Sqlite) (addr : Nat) (unset : Int) (t : Tables) (arg : GetFilesDb) :
    M (Int × List FlItem × Int) := do
  let byName := arg.searchStr ≠ []
  let ((res, list, count), _) ← vdbQuerySql (fun binds => (t.selectFiles S arg binds, ())) () dbGetFilesDataStmt [] 0
    (listTypes byName) (arg.listArgs addr byName)
  if res = .dbSuccess ∨ res = .dbNoResult then
    let ((res, fullCount, _), _) ← vdbQuerySql (fun binds => (t.countFiles S arg binds, ())) () dbGetFilesCountStmt unset 0
      (countTypes byName) (arg.countArgs addr byName)
    if res = .dbSuccess then .ok (count, list, fullCount) else .ok (0, list, fullCount)
  else .ok (0, list, unset)

/-! ## What is asked for -/

def GetFilesDb.named (S : Sqlite) (arg : GetFilesDb) (name : Cell) : Bool :=
  arg.searchStr = [] || S.nameLike (likePattern (ascii "%") (.text arg.searchStr)) name

def Tables.listed (t : Tables) (S : Sqlite) (arg : GetFilesDb) : List (FilesRow × UsersRow) :=
  t.listBy S arg (arg.named S)

/-- The total is the number of rows of the listing, and the count the length of the list. -/
def TotalReported (S : Sqlite) (addr : Nat) (unset : Int) (t : Tables) (arg : GetFilesDb) : Prop :=
  ∃ count list fullCount, dbGetFilesDataSql S addr unset t arg = .ok (count, list, fullCount) ∧
    fullCount = (t.listed S arg).length ∧ count = list.length

def Tables.owned (t : Tables) (r : FilesRow) : Bool := t.users.any fun u => sqlEq (r .userId) (u .id)

def Tables.orphans (t : Tables) : List FilesRow := t.files.filter fun r => !t.owned r

def Tables.matching (t : Tables) (S : Sqlite) (arg : GetFilesDb) : List FilesRow :=
  t.files.filter fun r => t.owned r && arg.named S (r .name)

/-- The files whose name has the low half of the address in it. -/
def Tables.addressed (t : Tables) (S : Sqlite) (addr : Nat) : List FilesRow :=
  t.files.filter fun r => S.nameLike (likePattern (ascii "%%") (.integer (toInt addr))) (r .name)

def Tables.Described (t : Tables) (S : Sqlite) (arg : GetFilesDb) : Prop :=
  ∀ x ∈ limitOffset arg.limit arg.offset (t.listed S arg), x.1 .description ≠ .null

def Tables.counted (t : Tables) (S : Sqlite) (addr : Nat) (arg : GetFilesDb) : List FilesRow :=
  if arg.searchStr = [] then t.files else t.addressed S addr

section
variable {S : Sqlite} {addr : Nat} {unset count : Int} {t : Tables} {arg : GetFilesDb} {x : FilesRow × UsersRow}
  {l : List (FilesRow × UsersRow)} {res : DbCbResp} {acc : List FlItem} {row : List Cell} {c : Cell}

/-! ## The rows of the listing -/

theorem limitOffset_sublist {α : Type} (limit offset : Int) (l : List α) :
    (limitOffset limit offset l).Sublist l := by
  unfold limitOffset
  dsimp only
  split
  · exact List.drop_sublist ..
  · exact (List.take_sublist ..).trans (List.drop_sublist ..)

theorem mem_listed (h : x ∈ t.listed S arg) : x ∈ t.join := (List.mem_filter.mp ((S.perm ..).mem_iff.mp h)).1

theorem selectFiles_rows (h : arg.searchStr = []) :
    vdbQuerySql (fun binds => (t.selectFiles S arg binds, ())) () dbGetFilesDataStmt [] 0 (listTypes false)
      (arg.listArgs addr false) = (do
        let answer ← stepRowsCount dbGetFilesDataStmt ((limitOffset arg.limit arg.offset (t.listed S arg)).map listCells)
          .dbNoResult [] 0
        .ok (answer, ())) := by
  have hrows : t.selectFiles S arg [⟨1, .int arg.limit⟩, ⟨2, .int arg.offset⟩] =
      (limitOffset arg.limit arg.offset (t.listed S arg)).map listCells := by
    unfold Tables.selectFiles Tables.listed GetFilesDb.named
    simp only [h, if_true, decide_true, Bool.true_or]
    rfl
  rw [← hrows]
  rfl

theorem selectFiles_named (h : arg.searchStr ≠ []) :
    vdbQuerySql (fun binds => (t.selectFiles S arg binds, ())) () dbGetFilesDataStmt [] 0 (listTypes true)
      (arg.listArgs addr true) = (do
        let answer ← stepRowsCount dbGetFilesDataStmt ((limitOffset arg.limit arg.offset (t.listed S arg)).map listCells)
          .dbNoResult [] 0
        .ok (answer, ())) := by
  have hrows : t.selectFiles S arg [⟨1, .text (.ofText addr (some arg.searchStr)) (-1)⟩, ⟨2, .int arg.limit⟩,
      ⟨3, .int arg.offset⟩] = (limitOffset arg.limit arg.offset (t.listed S arg)).map listCells := by
    have htext : paramCell [⟨1, .text (.ofText addr (some arg.searchStr)) (-1)⟩, ⟨2, .int arg.limit⟩,
      ⟨3, .int arg.offset⟩] 1 =
        .text arg.searchStr := text_ofText addr arg.nul
    unfold Tables.selectFiles Tables.listed GetFilesDb.named
    simp only [h, if_false, decide_false, Bool.false_or, htext]
    rfl
  rw [← hrows]
  rfl

def listItem (x : FilesRow × UsersRow) : FlItem :=
  { name := (x.1 .name).value, description := (x.1 .description).value, owner := (x.2 .username).value,
    permissions := toChar (columnInt (listCells x) 5), ownerId := columnInt (listCells x) 1,
    hash := .ofInt 32 (columnInt (listCells x) 6), size := sizeT (columnInt64 (listCells x) 3),
    id := columnInt (listCells x) 0 }

theorem columnText_some {i : Nat} (h : row[i]? = some c) (hc : c ≠ .null) : columnText row i = some c.value := by
  unfold columnText
  rw [h]
  cases c with
  | null => exact absurd rfl hc
  | integer n => rfl
  | text s => rfl

theorem dbGetFilesDataStmt_item (hx : x ∈ t.join) (hd : x.1 .description ≠ .null) :
    dbGetFilesDataStmt (listCells x) acc = .ok (.dbSuccess, acc ++ [listItem x]) := by
  obtain ⟨hr, hu, -⟩ := mem_join.mp hx
  have hname : columnText (listCells x) 2 = some (x.1 .name).value :=
    columnText_some rfl ((t.validFiles _ hr).notNull _ (by simp))
  have hdesc : columnText (listCells x) 4 = some (x.1 .description).value := columnText_some rfl hd
  have howner : columnText (listCells x) 7 = some (x.2 .username).value :=
    columnText_some rfl ((t.validUsers _ hu).notNull _ (by simp))
  unfold dbGetFilesDataStmt
  rw [hname, hdesc, howner]
  rfl

theorem dbGetFilesDataStmt_null (hd : x.1 .description = .null) {r : DbCbResp × List FlItem} :
    dbGetFilesDataStmt (listCells x) acc ≠ .ok r := by
  intro h
  unfold dbGetFilesDataStmt at h
  obtain ⟨name, -, h⟩ := bind_ok.mp h
  obtain ⟨description, hdesc, -⟩ := bind_ok.mp h
  have hnull : columnText (listCells x) 4 = none := by
    show columnText [_, _, _, _, x.1 .description, _, _, _] 4 = none
    rw [hd]
    rfl
  rw [deref_ok, hnull] at hdesc
  cases hdesc

theorem stepRowsCount_items : ∀ {l : List (FilesRow × UsersRow)} {res : DbCbResp} {acc : List FlItem} {count : Int},
    (∀ x ∈ l, x ∈ t.join ∧ x.1 .description ≠ .null) → 0 ≤ count → count + l.length < 2 ^ 31 →
    stepRowsCount dbGetFilesDataStmt (l.map listCells) res acc count =
      .ok (if l = [] then res else .dbSuccess, acc ++ l.map listItem, count + l.length)
  | [], _, _, _, _, _, _ => by simp [stepRowsCount]
  | x :: l, res, acc, count, hl, h0, hlt => by
    obtain ⟨hx, hl⟩ := List.forall_mem_cons.mp hl
    rw [List.length_cons, Nat.cast_succ] at hlt
    rw [List.map_cons, stepRowsCount, dbGetFilesDataStmt_item hx.1 hx.2, ok_bind]
    dsimp only
    rw [if_neg (by decide), int32_ok.mpr ⟨⟨by omega, by omega⟩, rfl⟩, ok_bind,
      stepRowsCount_items hl (by omega) (by omega)]
    refine congrArg Except.ok (Prod.ext ?_ (Prod.ext ?_ ?_))
    · simp
    · simp
    · simp only [List.length_cons, Nat.cast_succ]
      omega

theorem stepRowsCount_described : ∀ {l : List (FilesRow × UsersRow)} {res : DbCbResp} {acc : List FlItem}
    {count : Int} {r : DbCbResp × List FlItem × Int}, (∀ x ∈ l, x ∈ t.join) →
    stepRowsCount dbGetFilesDataStmt (l.map listCells) res acc count = .ok r →
    (∀ x ∈ l, x.1 .description ≠ .null) ∧ r.1 = if l = [] then res else .dbSuccess
  | [], _, _, _, _, _, h => by
    cases h
    simp
  | x :: l, res, acc, count, r, hl, h => by
    obtain ⟨hx, hl⟩ := List.forall_mem_cons.mp hl
    rw [List.map_cons, stepRowsCount] at h
    obtain ⟨y, hy, h⟩ := bind_ok.mp h
    have hd : x.1 .description ≠ .null := fun hd => dbGetFilesDataStmt_null hd hy
    obtain rfl := Except.ok.inj ((dbGetFilesDataStmt_item hx hd).symm.trans hy)
    dsimp only at h
    rw [if_neg (by decide)] at h
    obtain ⟨n, -, h⟩ := bind_ok.mp h
    obtain ⟨hds, hres⟩ := stepRowsCount_described hl h
    refine ⟨List.forall_mem_cons.mpr ⟨hd, hds⟩, ?_⟩
    rw [hres]
    simp

/-! ## The count -/

theorem countFiles_counted (t : Tables) (S : Sqlite) (arg : GetFilesDb) (addr : Nat) (unset : Int) :
    vdbQuerySql (fun binds => (t.countFiles S arg binds, ())) () dbGetFilesCountStmt unset 0
      (countTypes (arg.searchStr ≠ [])) (arg.countArgs addr (arg.searchStr ≠ [])) =
      .ok ((.dbSuccess, toInt (t.counted S addr arg).length, 1), ()) := by
  have hall : ∀ rows : List FilesRow, rows ⊆ t.files → rows.countP (fun r => r .id ≠ .null) = rows.length :=
    fun rows hrows => List.countP_eq_length.mpr fun r hr => by
      obtain ⟨n, hn⟩ := (t.validFiles r (hrows hr)).id
      simp [hn]
  by_cases h : arg.searchStr = []
  · have hcount : t.countFiles S arg [] = [[.integer (t.counted S addr arg).length]] := by
      unfold Tables.countFiles Tables.counted
      simp only [h, if_true, hall t.files (List.Subset.refl _)]
    simp only [h, ne_eq, not_true_eq_false, decide_false]
    show (stepRowsCount dbGetFilesCountStmt (t.countFiles S arg []) .dbNoResult unset 0 >>= _) = _
    rw [hcount]
    rfl
  · have hcount : t.countFiles S arg [⟨1, .int (toInt addr)⟩] = [[.integer (t.counted S addr arg).length]] := by
      unfold Tables.countFiles Tables.counted
      simp only [h, if_false]
      rw [hall _ fun _ hr => List.mem_of_mem_filter hr]
      rfl
    simp only [h, ne_eq, not_false_eq_true, decide_true]
    show (stepRowsCount dbGetFilesCountStmt (t.countFiles S arg [⟨1, .int (toInt addr)⟩]) .dbNoResult unset 0 >>= _) = _
    rw [hcount]
    rfl

theorem dbGetFilesDataSql_eq (S : Sqlite) (addr : Nat) (unset : Int) (t : Tables) (arg : GetFilesDb) :
    dbGetFilesDataSql S addr unset t arg = (do
      let (res, list, count) ← stepRowsCount dbGetFilesDataStmt
        ((limitOffset arg.limit arg.offset (t.listed S arg)).map listCells) .dbNoResult [] 0
      if res = .dbSuccess ∨ res = .dbNoResult then .ok (count, list, toInt (t.counted S addr arg).length)
      else .ok (0, list, unset)) := by
  have hlist : vdbQuerySql (fun binds => (t.selectFiles S arg binds, ())) () dbGetFilesDataStmt [] 0
      (listTypes (arg.searchStr ≠ [])) (arg.listArgs addr (arg.searchStr ≠ [])) = (do
        let answer ← stepRowsCount dbGetFilesDataStmt ((limitOffset arg.limit arg.offset (t.listed S arg)).map listCells)
          .dbNoResult [] 0
        .ok (answer, ())) := by
    by_cases h : arg.searchStr = []
    · simp only [h, ne_eq, not_true_eq_false, decide_false, selectFiles_rows h]
    · simp only [h, ne_eq, not_false_eq_true, decide_true, selectFiles_named h]
  unfold dbGetFilesDataSql
  dsimp only
  rw [hlist]
  cases stepRowsCount dbGetFilesDataStmt ((limitOffset arg.limit arg.offset (t.listed S arg)).map listCells)
    .dbNoResult [] 0 with
  | error e => rfl
  | ok r =>
    obtain ⟨res, list, count⟩ := r
    simp only [ok_bind, countFiles_counted, if_true]

/-! ## Files and users -/

/-- A key belongs to one user at most. -/
theorem length_users (t : Tables) (c : Cell) :
    (t.users.filter fun u => sqlEq c (u .id)).length = if t.users.any fun u => sqlEq c (u .id) then 1 else 0 := by
  have hall : ∀ x ∈ (t.users.filter fun u => sqlEq c (u .id)).map (· .id), x = c := by
    intro x hx
    obtain ⟨u, hu, rfl⟩ := List.mem_map.mp hx
    exact (sqlEq_iff.mp (List.mem_filter.mp hu).2).2.symm
  have hnodup : ((t.users.filter fun u => sqlEq c (u .id)).map (· .id)).Nodup :=
    t.userIds.sublist (List.filter_sublist.map _)
  rw [List.eq_replicate_of_mem hall, List.nodup_replicate, List.length_map] at hnodup
  split
  · rename_i hany
    obtain ⟨u, hu, heq⟩ := List.any_eq_true.mp hany
    have hmem : u ∈ t.users.filter fun u => sqlEq c (u .id) := List.mem_filter.mpr ⟨hu, heq⟩
    have hpos := List.length_pos_of_mem hmem
    omega
  · rename_i hany
    rw [List.length_eq_zero_iff, List.filter_eq_nil_iff]
    exact fun u hu heq => hany (List.any_eq_true.mpr ⟨u, hu, heq⟩)

/-- The listing has a row for each file of a user that is asked for. -/
theorem length_listed (t : Tables) (S : Sqlite) (arg : GetFilesDb) :
    (t.listed S arg).length = (t.matching S arg).length := by
  unfold Tables.listed Tables.listBy Tables.matching
  rw [(S.perm ..).length_eq]
  unfold Tables.join
  induction t.files with
  | nil => rfl
  | cons r files ih =>
    rw [List.flatMap_cons, List.filter_append, List.length_append, ih, List.filter_map, List.length_map,
      List.filter_cons]
    have hrow : ((t.users.filter fun u => sqlEq (r .userId) (u .id)).filter fun _ => arg.named S (r .name)).length =
        if t.owned r && arg.named S (r .name) then 1 else 0 := by
      cases arg.named S (r .name) with
      | false => simp
      | true =>
        rw [List.filter_true, length_users, Bool.and_true]
        rfl
    change ((t.users.filter _).filter fun _ => arg.named S (r .name)).length + _ = _
    rw [hrow]
    split
    · rw [List.length_cons, Nat.add_comm]
    · rw [Nat.zero_add]

theorem length_orphans (t : Tables) (S : Sqlite) (h : arg.searchStr = []) :
    t.files.length = t.orphans.length + (t.matching S arg).length := by
  have hmatching : t.matching S arg = t.files.filter t.owned := by
    unfold Tables.matching GetFilesDb.named
    simp [h]
  rw [hmatching, Tables.orphans, Nat.add_comm]
  exact List.length_eq_length_filter_add t.owned

theorem toInt_count {n m : Nat} : toInt n = m ↔ m < 2 ^ 31 ∧ n ≡ m [MOD 2 ^ 32] := by
  unfold toInt wrap Nat.ModEq
  rw [Int.bmod_def]
  omega

/-! ## The listing of the main model -/

structure Sqlite.Serves (S : Sqlite) (P : Platform) (day : Bytes) : Prop where
  like : ∀ percent ∈ [ascii "%", ascii "%%"], ∀ s name, S.like (percent ++ s ++ percent) name = P.like s name
  sort : ∀ l : List (FileRow × UserRow), S.orderBy .id .asc (l.map fun x => (x.1.columns day, x.2.columns day)) =
    (orderById l).map fun x => (x.1.columns day, x.2.columns day)

theorem limitOffset_map {α β : Type} (f : α → β) (limit offset : Int) (l : List α) :
    limitOffset limit offset (l.map f) = (limitOffset limit offset l).map f := by
  unfold limitOffset
  dsimp only
  rw [← List.map_drop]
  split
  · rfl
  · rw [← List.map_take]

theorem listItem_columns {day : Bytes} {w : World} {x : FileRow × UserRow} (hx : x ∈ joined w)
    (hsize : x.1.size < 2 ^ 64) :
    listItem (x.1.columns day, x.2.columns day) = dbGetFilesDataDb x := by
  obtain ⟨hr, u, hu, huid⟩ := mem_joined.mp (List.mem_map_of_mem hx)
  have hid : toInt x.1.id = x.1.id := toInt_key (w.files.idRange _ hr)
  have huser : toInt x.1.userId = x.1.userId := toInt_key (huid ▸ w.users.idRange _ hu)
  have hhash : BitVec.ofInt 32 (toInt x.1.hash.toInt) = x.1.hash := by
    rw [toInt_of_lt x.1.hash.le_toInt x.1.hash.toInt_lt]
    exact BitVec.ofInt_toInt
  have hperm : toChar (toInt x.1.permissions) = toChar x.1.permissions := toChar_wrap _
  change FlItem.mk _ _ _ (toChar (toInt x.1.permissions)) (toInt x.1.userId) (.ofInt 32 (toInt x.1.hash.toInt))
    (sizeT x.1.size) (toInt x.1.id) = _
  rw [hid, huser, hhash, hperm, sizeT_of_lt hsize]
  rfl

theorem listed_tables {P : Platform} {w : World} {day search : Bytes} (hS : S.Serves P day) (hsearch : 0 ∉ search)
    (limit offset : Int) : (w.tables day).listed S ⟨search, hsearch, limit, offset, .id, .asc⟩ =
      (orderById (if search ≠ [] then (joined w).filter (P.like search ·.1.name) else joined w)).map
        fun x => (x.1.columns day, x.2.columns day) := by
  unfold Tables.listed Tables.listBy
  rw [join_tables, List.filter_map]
  change S.orderBy .id .asc _ = _
  rw [hS.sort]
  refine congrArg (fun l => (orderById l).map _) ?_
  by_cases h : search = []
  · simp [h, GetFilesDb.named, Function.comp_def]
  · rw [if_pos h]
    refine List.filter_congr fun x _ => ?_
    show (decide (search = []) || _) = _
    rw [decide_eq_false h, Bool.false_or]
    exact hS.like (ascii "%") (by simp) search x.1.name

theorem counted_tables {P : Platform} {w : World} {day search : Bytes} (hS : S.Serves P day) (hsearch : 0 ∉ search)
    (limit offset : Int) : ((w.tables day).counted S addr ⟨search, hsearch, limit, offset, .id, .asc⟩).length =
      (if search ≠ [] then w.files.rows.filter (P.like (decimalInt (toInt addr)) ·.name) else w.files.rows).length := by
  unfold Tables.counted Tables.addressed World.tables
  dsimp only
  by_cases h : search = []
  · rw [if_pos h, if_neg (not_not.mpr h), List.length_map]
  · rw [if_neg h, if_pos h, List.filter_map, List.length_map]
    refine congrArg List.length (List.filter_congr fun r _ => ?_)
    exact hS.like (ascii "%%") (by simp) _ r.name

theorem dbGetFilesData_sql {P : Platform} {ans : Answers} {w : World} {day search : Bytes} (hS : S.Serves P day)
    (hsearch : 0 ∉ search) (limit offset : Int) (ha : ans.answered = true)
    (hsize : ∀ r ∈ w.files.rows, r.size < 2 ^ 64) :
    dbGetFilesDataSql S addr unset (w.tables day) ⟨search, hsearch, limit, offset, .id, .asc⟩ =
      let answer := dbGetFilesData P ans (decimalInt (toInt addr)) w ⟨search, limit, offset⟩
      .ok (answer.2.1, answer.1, answer.2.2) := by
  have hfiles : ((w.tables day).listed S ⟨search, hsearch, limit, offset, .id, .asc⟩).length < 2 ^ 31 := by
    rw [length_listed]
    refine lt_of_le_of_lt (List.length_filter_le ..) ?_
    rw [World.tables, List.length_map]
    exact fileTable_length w.files
  have hlt := (limitOffset_sublist limit offset
    ((w.tables day).listed S ⟨search, hsearch, limit, offset, .id, .asc⟩)).length_le
  have hrows : ∀ x ∈ limitOffset limit offset ((w.tables day).listed S ⟨search, hsearch, limit, offset, .id, .asc⟩),
      x ∈ (w.tables day).join ∧ x.1 .description ≠ .null := by
    intro x hx
    have hjoin := mem_listed ((limitOffset_sublist ..).subset hx)
    rw [join_tables] at hjoin
    obtain ⟨y, hy, rfl⟩ := List.mem_map.mp hjoin
    exact ⟨join_tables day w ▸ List.mem_map.mpr ⟨y, hy, rfl⟩, Cell.noConfusion⟩
  have hsteps : stepRowsCount _ _ .dbNoResult [] 0 = .ok _ := stepRowsCount_items hrows le_rfl (by omega)
  rw [dbGetFilesDataSql_eq, hsteps, ok_bind]
  dsimp only
  rw [if_pos (by split <;> simp), counted_tables hS]
  rw [listed_tables hS, List.length_map] at hfiles
  rw [listed_tables hS, limitOffset_map, List.length_map, List.length_map] at hlt
  rw [listed_tables hS, limitOffset_map, List.map_map, List.length_map, Int.zero_add, List.nil_append]
  unfold dbGetFilesData
  rw [if_pos ha]
  dsimp only
  generalize hfound : (if search ≠ [] then (joined w).filter (P.like search ·.1.name) else joined w) = rows at hlt hfiles ⊢
  have hitems : ∀ x ∈ limitOffset limit offset (orderById rows),
      (listItem ∘ fun x => (x.1.columns day, x.2.columns day)) x = dbGetFilesDataDb x := by
    intro x hx
    have hmem : x ∈ rows := (List.perm_insertionSort _ rows).mem_iff.mp ((limitOffset_sublist ..).subset hx)
    have hjoined : x ∈ joined w := by
      rw [← hfound] at hmem
      split at hmem
      · exact List.mem_of_mem_filter hmem
      · exact hmem
    exact listItem_columns hjoined (hsize _ (mem_joined.mp (List.mem_map_of_mem hjoined)).1)
  have hlen : toInt ((limitOffset limit offset (orderById rows)).length : Int) = _ :=
    toInt_of_lt (by omega) (by omega)
  rw [List.map_congr_left hitems, List.length_map, hlen]

theorem counted_eq_iff {addr : Nat} {t : Tables} {arg : GetFilesDb} :
    toInt (t.counted S addr arg).length = (t.listed S arg).length ↔ (t.matching S arg).length < 2 ^ 31 ∧
      if arg.searchStr = [] then 2 ^ 32 ∣ t.orphans.length
      else (t.addressed S addr).length ≡ (t.matching S arg).length [MOD 2 ^ 32] := by
  rw [length_listed, toInt_count]
  unfold Tables.counted
  split
  · rename_i h
    rw [length_orphans t S h]
    exact and_congr_right' Nat.add_modEq_right_iff
  · exact Iff.rfl

end

/-- **The total.** The total is the number of rows of the listing, and the count the length of the list, exactly
if no row between `LIMIT` and `OFFSET` lacks a description, and modulo the range of an `int` no file is without a
user, or for a search as many names have the address of the text in them as files of a user have the text. -/
theorem total_iff (S : Sqlite) (addr : Nat) (unset : Int) (t : Tables) (arg : GetFilesDb) :
    TotalReported S addr unset t arg ↔ t.Described S arg ∧ (t.matching S arg).length < 2 ^ 31 ∧
      if arg.searchStr = [] then 2 ^ 32 ∣ t.orphans.length
      else (t.addressed S addr).length ≡ (t.matching S arg).length [MOD 2 ^ 32] := by
  have hjoin : ∀ x ∈ limitOffset arg.limit arg.offset (t.listed S arg), x ∈ t.join :=
    fun x hx => mem_listed ((limitOffset_sublist ..).subset hx)
  rw [← counted_eq_iff]
  unfold TotalReported
  rw [dbGetFilesDataSql_eq]
  constructor
  · rintro ⟨count, list, fullCount, hrun, hfull, -⟩
    obtain ⟨r, hsteps, hrun⟩ := bind_ok.mp hrun
    obtain ⟨hdesc, hres⟩ := stepRowsCount_described hjoin hsteps
    obtain ⟨res, list', count'⟩ := r
    dsimp only at hrun hres
    rw [if_pos (by rw [hres]; split <;> simp)] at hrun
    cases hrun
    exact ⟨hdesc, hfull⟩
  · rintro ⟨hdesc, hfull⟩
    have hlt := (limitOffset_sublist arg.limit arg.offset (t.listed S arg)).length_le
    rw [length_listed] at hlt
    have hbound := (counted_eq_iff.mp hfull).1
    have hsteps : stepRowsCount _ _ .dbNoResult [] 0 = .ok _ :=
      stepRowsCount_items (fun x hx => ⟨hjoin x hx, hdesc x hx⟩) le_rfl (by omega)
    rw [hsteps]
    exact ⟨_, _, _, if_pos (by split <;> simp), hfull, by simp⟩

/-! ### A file without a user -/

def allFiles : GetFilesDb := ⟨[], by simp, 15, 0, .id, .asc⟩

/-- The one file belongs to the user 7, who does not exist; an anonymous upload has such an id. -/
def orphanFile : Tables where
  users := []
  files := [(⟨1, 7, ascii "a", 1, [], 1, 0⟩ : FileRow).columns []]
  userIds := Tables.empty.userIds
  fileIds := by simp
  validUsers := Tables.empty.validUsers
  validFiles := by simpa using ⟨⟨1, rfl⟩, by simp [FileRow.columns]⟩

/-- `file list` has no row to show, and reports a total of 1. -/
theorem orphan_counted (S : Sqlite) (addr : Nat) (unset : Int) :
    dbGetFilesDataSql S addr unset orphanFile allFiles = .ok (0, [], 1) := by
  have hlisted : orphanFile.listed S allFiles = [] := by
    rw [← List.length_eq_zero_iff, length_listed]
    rfl
  have hcounted : (orphanFile.counted S addr allFiles).length = 1 := rfl
  rw [dbGetFilesDataSql_eq, hlisted, hcounted, toInt_of_lt (by decide) (by decide)]
  rfl

theorem not_totalReported_orphan (S : Sqlite) (addr : Nat) (unset : Int) :
    ¬ TotalReported S addr unset orphanFile allFiles := by
  rintro ⟨count, list, fullCount, hrun, hfull, -⟩
  rw [orphan_counted] at hrun
  cases hrun
  have hnone : (orphanFile.matching S allFiles).length = 0 := rfl
  rw [length_listed, hnone] at hfull
  cases hfull

theorem orphan_total : ¬ TotalReported ⟨fun _ _ => true, fun _ _ l => l, fun _ _ l => .refl l⟩ 0 0 orphanFile allFiles :=
  not_totalReported_orphan _ 0 0

end BbsServer
