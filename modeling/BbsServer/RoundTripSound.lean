import BbsServer.Tables

/-!
# Saving and loading a file with SQLite

`db_save_file` and `db_get_file` of `db_sqlite.c` with the column lists of their statements, the arguments and their
types, and the columns that are read. What was saved is loaded again under the id that is returned, if the row is
committed and its id fits the `int` that it is returned in (`saved_loaded`).
-/

namespace BbsServer

open CStr

/-! ## `db_save_file` -/

def insertFileColumns : List FilesColumn := [.userId, .name, .size, .createdAt, .hash, .description, .permissions]

def insertFileValues : List SqlExpr := [.param 1, .param 2, .param 3, .date, .param 4, .param 5, .param 6]

def insertedFile (today : Cell) (binds : List Bind) (id : Int) : FilesRow := fun c =>
  if c = .id then .integer id
  else ((insertFileColumns.zip (insertFileValues.map (·.eval insertFileValues binds today))).lookup c).getD .null

theorem FilesRow.valid_iff {r : FilesRow} : r.Valid ↔ (∃ n, r .id = .integer n) ∧
    r .name ≠ .null ∧ r .size ≠ .null ∧ r .createdAt ≠ .null :=
  ⟨fun h => ⟨h.id, by simpa using h.notNull⟩, fun h => ⟨h.1, by simpa using h.2⟩⟩

instance (r : FilesRow) : Decidable r.Valid :=
  have : Decidable (∃ n, r .id = .integer n) :=
    match h : r .id with
    | .integer n => .isTrue ⟨n, rfl⟩
    | .null => .isFalse (by simp)
    | .text _ => .isFalse (by simp)
  decidable_of_iff _ FilesRow.valid_iff.symm

def Tables.insertFile (t : Tables) (r : FilesRow) : Option Tables :=
  if h : r.Valid ∧ r .id ∉ t.files.map (· .id) then
    some { t with
      files := t.files ++ [r]
      fileIds := nodup_map_snoc t.fileIds h.2
      validFiles := by
        intro x hx
        rcases List.mem_append.mp hx with hx | hx
        · exact t.validFiles x hx
        · rw [List.mem_singleton.mp hx]; exact h.1 }
  else none

/-- `INSERT INTO files ... RETURNING id`; `rowid` is the id that SQLite gives the row, if it carries the statement
out. The row is returned before it is committed, and `vdb_query` does not look at an error of the step that
commits. -/
def Tables.execInsertFile (t : Tables) (rowid : Option Int) (committed : Bool) (today : Cell) (binds : List Bind) :
    List (List Cell) × Tables :=
  match rowid.bind fun id => (t.insertFile (insertedFile today binds id)).map (id, ·) with
  | none => ([], t)
  | some (id, t') => ([[.integer id]], if committed then t' else t)

def saveFileTypes : List DbArgType := [.dbInt, .dbStr, .dbInt64, .dbInt, .dbStr, .dbInt, .dbEnd]

def Pointer.ofText (addr : Nat) (s : Option Bytes) : Pointer := ⟨addr, s.map (· ++ [0])⟩

def saveFileArgs (addr addr' : Nat) (sf : SFile) (uid : Int) : List VaArg :=
  [.int uid, .pointer (.ofText addr sf.name), .size sf.size, .int sf.hash.toInt,
    .pointer (.ofText addr' (some (sf.description.getD []))), .int sf.permissions]

def dbSaveFileStmt (row : List Cell) (_ : Int) : M (DbCbResp × Int) := .ok (.dbSuccess, columnInt row 0)

def dbSaveFileSql (addr addr' : Nat) (rowid : Option Int) (committed : Bool) (today : Bytes) (t : Tables) (sf : SFile)
    (uid : Int) : M (Int × Tables) := do
  let ((res, id, _), t) ← vdbQuerySql (t.execInsertFile rowid committed (.text today)) t dbSaveFileStmt 0 0 saveFileTypes
    (saveFileArgs addr addr' sf uid)
  if res ≠ .dbSuccess then .ok (-1, t) else .ok (id, t)

/-! ## `db_get_file` -/

def selectFileColumns : List FilesColumn := [.id, .userId, .name, .size, .description, .permissions, .hash]

def FileKey.column : FileKey → FilesColumn
  | .id _ => .id
  | .userId _ => .userId
  | .name _ => .name

def FileKey.type : FileKey → DbArgType
  | .id _ => .dbInt
  | .userId _ => .dbInt
  | .name _ => .dbStr

def FileKey.arg (addr : Nat) : FileKey → VaArg
  | .id n => .int n
  | .userId n => .int n
  | .name s => .pointer (.ofText addr (some s))

def Tables.selectFile (t : Tables) (addr : Nat) (key : FileKey) : List (List Cell) :=
  match bindArgs 0 [key.type, .dbEnd] [key.arg addr] 0 with
  | some (binds, true) =>
    (t.join.filter fun r => sqlEq (r.1 key.column) (paramCell binds 1)).map fun r => selectFileColumns.map r.1
  | _ => []

/-! ## The round trip -/

structure Savable (sf : SFile) : Prop where
  name : ∃ n, sf.name = some n ∧ 0 ∉ n
  size : sf.size < 2 ^ 63
  permissions : -128 ≤ sf.permissions ∧ sf.permissions < 128
  description : ∀ d ∈ sf.description, 0 ∉ d

structure Restored (sf g : SFile) (uid : Int) : Prop where
  name : g.name = sf.name
  size : g.size = sf.size
  permissions : g.permissions = sf.permissions
  hash : g.hash = sf.hash
  ownerId : g.ownerId = uid
  description : g.description = some (sf.description.getD [])

def Tables.HasUser (t : Tables) (uid : Int) : Prop := ∃ u ∈ t.users, u .id = .integer uid

/-- A positive id of `db_save_file` gets the file from `db_get_file`, and the other rows are as they were. -/
def RoundTrips (rowid : Option Int) (committed : Bool) (t : Tables) (sf : SFile) (uid : Int) : Prop :=
  ∀ addr addr' today, ∃ id t', dbSaveFileSql addr addr' rowid committed today t sf uid = .ok (id, t') ∧ (0 < id →
    (∀ arg : GetFile, arg.id = id → ∀ addr mem, ∃ g,
      dbGetFileSqlite mem true (t'.selectFile addr) arg = .ok (some g) ∧ Restored sf g uid) ∧
    t'.users = t.users ∧ ∃ row, t'.files = t.files ++ [row])

section
variable {t t' : Tables} {sf g : SFile} {uid id n : Int} {addr addr' : Nat} {today name : Bytes} {binds : List Bind}
  {rowid : Option Int} {committed : Bool} {row : FilesRow}

/-! ## What is saved -/

def FileKey.cell : FileKey → Cell
  | .id n => .integer n
  | .userId n => .integer n
  | .name s => .text s

def saveFileBinds (addr addr' : Nat) (sf : SFile) (uid : Int) : List Bind :=
  [⟨1, .int uid⟩, ⟨2, .text (.ofText addr sf.name) (-1)⟩, ⟨3, .int64 (wrap 64 sf.size)⟩, ⟨4, .int sf.hash.toInt⟩,
    ⟨5, .text (.ofText addr' (some (sf.description.getD []))) (-1)⟩, ⟨6, .int sf.permissions⟩]

theorem bindArgs_saveFile :
    bindArgs 0 saveFileTypes (saveFileArgs addr addr' sf uid) 0 = some (saveFileBinds addr addr' sf uid, true) := rfl

theorem text_ofText (addr : Nat) {s : Bytes} (h : 0 ∉ s) : (Pointer.ofText addr (some s)).text (-1) = .text s := by
  show Cell.text (cstr (s ++ [0])) = _
  rw [cstr_append_nul, cstr_of_nul_not_mem h]

theorem wrap_size (h : sf.size < 2 ^ 63) : wrap 64 sf.size = sf.size := by
  unfold wrap
  rw [Int.bmod_eq_of_le] <;> omega

theorem insertedFile_columns (addr addr' : Nat) (uid id : Int) (today : Bytes) (hs : Savable sf)
    (hn : sf.name = some name) :
    let row := insertedFile (.text today) (saveFileBinds addr addr' sf uid) id
    row .id = .integer id ∧ row .userId = .integer uid ∧ row .name = .text name ∧ row .size = .integer sf.size ∧
      row .createdAt = .text today ∧ row .description = .text (sf.description.getD []) ∧
      row .permissions = .integer sf.permissions ∧ row .hash = .integer sf.hash.toInt := by
  have hname : 0 ∉ name := by
    obtain ⟨m, hm, h0⟩ := hs.name
    rwa [Option.some.inj (hn.symm.trans hm)]
  have hdesc : 0 ∉ sf.description.getD [] := by
    cases hd : sf.description with
    | none => simp
    | some d => exact hs.description d hd
  refine ⟨rfl, rfl, ?_, ?_, rfl, ?_, rfl, rfl⟩
  · show (Pointer.ofText addr sf.name).text (-1) = _
    rw [hn, text_ofText addr hname]
  · show Cell.integer (wrap 64 sf.size) = _
    rw [wrap_size hs.size]
  · show (Pointer.ofText addr' (some (sf.description.getD []))).text (-1) = _
    exact text_ofText addr' hdesc

theorem FileTable.insert_range {t t' : FileTable} {r : FileRow} (h : t.insert r = some t') :
    r.id ∉ t.rows.map (·.id) ∧ 0 < r.id ∧ r.id < 2 ^ 31 := by
  unfold FileTable.insert at h
  split at h
  · rename_i hc; exact hc
  · cases h

theorem insertFile_some (h : t.insertFile row = some t') :
    (row.Valid ∧ row .id ∉ t.files.map (· .id)) ∧ t'.users = t.users ∧ t'.files = t.files ++ [row] := by
  unfold Tables.insertFile at h
  split at h
  · rename_i hc
    cases h
    exact ⟨hc, rfl, rfl⟩
  · cases h

theorem dbSaveFileSql_inserted
    (h : t.insertFile (insertedFile (.text today) (saveFileBinds addr addr' sf uid) id) = some t') :
    dbSaveFileSql addr addr' (some id) committed today t sf uid = .ok (toInt id, if committed then t' else t) := by
  unfold dbSaveFileSql vdbQuerySql
  rw [bindArgs_saveFile]
  dsimp only
  unfold Tables.execInsertFile
  rw [Option.bind_some, h]
  rfl

/-- `db_save_file` returns the low half of the id of the row, which is stored if it is committed, or -1. -/
theorem dbSaveFileSql_cases (addr addr' : Nat) (rowid : Option Int) (committed : Bool) (today : Bytes)
    (t : Tables) (sf : SFile)
    (uid : Int) : dbSaveFileSql addr addr' rowid committed today t sf uid = .ok (-1, t) ∨
    ∃ id t', rowid = some id ∧ t.insertFile (insertedFile (.text today) (saveFileBinds addr addr' sf uid) id) = some t' ∧
      dbSaveFileSql addr addr' rowid committed today t sf uid = .ok (toInt id, if committed then t' else t) := by
  cases h : (rowid.bind fun id =>
      (t.insertFile (insertedFile (.text today) (saveFileBinds addr addr' sf uid) id)).map (id, ·)) with
  | none =>
    left
    unfold dbSaveFileSql vdbQuerySql
    rw [bindArgs_saveFile]
    dsimp only
    unfold Tables.execInsertFile
    rw [h]
    rfl
  | some r =>
    obtain ⟨id, t'⟩ := r
    obtain ⟨id', rfl, h⟩ := Option.bind_eq_some_iff.mp h
    obtain ⟨t'', ht, h⟩ := Option.map_eq_some_iff.mp h
    cases h
    exact .inr ⟨id, t', rfl, ht, dbSaveFileSql_inserted ht⟩

theorem insertedFile_row (hs : Savable sf) (hn : sf.name = some name) :
    insertedFile (.text today) (saveFileBinds addr addr' sf uid) id = (savedRow sf uid id name).columns today := by
  obtain ⟨hcid, huser, hname, hsize, hcreated, hdesc, hperm, hhash⟩ :=
    insertedFile_columns addr addr' uid id today hs hn
  funext c
  cases c with
  | id => exact hcid
  | userId => exact huser
  | name => exact hname
  | size => exact hsize
  | createdAt => exact hcreated
  | description => exact hdesc
  | permissions => exact hperm
  | hash => exact hhash

theorem insertFile_tables {w : World} {files : FileTable} {tr : List Act} (hs : Savable sf) (hn : sf.name = some name)
    (hf : w.files.insert (savedRow sf uid id name) = some files) :
    (w.tables today).insertFile (insertedFile (.text today) (saveFileBinds addr addr' sf uid) id) =
      some (World.tables today { w with files, trace := tr }) := by
  have hrow : ((savedRow sf uid id name).columns today).Valid ∧
      ((savedRow sf uid id name).columns today) .id ∉ (w.tables today).files.map (· .id) := by
    refine ⟨⟨⟨id, rfl⟩, by simp [FileRow.columns]⟩, fun hmem => ?_⟩
    obtain ⟨x, hx, he⟩ := List.mem_map.mp hmem
    obtain ⟨r, hr, rfl⟩ := List.mem_map.mp hx
    obtain he : r.id = id := by injection he
    exact (FileTable.insert_range hf).1 (List.mem_map.mpr ⟨r, hr, he⟩)
  rw [insertedFile_row hs hn]
  unfold Tables.insertFile
  rw [dif_pos hrow]
  refine congrArg some (Tables.ext rfl ?_)
  show _ ++ [_] = files.rows.map _
  rw [(FileTable.insert_rows hf).1, List.map_append]
  rfl

/-- The `db_save_file` of the main model is this one on its tables. -/
theorem dbSaveFile_sql {ans : Answers} {w w' : World} {s : Session} (hs : Savable sf)
    (h : dbSaveFile ans w s sf uid = .ok (id, w')) :
    dbSaveFileSql addr addr' ans.insert true today (w.tables today) sf uid = .ok (id, w'.tables today) := by
  obtain ⟨name, hn, -⟩ := hs.name
  unfold dbSaveFile at h
  obtain ⟨name', hname, h⟩ := bind_ok.mp h
  obtain rfl := Option.some.inj (hn.symm.trans (deref_ok.mp hname))
  cases hi : ans.insert with
  | none =>
    rw [hi] at h
    cases h
    rcases dbSaveFileSql_cases addr addr' none true today (w.tables today) sf uid with h | ⟨n, t', hn, -⟩
    · exact h
    · cases hn
  | some n =>
    rw [hi] at h
    dsimp only at h
    split at h
    · rename_i files hf
      change w.files.insert (savedRow sf uid n name) = some files at hf
      cases h
      have hrange : 0 < id ∧ id < 2 ^ 31 := (FileTable.insert_range hf).2
      have hid : toInt id = id := toInt_of_lt (by omega) hrange.2
      have hinsert : (w.tables today).insertFile (insertedFile (.text today) (saveFileBinds addr addr' sf uid) id) =
          some (World.tables today { w with files, trace := .insertedFile s.sd (savedRow sf uid id name) :: w.trace }) :=
        insertFile_tables hs hn hf
      have hsave : dbSaveFileSql addr addr' (some id) true today (w.tables today) sf uid = .ok (toInt id, _) :=
        dbSaveFileSql_inserted hinsert
      rwa [hid] at hsave
    · cases h

/-! ## What is loaded -/

def savedFound (sf : SFile) (name : Bytes) (uid id : Int) : FoundRow :=
  { id, userId := uid, name, size := sf.size, description := some (sf.description.getD []),
    permissions := some sf.permissions, hash := some sf.hash.toInt }

theorem selectFile_id (addr : Nat) : t.selectFile addr (.id n) =
    (t.join.filter fun r => sqlEq (r.1 .id) (.integer n)).map fun r => selectFileColumns.map r.1 := rfl

theorem selectFile_row (addr : Nat) (hrow : row ∈ t.files) (hid : row .id = .integer n) (huser : t.HasUser uid)
    (howner : row .userId = .integer uid) : ∃ k, t.selectFile addr (.id n) =
      List.replicate (k + 1) (selectFileColumns.map row) := by
  have hall : ∀ x ∈ t.selectFile addr (.id n), x = selectFileColumns.map row := by
    intro x hx
    rw [selectFile_id] at hx
    obtain ⟨⟨r, u⟩, hr, rfl⟩ := List.mem_map.mp hx
    obtain ⟨hjoin, heq⟩ := List.mem_filter.mp hr
    have hr : r .id = row .id := (sqlEq_iff.mp heq).2.trans hid.symm
    exact congrArg (selectFileColumns.map ·) (List.inj_on_of_nodup_map t.fileIds (mem_join.mp hjoin).1 hrow hr)
  obtain ⟨u, hu, huid⟩ := huser
  have hmem : selectFileColumns.map row ∈ t.selectFile addr (.id n) := by
    rw [selectFile_id]
    refine List.mem_map.mpr ⟨(row, u), List.mem_filter.mpr ⟨mem_join.mpr ⟨hrow, hu, ?_⟩, ?_⟩, rfl⟩
    · rw [howner, huid, sqlEq_integer, beq_self_eq_true]
    · show sqlEq (row .id) _
      rw [hid, sqlEq_integer, beq_self_eq_true]
  obtain ⟨k, hk⟩ := Nat.exists_eq_succ_of_ne_zero (List.length_pos_of_mem hmem).ne'
  exact ⟨k, by rw [← Nat.succ_eq_add_one, ← hk]; exact List.eq_replicate_of_mem hall⟩

theorem selectFile_tables {day : Bytes} {w : World} {key : FileKey} (hkey : ∀ s, key = .name s → 0 ∉ s) :
    (w.tables day).selectFile addr key =
      ((((joined w).map (·.1)).map FileRow.found).filter key.holds).map FoundRow.cells := by
  have hselect : (w.tables day).selectFile addr key =
      ((w.tables day).join.filter fun x => sqlEq (x.1 key.column) key.cell).map fun x =>
        selectFileColumns.map x.1 := by
    cases key with
    | id n => rfl
    | userId n => rfl
    | name s =>
      show (List.filter (fun x : FilesRow × UsersRow =>
        sqlEq (x.1 .name) ((Pointer.ofText addr (some s)).text (-1))) _).map _ = _
      rw [text_ofText addr (hkey s rfl)]
      rfl
  rw [hselect, join_tables, List.filter_map, List.map_map, List.map_map, List.filter_map, List.map_map]
  have hholds : ∀ x : FileRow × UserRow, sqlEq (x.1.columns day key.column) key.cell = key.holds x.1.found := by
    intro x
    rw [Bool.eq_iff_iff, sqlEq_iff]
    cases key with
    | id n => simp [FileKey.column, FileKey.cell, FileRow.columns, FileKey.holds, FileRow.found]
    | userId n => simp [FileKey.column, FileKey.cell, FileRow.columns, FileKey.holds, FileRow.found]
    | name s => simp [FileKey.column, FileKey.cell, FileRow.columns, FileKey.holds, FileRow.found]
  refine Eq.trans (congrArg (List.map _) (List.filter_congr fun x _ => hholds x)) ?_
  rfl

theorem dbGetFileSqlite_replicate {mem : SFile} {arg : GetFile} {key : FileKey} {query : FileKey → List (List Cell)}
    {r : FoundRow} {k : Nat} (hkey : sqliteKey arg = some key) (hq : query key = List.replicate (k + 1) r.cells)
    (hr : r.Keyed) (hd : r.description ≠ none) : dbGetFileSqlite mem true query arg = .ok (some (r.file mem)) := by
  have hrows : ∀ x ∈ List.replicate (k + 1) r, x = r := fun x hx => List.eq_of_mem_replicate hx
  obtain ⟨res, hrun⟩ : ∃ res, stepRowsM (dbGetFileStmt mem) ((List.replicate (k + 1) r).map FoundRow.cells) .dbNoResult none =
      .ok (res, _) :=
    stepRowsM_file (fun x hx => hrows x hx ▸ hr) (fun x hx => hrows x hx ▸ hd) _ _
  unfold dbGetFileSqlite
  rw [hkey]
  dsimp only
  unfold vdbQueryM
  rw [if_pos rfl, hq, ← List.map_replicate, hrun, ok_bind, List.getLast?_replicate]
  rfl

theorem savedFound_restored (hs : Savable sf) (hn : sf.name = some name) (mem : SFile) :
    Restored sf ((savedFound sf name uid id).file mem) uid where
  name := hn.symm
  size := by
    show sizeT (sf.size : Int) = _
    exact sizeT_of_lt (by have := hs.size; omega)
  permissions := by
    have := hs.permissions
    show toChar (toInt sf.permissions) = _
    rw [toInt_of_lt (by omega) (by omega)]
    unfold toChar wrap
    rw [Int.bmod_eq_of_le] <;> omega
  hash := by
    show BitVec.ofInt 32 (toInt sf.hash.toInt) = _
    rw [toInt_of_lt sf.hash.le_toInt sf.hash.toInt_lt]
    exact BitVec.ofInt_toInt
  ownerId := rfl
  description := rfl

end

/-- **Saved and loaded.** A file that is saved for a user of the table is loaded as it was saved, if the row is
committed and the id that SQLite gives it is below `2 ^ 32`: then a positive result of `db_save_file` is this id. -/
theorem saved_loaded {t : Tables} {sf : SFile} {uid : Int} {rowid : Option Int} {committed : Bool} (hs : Savable sf)
    (huser : t.HasUser uid) (huid : fitsInt uid) (hrowid : ∀ n ∈ rowid, 0 < n ∧ n < 2 ^ 32)
    (hcommitted : rowid.isSome → committed = true) :
    RoundTrips rowid committed t sf uid := by
  intro addr addr' today
  rcases dbSaveFileSql_cases addr addr' rowid committed today t sf uid with h | ⟨n, t', rfl, hinsert, h⟩
  · exact ⟨-1, t, h, fun h => absurd h (by decide)⟩
  rw [if_pos (hcommitted rfl)] at h
  refine ⟨toInt n, t', h, fun hpos => ?_⟩
  obtain ⟨name, hn, -⟩ := hs.name
  obtain ⟨-, husers, hfiles⟩ := insertFile_some hinsert
  refine ⟨fun arg harg addr'' mem => ?_, husers, _, hfiles⟩
  -- a positive `int` is the id itself
  have hrange := hrowid n rfl
  have hid : toInt n = n := by
    unfold toInt wrap at hpos ⊢
    rw [Int.bmod_def] at hpos ⊢
    split_ifs at hpos ⊢ <;> omega
  obtain ⟨hcid, huserId, hname, hsize, -, hdesc, hperm, hhash⟩ :=
    insertedFile_columns addr addr' uid n today hs hn
  have hkey : sqliteKey arg = some (.id n) := by
    unfold sqliteKey
    rw [if_pos (by omega), harg, hid]
  have huser' : t'.HasUser uid := by
    obtain ⟨u, hu, h⟩ := huser
    exact ⟨u, husers ▸ hu, h⟩
  have hmem : insertedFile (.text today) (saveFileBinds addr addr' sf uid) n ∈ t'.files :=
    hfiles ▸ List.mem_append_right _ (List.mem_singleton_self _)
  obtain ⟨k, hq⟩ := selectFile_row addr'' hmem hcid huser' huserId
  have hcells : selectFileColumns.map (insertedFile (.text today) (saveFileBinds addr addr' sf uid) n) =
      (savedFound sf name uid n).cells := by
    unfold selectFileColumns FoundRow.cells savedFound
    simp only [List.map_cons, List.map_nil, hcid, huserId, hname, hsize, hdesc, hperm, hhash]
    rfl
  rw [hcells] at hq
  exact ⟨_, dbGetFileSqlite_replicate hkey hq ⟨hid, toInt_eq_iff.mpr huid⟩ (Option.some_ne_none _),
    savedFound_restored hs hn mem⟩

/-! ### A file, and an id that does not fit -/

def notesFile : SFile :=
  { SFile.unset with name := some (ascii "notes"), size := 5000000000, permissions := 1, hash := .ofInt 32 (-2) }

theorem notesFile_savable : Savable notesFile :=
  ⟨⟨ascii "notes", rfl, by decide⟩, by decide, by decide, by simp [notesFile, SFile.unset]⟩

def oneFile : Tables where
  users := [(⟨1, ascii "bob", [], ascii "b@c", 1⟩ : UserRow).columns []]
  files := [(⟨1, 1, ascii "a", 1, [], 1, 0⟩ : FileRow).columns []]
  userIds := by simp
  fileIds := by simp
  validUsers := by simpa using ⟨⟨1, rfl⟩, by simp [UserRow.columns]⟩
  validFiles := by simpa using ⟨⟨1, rfl⟩, by simp [FileRow.columns]⟩

theorem oneFile_user : oneFile.HasUser 1 := ⟨_, List.mem_singleton_self _, rfl⟩

theorem saved_loaded_notes : RoundTrips (some 2) true oneFile notesFile 1 :=
  saved_loaded notesFile_savable oneFile_user ⟨by decide, by decide⟩ (by simp) fun _ => rfl

/-- The row gets the id `2 ^ 32 + 1`, of which 1 is returned: the id of the other file. -/
theorem large_id_other_file : Savable notesFile ∧ oneFile.HasUser 1 ∧
    ¬ RoundTrips (some (2 ^ 32 + 1)) true oneFile notesFile 1 := by
  refine ⟨notesFile_savable, oneFile_user, fun h => ?_⟩
  obtain ⟨id, t', hsave, h⟩ := h 0 0 []
  have hinsert : ∃ t'', oneFile.insertFile (insertedFile (.text []) (saveFileBinds 0 0 notesFile 1) (2 ^ 32 + 1)) =
    some t'' :=
    ⟨_, dif_pos ⟨⟨⟨_, rfl⟩, by decide⟩, by decide⟩⟩
  obtain ⟨t'', hinsert⟩ := hinsert
  obtain ⟨rfl, rfl⟩ : toInt (2 ^ 32 + 1) = id ∧ t'' = t' := by
    simpa using (dbSaveFileSql_inserted hinsert).symm.trans hsave
  obtain ⟨g, hget, hg⟩ := (h (by decide)).1 ⟨1, 0, []⟩ rfl 0 .unset
  obtain ⟨-, husers, hfiles⟩ := insertFile_some hinsert
  have hrow : (⟨1, 1, ascii "a", 1, [], 1, 0⟩ : FileRow).columns [] ∈ t''.files := by
    rw [hfiles]
    exact List.mem_append_left _ (List.mem_singleton_self _)
  have huser : t''.HasUser 1 := by
    unfold Tables.HasUser
    rw [husers]
    exact oneFile_user
  obtain ⟨k, hq⟩ := selectFile_row 0 hrow rfl huser rfl
  have hold : dbGetFileSqlite .unset true (t''.selectFile 0) ⟨1, 0, []⟩ =
      .ok (some ((⟨1, 1, ascii "a", 1, [], 1, 0⟩ : FileRow).found.file .unset)) :=
    dbGetFileSqlite_replicate rfl hq ⟨by decide, by decide⟩ (by decide)
  obtain rfl := Option.some.inj (Except.ok.inj (hold.symm.trans hget))
  exact absurd hg.size (by decide)

end BbsServer
