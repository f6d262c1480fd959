import BbsServer.Backend

/-!
# Looking up a file, with either database

The two `db_get_file` ask with different keys where an owner and a name are set, and of several rows
`db_sqlite.c` keeps the last and `db_postgresql.c` takes the first, which it does not miss (`lookup_agrees_iff`).
-/

namespace BbsServer

open CStr

structure FoundRow where
  id : Int
  userId : Int
  name : Bytes
  size : Int
  description : Option Bytes
  permissions : Option Int
  hash : Option Int
  deriving DecidableEq, Repr

structure FoundRow.Fits (r : FoundRow) : Prop where
  id : 0 < r.id ∧ r.id < 2 ^ 31
  userId : 0 < r.userId ∧ r.userId < 2 ^ 31
  size : -2 ^ 63 ≤ r.size ∧ r.size < 2 ^ 63
  permissions : ∀ n ∈ r.permissions, -2 ^ 63 ≤ n ∧ n < 2 ^ 63
  hash : ∀ n ∈ r.hash, -2 ^ 63 ≤ n ∧ n < 2 ^ 63

def Cell.ofInt : Option Int → Cell
  | none => .null
  | some n => .integer n

def Cell.ofText : Option Bytes → Cell
  | none => .null
  | some s => .text s

def FoundRow.cells (r : FoundRow) : List Cell :=
  [.integer r.id, .integer r.userId, .text r.name, .integer r.size,
    .ofText r.description, .ofInt r.permissions, .ofInt r.hash]

inductive FileKey
  | id (n : Int)
  | userId (n : Int)
  | name (s : Bytes)
  deriving DecidableEq, Repr

def FileKey.holds : FileKey → FoundRow → Bool
  | .id n, r => r.id == n
  | .userId n, r => r.userId == n
  | .name s, r => r.name == s

def FileKey.value : FileKey → Bytes
  | .id n => decimalInt n
  | .userId n => decimalInt n
  | .name s => s

/-- The table, in the order in which the rows of a key come. PostgreSQL may refuse a key that no row can
have, such as a number that does not fit the type of the column. -/
structure FileSearch where
  table : List FoundRow
  ids : (table.map (·.id)).Nodup
  fits : ∀ r ∈ table, r.Fits
  select : FileKey → List FoundRow
  perm : ∀ key, (select key).Perm (table.filter key.holds)
  refuses : FileKey → Bool
  refused : ∀ key, refuses key → select key = []

/-! ## `db_get_file` -/

def sqliteKey (arg : GetFile) : Option FileKey :=
  if arg.id ≠ 0 then some (.id arg.id)
  else if arg.userId ≠ 0 then some (.userId arg.userId)
  else if arg.name ≠ [] then some (.name arg.name)
  else none

def postgresqlKey (arg : GetFile) : Option FileKey :=
  if arg.id ≠ 0 then some (.id (arg.id % 2 ^ 32))
  else if arg.name ≠ [] then some (.name arg.name)
  else if arg.userId ≠ 0 then some (.userId (arg.userId % 2 ^ 32))
  else none

def dbGetFileStmt (sf : SFile) (row : List Cell) (_ : Option SFile) : M (DbCbResp × Option SFile) := do
  let name ← deref (columnText row 2)
  let description ← deref (columnText row 4)
  let size := sizeT (columnInt64 row 3)
  .ok (.dbSuccess, some { sf with
    id := columnInt row 0, ownerId := columnInt row 1, name := some name, size, description := some description,
    permissions := toChar (columnInt row 5), hash := .ofInt 32 (columnInt row 6), rest := size })

def dbGetFileSqlite (sf : SFile) (prepared : Bool) (query : FileKey → List (List Cell)) (arg : GetFile) :
    M (Option SFile) :=
  match sqliteKey arg with
  | none => .ok none
  | some key => do
    let (_, sf) ← vdbQueryM prepared (query key) (dbGetFileStmt sf) none
    .ok sf

/-- `db_get_file` of `db_postgresql.c`; the text of the key goes into `char value[64]`. -/
def dbGetFilePostgresql (sf : SFile) (query : FileKey → PgResult) (arg : GetFile) : M (Option SFile) :=
  match postgresqlKey arg with
  | none => .ok none
  | some key =>
    if 64 ≤ key.value.length then .error (.fault .overflow)
    else
      let res := query key
      if res.refused then .ok none
      else do
        let id ← deref (res.getvalue 0 0)
        let ownerId ← deref (res.getvalue 0 1)
        let name ← deref (res.getvalue 0 2)
        let size ← deref (res.getvalue 0 3)
        let description ← deref (res.getvalue 0 4)
        let permissions ← deref (res.getvalue 0 5)
        let hash ← deref (res.getvalue 0 6)
        .ok (some { sf with
          id := atoi id, ownerId := atoi ownerId, name := some name, size := sizeT (atoll size),
          description := some description, permissions := toChar (atoi permissions), hash := .ofInt 32 (atoi hash) })

def FileSearch.rows (f : FileSearch) (key : FileKey) : List (List Cell) := (f.select key).map FoundRow.cells

def FileSearch.result (f : FileSearch) (key : FileKey) : PgResult :=
    if f.refuses key then .notTuples else .tuples (f.rows key)

/-! ## The two answers -/

structure SameFile (a b : SFile) : Prop where
  id : a.id = b.id
  ownerId : a.ownerId = b.ownerId
  name : a.name = b.name
  size : a.size = b.size
  description : a.description = b.description
  permissions : a.permissions = b.permissions
  hash : a.hash = b.hash

/-- `NULL` is the answer exactly without a key or without a row that has it. -/
def AnswersKey (f : FileSearch) (key : Option FileKey) (answer : Option SFile) : Prop :=
  answer = none ↔ ∀ k ∈ key, f.select k = []

def LookupAgrees (f : FileSearch) (sf sf' : SFile) (arg : GetFile) : Prop :=
  ∃ a b, dbGetFileSqlite sf true f.rows arg = .ok a ∧ dbGetFilePostgresql sf' f.result arg = .ok b ∧
    AnswersKey f (sqliteKey arg) a ∧ AnswersKey f (postgresqlKey arg) b ∧ Option.Rel SameFile a b

/-- The one file that both see, if any: the last of SQLite's rows, which all have descriptions, and the first of
PostgreSQL's. -/
structure SeesOne (f : FileSearch) (k k' : FileKey) (row : FoundRow) : Prop where
  last : (f.select k).getLast? = some row
  first : (f.select k').head? = some row
  described : ∀ r ∈ f.select k, r.description ≠ none

section
variable {f : FileSearch} {sf sf' : SFile} {arg : GetFile} {key k k' : FileKey} {r row : FoundRow}
  {rows : List FoundRow}

def FoundRow.file (sf : SFile) (r : FoundRow) : SFile :=
  { sf with
    id := r.id, ownerId := r.userId, name := some r.name, size := sizeT r.size, description := r.description,
    permissions := toChar (toInt (r.permissions.getD 0)), hash := .ofInt 32 (toInt (r.hash.getD 0)),
    rest := sizeT r.size }

def FoundRow.pgFile (sf : SFile) (r : FoundRow) : SFile :=
  { r.file sf with description := some (r.description.getD []), rest := sf.rest }

theorem columnInt_ofInt {l : List Cell} {i : Nat} {n : Option Int} (h : l[i]? = some (.ofInt n)) :
    columnInt l i = toInt (n.getD 0) := by
  unfold columnInt
  rw [h]
  cases n with
  | none => rfl
  | some n => rfl

theorem atoi_ofInt {n : Option Int} (h : ∀ x ∈ n, -2 ^ 63 ≤ x ∧ x < 2 ^ 63) :
    atoi (Cell.ofInt n).value = toInt (n.getD 0) := by
  cases n with
  | none => rfl
  | some n => exact atoi_value (h n rfl).1 (h n rfl).2

theorem toInt_key {n : Int} (h : 0 < n ∧ n < 2 ^ 31) : toInt n = n := toInt_of_lt (by omega) h.2

def FoundRow.Keyed (r : FoundRow) : Prop := toInt r.id = r.id ∧ toInt r.userId = r.userId

theorem FoundRow.Fits.keyed (h : r.Fits) : r.Keyed := ⟨toInt_key h.id, toInt_key h.userId⟩

theorem dbGetFileStmt_cells (hr : r.Keyed) {resp : Option SFile} (hd : r.description ≠ none) :
    dbGetFileStmt sf r.cells resp = .ok (.dbSuccess, some (r.file sf)) := by
  obtain ⟨d, hd⟩ := Option.ne_none_iff_exists'.mp hd
  have hdesc : columnText r.cells 4 = some d := by
    show columnText [_, _, _, _, Cell.ofText r.description, _, _] 4 = some d
    rw [hd]
    rfl
  unfold dbGetFileStmt FoundRow.file
  rw [hdesc, columnInt_ofInt (i := 5) (n := r.permissions) rfl, columnInt_ofInt (i := 6) (n := r.hash) rfl, hd]
  show Except.ok (DbCbResp.dbSuccess, some _) = _
  have hid : columnInt r.cells 0 = r.id := hr.1
  have howner : columnInt r.cells 1 = r.userId := hr.2
  rw [hid, howner]
  rfl

theorem dbGetFileStmt_null {resp : Option SFile} (hd : r.description = none) :
    dbGetFileStmt sf r.cells resp = .error (.fault .nullDeref) := by
  have hdesc : columnText r.cells 4 = none := by
    show columnText [_, _, _, _, Cell.ofText r.description, _, _] 4 = none
    rw [hd]
    rfl
  unfold dbGetFileStmt
  rw [hdesc]
  rfl

/-! ## SQLite -/

theorem keys_none : sqliteKey arg = none ↔ arg.id = 0 ∧ arg.userId = 0 ∧ arg.name = [] := by
  unfold sqliteKey
  split_ifs <;> simp_all

theorem stepRowsM_file : ∀ {rows : List FoundRow},
    (∀ r ∈ rows, r.Keyed) → (∀ r ∈ rows, r.description ≠ none) → ∀ res resp,
    ∃ res', stepRowsM (dbGetFileStmt sf) (rows.map FoundRow.cells) res resp =
      .ok (res', (rows.getLast?.map (·.file sf)).or resp)
  | [], _, _, res, _ => ⟨res, rfl⟩
  | r :: rows, hf, hd, _, _ => by
    obtain ⟨res', h⟩ := stepRowsM_file (fun x hx => hf x (List.mem_cons_of_mem _ hx))
      (fun x hx => hd x (List.mem_cons_of_mem _ hx))
      .dbSuccess (some (r.file sf))
    refine ⟨res', ?_⟩
    rw [List.map_cons, stepRowsM, dbGetFileStmt_cells (hf r (List.mem_cons_self ..)) (hd r (List.mem_cons_self ..)),
      ok_bind]
    dsimp only
    rw [if_neg (by decide), h, List.getLast?_cons]
    cases rows.getLast? with
    | none => rfl
    | some x => rfl

/-- `strlen(NULL)` at the first row without a description. -/
theorem stepRowsM_null : ∀ {rows : List FoundRow},
    (∀ r ∈ rows, r.Keyed) → (∃ r ∈ rows, r.description = none) → ∀ {res resp},
    stepRowsM (dbGetFileStmt sf) (rows.map FoundRow.cells) res resp = .error (.fault .nullDeref)
  | [], _, h, _, _ => by simp at h
  | r :: rows, hf, h, _, _ => by
    rw [List.map_cons, stepRowsM]
    by_cases hr : r.description = none
    · rw [dbGetFileStmt_null hr]
      rfl
    · have hrows : ∃ x ∈ rows, x.description = none := by
        obtain ⟨x, hx, hd⟩ := h
        rcases List.mem_cons.mp hx with rfl | hx
        · exact absurd hd hr
        · exact ⟨x, hx, hd⟩
      rw [dbGetFileStmt_cells (hf r (List.mem_cons_self ..)) hr, ok_bind]
      dsimp only
      rw [if_neg (by decide)]
      exact stepRowsM_null (fun x hx => hf x (List.mem_cons_of_mem _ hx)) hrows

theorem FileSearch.mem (hr : r ∈ f.select key) : r ∈ f.table := (List.mem_filter.mp ((f.perm key).mem_iff.mp hr)).1

theorem dbGetFileSqlite_file {query : FileKey → List FoundRow} (hk : sqliteKey arg = some k)
    (hkeyed : ∀ r ∈ query k, r.Keyed) (hd : ∀ r ∈ query k, r.description ≠ none) :
    dbGetFileSqlite sf true (fun key => (query key).map FoundRow.cells) arg =
      .ok ((query k).getLast?.map (·.file sf)) := by
  obtain ⟨res', h⟩ : ∃ res', stepRowsM (dbGetFileStmt sf) _ .dbNoResult none = .ok (res', _) :=
    stepRowsM_file hkeyed hd _ _
  unfold dbGetFileSqlite
  rw [hk]
  dsimp only
  unfold vdbQueryM
  rw [if_pos rfl, h, ok_bind, Option.or_none]

theorem sqlite_ok (hk : sqliteKey arg = some k) {a : Option SFile} : dbGetFileSqlite sf true f.rows arg = .ok a ↔
    (∀ r ∈ f.select k, r.description ≠ none) ∧ a = (f.select k).getLast?.map (·.file sf) := by
  have hkeyed : ∀ r ∈ f.select k, r.Keyed := fun r hr => (f.fits r (FileSearch.mem hr)).keyed
  by_cases hd : ∀ r ∈ f.select k, r.description ≠ none
  · have hrun : dbGetFileSqlite sf true f.rows arg = .ok _ := dbGetFileSqlite_file hk hkeyed hd
    rw [hrun, and_iff_right hd]
    exact ⟨fun h => (Except.ok.inj h).symm, fun h => congrArg Except.ok h.symm⟩
  · refine iff_of_false (fun h => ?_) fun h => hd h.1
    unfold dbGetFileSqlite at h
    rw [hk] at h
    dsimp only at h
    unfold vdbQueryM FileSearch.rows at h
    rw [if_pos rfl, stepRowsM_null hkeyed (by simpa using hd)] at h
    cases h

def FileRow.found (r : FileRow) : FoundRow :=
  { id := r.id, userId := r.userId, name := r.name, size := r.size, description := some r.description,
    permissions := some r.permissions, hash := some r.hash.toInt }

def SFile.unset : SFile :=
  { name := none, path := none, description := none, permissions := 0, size := 0, rest := 0, packageRest := 0, hash := 0,
    id := 0, ownerId := 0 }

theorem FileRow.found_file {r : FileRow} (h : r.size < 2 ^ 64) : r.found.file .unset = dbGetFileDb r := by
  have hhash : BitVec.ofInt 32 (toInt r.hash.toInt) = r.hash := by
    rw [toInt_of_lt r.hash.le_toInt r.hash.toInt_lt]
    exact BitVec.ofInt_toInt
  have hperm : toChar (toInt r.permissions) = toChar r.permissions := toChar_wrap _
  unfold FoundRow.file FileRow.found dbGetFileDb
  simp only [Option.getD_some, hhash, hperm, sizeT_of_lt h, SFile.unset]

theorem dbGetFile_key {ans : Answers} {w : World} (ha : ans.answered = true) (hk : sqliteKey arg = some k) :
    dbGetFile ans w arg =
    (((joined w).map (·.1)).filter fun r => k.holds r.found).getLast?.map dbGetFileDb := by
  unfold sqliteKey at hk
  unfold dbGetFile
  rw [if_pos ha]
  split_ifs at hk with hid huser hname
  · cases hk
    rw [if_pos hid]
    rfl
  · cases hk
    rw [if_neg hid, if_pos huser]
    rfl
  · cases hk
    rw [if_neg hid, if_neg huser]
    simp only [hname, decide_true, Bool.true_and, ne_eq, not_false_eq_true]
    rfl

theorem dbGetFile_unset {ans : Answers} {w : World} (hk : sqliteKey arg = none) : dbGetFile ans w arg = none := by
  obtain ⟨hid, huser, hname⟩ := keys_none.mp hk
  simp [dbGetFile, hid, huser, hname]

theorem dbGetFile_sqlite {ans : Answers} {w : World} (hsize : ∀ r ∈ w.files.rows, r.size < 2 ^ 64) :
    dbGetFileSqlite .unset ans.answered
        (fun key => ((((joined w).map (·.1)).map FileRow.found).filter key.holds).map FoundRow.cells) arg =
      .ok (dbGetFile ans w arg) := by
  cases hk : sqliteKey arg with
  | none =>
    rw [dbGetFile_unset hk]
    unfold dbGetFileSqlite
    rw [hk]
  | some k =>
    cases ha : ans.answered with
    | false =>
      unfold dbGetFileSqlite dbGetFile
      rw [hk, ha]
      rfl
    | true =>
      have hrows : ∀ r ∈ (((joined w).map (·.1)).map FileRow.found).filter k.holds,
          ∃ r' ∈ (joined w).map (·.1), r'.found = r :=
        fun r hr => List.mem_map.mp (List.mem_filter.mp hr).1
      rw [dbGetFileSqlite_file hk (fun r hr => ?_) (fun r hr => ?_), dbGetFile_key ha hk, List.filter_map,
        List.getLast?_map,
        Option.map_map]
      · refine congrArg Except.ok (Option.map_congr fun r hr => ?_)
        have hmem := (List.mem_filter.mp (List.mem_of_getLast? hr)).1
        exact FileRow.found_file (hsize r (mem_joined.mp hmem).1)
      · obtain ⟨r', hr', rfl⟩ := hrows r hr
        obtain ⟨hfile, u, hu, hid⟩ := mem_joined.mp hr'
        have huser := w.users.idRange u hu
        rw [hid] at huser
        exact ⟨toInt_key (w.files.idRange r' hfile), toInt_key huser⟩
      · obtain ⟨r', -, rfl⟩ := hrows r hr
        exact Option.some_ne_none _

/-! ## PostgreSQL -/

theorem value_ofText (d : Option Bytes) : (Cell.ofText d).value = d.getD [] := by
  cases d with
  | none => rfl
  | some d => rfl

theorem postgresql_row (hk : postgresqlKey arg = some k) (hlen : k.value.length < 64) (hq : f.refuses k = false)
    (hrows : f.select k = r :: rows) : dbGetFilePostgresql sf f.result arg = .ok (some (r.pgFile sf)) := by
  have hr : r.Fits := f.fits r (FileSearch.mem (hrows ▸ List.mem_cons_self ..))
  have hres : f.result k = .tuples (r.cells :: rows.map FoundRow.cells) := by
    unfold FileSearch.result FileSearch.rows
    rw [hq, hrows]
    rfl
  have hint : ∀ {n : Int}, 0 < n ∧ n < 2 ^ 31 → atoi (decimalInt n) = n := fun h => atoi_decimalInt h.1.le h.2
  unfold dbGetFilePostgresql
  rw [hk]
  dsimp only
  rw [if_neg (by omega), hres, if_neg (by simp)]
  have h0 : r.cells[0]?.map Cell.value = some (decimalInt r.id) := rfl
  have h1 : r.cells[1]?.map Cell.value = some (decimalInt r.userId) := rfl
  have h2 : r.cells[2]?.map Cell.value = some r.name := rfl
  have h3 : r.cells[3]?.map Cell.value = some (decimalInt r.size) := rfl
  have h4 : r.cells[4]?.map Cell.value = some (Cell.ofText r.description).value := rfl
  have h5 : r.cells[5]?.map Cell.value = some (Cell.ofInt r.permissions).value := rfl
  have h6 : r.cells[6]?.map Cell.value = some (Cell.ofInt r.hash).value := rfl
  simp only [getvalue_cons, h0, h1, h2, h3, h4, h5, h6, deref, ok_bind, hint hr.id, hint hr.userId, value_ofText,
    atoll_decimalInt hr.size.1 hr.size.2, atoi_ofInt hr.permissions, atoi_ofInt hr.hash]
  rfl

theorem postgresql_ok (hk : postgresqlKey arg = some k) {b : Option SFile} :
    dbGetFilePostgresql sf f.result arg = .ok b ↔
    k.value.length < 64 ∧ (f.refuses k ∧ b = none ∨ ∃ r, (f.select k).head? = some r ∧ b = some (r.pgFile sf)) := by
  by_cases hlen : k.value.length < 64
  · rw [and_iff_right hlen]
    cases hq : f.refuses k with
    | true =>
      have hnil := f.refused k hq
      have hres : f.result k = .notTuples := by unfold FileSearch.result; rw [hq]; rfl
      unfold dbGetFilePostgresql
      rw [hk]
      dsimp only
      rw [if_neg (by omega), hres, if_pos (by simp), hnil]
      simp [eq_comm]
    | false =>
      cases hrows : f.select k with
      | nil =>
        -- the text of a cell that is not there
        have hres : f.result k = .tuples [] := by unfold FileSearch.result FileSearch.rows; rw [hq, hrows]; rfl
        unfold dbGetFilePostgresql
        rw [hk]
        dsimp only
        rw [if_neg (by omega), hres, if_neg (by simp), getvalue_nil]
        exact iff_of_false (fun h => by cases h) (by simp)
      | cons r rows =>
        rw [postgresql_row hk hlen hq hrows]
        simp [eq_comm]
  · refine iff_of_false (fun h => ?_) fun h => hlen h.1
    unfold dbGetFilePostgresql at h
    rw [hk] at h
    dsimp only at h
    rw [if_pos (by omega)] at h
    cases h

/-! ## Both -/

theorem keys_some (h : sqliteKey arg = some k) : ∃ k', postgresqlKey arg = some k' := by
  unfold sqliteKey at h
  unfold postgresqlKey
  split_ifs at h ⊢ <;> simp_all

theorem FoundRow.same (hd : r.description ≠ none) : SameFile (r.file sf) (r.pgFile sf') := by
  obtain ⟨d, hd⟩ := Option.ne_none_iff_exists'.mp hd
  exact ⟨rfl, rfl, rfl, rfl, by simp [FoundRow.pgFile, FoundRow.file, hd], rfl, rfl⟩

theorem FileSearch.row_eq (f : FileSearch) (hr : r ∈ f.select k) (hrow : row ∈ f.select k')
    (hid : r.id = row.id) : r = row :=
  List.inj_on_of_nodup_map f.ids (FileSearch.mem hr) (FileSearch.mem hrow) hid

end

/-- **Lookups.** The two databases answer a lookup alike exactly if no key is set, or the key of PostgreSQL fits its
buffer, and either it is refused while SQLite finds nothing, or both see one row. -/
theorem lookup_agrees_iff (f : FileSearch) (sf sf' : SFile) (arg : GetFile) : LookupAgrees f sf sf' arg ↔
    (arg.id = 0 ∧ arg.userId = 0 ∧ arg.name = []) ∨ ∃ k k', sqliteKey arg = some k ∧ postgresqlKey arg = some k' ∧
      k'.value.length < 64 ∧ (f.refuses k' ∧ f.select k = [] ∨ ∃ row, SeesOne f k k' row) := by
  cases hk : sqliteKey arg with
  | none =>
    have hnone := keys_none.mp hk
    have hk' : postgresqlKey arg = none := by simp [postgresqlKey, hnone]
    refine iff_of_true ⟨none, none, ?_, ?_, by simp [AnswersKey, hk], by simp [AnswersKey, hk'], .none⟩ (.inl hnone)
    · unfold dbGetFileSqlite
      rw [hk]
    · unfold dbGetFilePostgresql
      rw [hk']
  | some k =>
    obtain ⟨k', hk'⟩ := keys_some hk
    have hset : ¬ (arg.id = 0 ∧ arg.userId = 0 ∧ arg.name = []) := fun h => by
      rw [keys_none.mpr h] at hk
      cases hk
    rw [or_iff_right hset]
    constructor
    · rintro ⟨a, b, ha, hb, -, -, hrel⟩
      obtain ⟨hd, rfl⟩ := (sqlite_ok hk).mp ha
      obtain ⟨hlen, ⟨hq, rfl⟩ | ⟨r, hr, rfl⟩⟩ := (postgresql_ok hk').mp hb
      · refine ⟨k, k', rfl, hk', hlen, .inl ⟨hq, ?_⟩⟩
        cases hl : (f.select k).getLast? with
        | none => exact List.getLast?_eq_none_iff.mp hl
        | some row => rw [hl] at hrel; cases hrel
      · cases hl : (f.select k).getLast? with
        | none => rw [hl] at hrel; cases hrel
        | some row =>
          rw [hl] at hrel
          cases hrel with
          | some hsame =>
            obtain rfl := f.row_eq (List.mem_of_getLast? hl) (List.mem_of_mem_head? hr) hsame.id
            exact ⟨k, k', rfl, hk', hlen, .inr ⟨row, hl, hr, hd⟩⟩
    · rintro ⟨x, x', hx, hx', hlen, h⟩
      obtain rfl := Option.some.inj hx
      obtain rfl := Option.some.inj (hk'.symm.trans hx')
      rcases h with ⟨hq, hnil⟩ | ⟨row, hlast, hfirst, hd⟩
      · have hnil' := f.refused k' hq
        exact ⟨none, none, (sqlite_ok hk).mpr ⟨by simp [hnil], by simp [hnil]⟩,
          (postgresql_ok hk').mpr ⟨hlen, .inl ⟨hq, rfl⟩⟩,
          by simp [AnswersKey, hk, hnil], by simp [AnswersKey, hk', hnil'], .none⟩
      · have hmem := List.mem_of_getLast? hlast
        have hne : f.select k ≠ [] := List.ne_nil_of_mem hmem
        have hne' : f.select k' ≠ [] := List.ne_nil_of_mem (List.mem_of_mem_head? hfirst)
        exact ⟨some (row.file sf), some (row.pgFile sf'), (sqlite_ok hk).mpr ⟨hd, by simp [hlast]⟩,
          (postgresql_ok hk').mpr ⟨hlen, .inr ⟨row, hfirst, rfl⟩⟩, by simp [AnswersKey, hk, hne],
          by simp [AnswersKey, hk', hne'], .some (FoundRow.same (hd row hmem))⟩

/-! ### A name that no file has -/

def FileSearch.ofTable (table : List FoundRow) (ids : (table.map (·.id)).Nodup) (fits : ∀ r ∈ table, r.Fits) :
    FileSearch where
  table := table
  ids := ids
  fits := fits
  select key := table.filter key.holds
  perm _ := .rfl
  refuses
    | .id n => decide (2 ^ 31 ≤ n)
    | .userId n => decide (2 ^ 31 ≤ n)
    | .name _ => false
  refused key h := by
    refine List.filter_eq_nil_iff.mpr fun r hr hkey => ?_
    have hfit := fits r hr
    cases key with
    | id n => have := of_decide_eq_true h; have := hfit.id; simp [FileKey.holds] at hkey; omega
    | userId n => have := of_decide_eq_true h; have := hfit.userId; simp [FileKey.holds] at hkey; omega
    | name s => cases h

/-- PostgreSQL's `db_get_file` reads the text of a cell that is not there. -/
theorem missing_name_faults :
    dbGetFilePostgresql .unset (FileSearch.ofTable [] (by simp) (by simp)).result ⟨0, 0, ascii "a"⟩ =
      .error (.fault .nullDeref) ∧
    ¬ LookupAgrees (.ofTable [] (by simp) (by simp)) .unset .unset ⟨0, 0, ascii "a"⟩ := by
  have hfault : dbGetFilePostgresql .unset (FileSearch.ofTable [] (by simp) (by simp)).result ⟨0, 0, ascii "a"⟩ =
      .error (.fault .nullDeref) := by rfl
  refine ⟨hfault, fun h => ?_⟩
  obtain ⟨a, b, -, hb, -⟩ := h
  rw [hfault] at hb
  cases hb

end BbsServer
