import BbsServer.TotalSound
import BbsServer.DigestSound

/-!
# The listing, with either database

`db_get_files_data` of `db_postgresql.c`. It binds the text of a search in both of its queries, and gives `NULL`
an empty text where `db_sqlite.c` reads through it; a negative `LIMIT` or `OFFSET` is an error there. The two
agree exactly if none of this matters (`lists_agree_iff`).
-/

namespace BbsServer

open CStr

/-! ## Parameters -/

inductive PgParam
  | bin (mem : Bytes)
  | text (s : Bytes)
  deriving DecidableEq

/-- `int64_t n_limit = htobe64(arg->limit)` in memory. -/
def int64Param (n : Int) : Bytes := leBytes 8 (htobe64 (sizeT n))

def int8recv (mem : Bytes) : Int := wrap 64 (beNat mem)

def PgParam.cell : PgParam → Cell
  | .bin mem => .integer (int8recv mem)
  | .text s => .text s

def pgParam (params : List PgParam) (k : Nat) : Cell := (params[k - 1]?.map PgParam.cell).getD .null

/-! ## The two queries -/

/-- `ORDER BY files.%s %s LIMIT $1 OFFSET $2`, for a search `WHERE name ILIKE '%' || $3 || '%'`. -/
def Tables.selectFilesPostgresql (t : Tables) (S : Sqlite) (arg : GetFilesDb) (params : List PgParam) : PgResult :=
  let limit := (pgParam params 1).toInteger
  let offset := (pgParam params 2).toInteger
  let named := if arg.searchStr = [] then fun _ => true else S.nameLike (likePattern (ascii "%") (pgParam params 3))
  if limit < 0 ∨ offset < 0 then .notTuples else .tuples ((limitOffset limit offset (t.listBy S arg named)).map listCells)

/-- `SELECT COUNT(id) FROM files`, for a search `WHERE name ILIKE '%%' || $1 || '%%'`. -/
def Tables.countFilesPostgresql (t : Tables) (S : Sqlite) (arg : GetFilesDb) (params : List PgParam) : PgResult :=
  let rows := if arg.searchStr = [] then t.files
    else t.files.filter fun r => S.nameLike (likePattern (ascii "%%") (pgParam params 1)) (r .name)
  .tuples [[.integer (rows.countP fun r => r .id ≠ .null)]]

def pgItem (res : PgResult) (i : Nat) : M FlItem := do
  let id ← deref (res.getvalue i 0)
  let ownerId ← deref (res.getvalue i 1)
  let name ← deref (res.getvalue i 2)
  let size ← deref (res.getvalue i 3)
  let description ← deref (res.getvalue i 4)
  let permissions ← deref (res.getvalue i 5)
  let hash ← deref (res.getvalue i 6)
  let owner ← deref (res.getvalue i 7)
  .ok { name, description, owner, permissions := toChar (atoi permissions), ownerId := atoi ownerId,
        hash := .ofInt 32 (atoi hash), size := sizeT (atoll size), id := atoi id }

def pgItems (res : PgResult) : List Nat → List FlItem → M (List FlItem)
  | [], list => .ok list
  | i :: is, list => do
    let item ← pgItem res i
    pgItems res is (list ++ [item])

def GetFilesDb.pgParams (arg : GetFilesDb) : List PgParam :=
  [.bin (int64Param arg.limit), .bin (int64Param arg.offset)] ++ if arg.searchStr = [] then [] else [.text arg.searchStr]

def GetFilesDb.pgCountParams (arg : GetFilesDb) : List PgParam :=
  if arg.searchStr = [] then [] else [.text arg.searchStr]

/-- `db_get_files_data` of `db_postgresql.c`; `answered` tells which of the queries the database answers. -/
def dbGetFilesDataPostgresql (S : Sqlite) (answered : Bool × Bool) (unset : Int) (t : Tables) (arg : GetFilesDb) :
    M (Int × List FlItem × Int) := do
  let res := if answered.1 then t.selectFilesPostgresql S arg arg.pgParams else .notTuples
  if res.refused then .ok (0, [], unset)
  else
    let list ← pgItems res (List.range res.ntuples) []
    let count := res.ntuples
    let res := if answered.2 then t.countFilesPostgresql S arg arg.pgCountParams else .notTuples
    if res.refused then .ok (0, list, unset)
    else
      let fullCount ← deref (res.getvalue 0 0)
      .ok (toInt count, list, toInt (atoll fullCount))

def Tables.Int64 (t : Tables) : Prop := ∀ r ∈ t.files, ∀ c n, r c = .integer n → -2 ^ 63 ≤ n ∧ n < 2 ^ 63

def Tables.page (t : Tables) (S : Sqlite) (arg : GetFilesDb) : List (FilesRow × UsersRow) :=
  limitOffset arg.limit arg.offset (t.listed S arg)

def Tables.countedPostgresql (t : Tables) (S : Sqlite) (arg : GetFilesDb) : List FilesRow :=
  if arg.searchStr = [] then t.files
  else t.files.filter fun r => S.nameLike (likePattern (ascii "%%") (.text arg.searchStr)) (r .name)

section
variable {S : Sqlite} {addr : Nat} {unset n : Int} {t : Tables} {arg : GetFilesDb} {x : FilesRow × UsersRow}
  {l : List (FilesRow × UsersRow)} {c : Cell} {b : Bytes}

/-! ## Parameters in binary -/

theorem htobe64_htobe64 {n : Nat} (h : n < 2 ^ 64) : htobe64 (htobe64 n) = n := by
  have hlen : (leBytes 8 n).reverse.length = 8 := by simp
  have hswap : htobe64 n = leNat (leBytes 8 n).reverse := by rw [← beNat_reverse, List.reverse_reverse]; rfl
  rw [hswap, htobe64_leNat hlen, beNat_reverse, leNat_leBytes (by omega)]

theorem int8recv_int64Param (h : fitsInt n) : int8recv (int64Param n) = n := by
  have hlt : sizeT n < 2 ^ 64 := by unfold sizeT; omega
  have hswap : beNat (leBytes 8 (htobe64 (sizeT n))) = sizeT n := htobe64_htobe64 hlt
  unfold int8recv int64Param wrap
  rw [hswap, Int.bmod_def]
  unfold sizeT
  unfold fitsInt at h
  omega

/-! ## Columns -/

theorem atoi_cell (h : ∀ n, c = .integer n → -2 ^ 63 ≤ n ∧ n < 2 ^ 63) {row : List Cell} {i : Nat}
    (hc : row[i]? = some c) :
    atoi c.value = columnInt row i := by
  unfold columnInt
  rw [hc]
  cases c with
  | null => rfl
  | integer n => exact atoi_value (h n rfl).1 (h n rfl).2
  | text s => rfl

theorem atoll_cell (h : ∀ n, c = .integer n → -2 ^ 63 ≤ n ∧ n < 2 ^ 63) {row : List Cell} {i : Nat}
    (hc : row[i]? = some c) :
    atoll c.value = columnInt64 row i := by
  unfold columnInt64
  rw [hc]
  cases c with
  | null => rfl
  | integer n => exact atoll_decimalInt (h n rfl).1 (h n rfl).2
  | text s => rfl

/-- The item of `db_get_files_data_db`; `NULL` does not matter here. -/
theorem pgItem_listItem (ht : t.Int64) (hx : x ∈ t.join) {rows : List (List Cell)} {i : Nat}
    (hi : rows[i]? = some (listCells x)) : pgItem (.tuples rows) i = .ok (listItem x) := by
  obtain ⟨hr, -, -⟩ := mem_join.mp hx
  have hget : ∀ {k : Nat} {c : Cell}, (listCells x)[k]? = some c →
    (PgResult.tuples rows).getvalue i k = some c.value := by
    intro k c hc
    simp [PgResult.getvalue, PgResult.rows, hi, hc]
  have hid : (PgResult.tuples rows).getvalue i 0 = some (x.1 .id).value := hget rfl
  have howner : (PgResult.tuples rows).getvalue i 1 = some (x.1 .userId).value := hget rfl
  have hname : (PgResult.tuples rows).getvalue i 2 = some (x.1 .name).value := hget rfl
  have hsize : (PgResult.tuples rows).getvalue i 3 = some (x.1 .size).value := hget rfl
  have hdescription : (PgResult.tuples rows).getvalue i 4 = some (x.1 .description).value := hget rfl
  have hpermissions : (PgResult.tuples rows).getvalue i 5 = some (x.1 .permissions).value := hget rfl
  have hhash : (PgResult.tuples rows).getvalue i 6 = some (x.1 .hash).value := hget rfl
  have huser : (PgResult.tuples rows).getvalue i 7 = some (x.2 .username).value := hget rfl
  have hint : ∀ {k : Nat} {c : FilesColumn}, (listCells x)[k]? = some (x.1 c) →
    atoi (x.1 c).value = columnInt (listCells x) k :=
    fun hc => atoi_cell (ht _ hr _) hc
  have hint64 : atoll (x.1 .size).value = columnInt64 (listCells x) 3 := atoll_cell (ht _ hr _) rfl
  unfold pgItem listItem
  simp only [deref_ok.mpr hid, deref_ok.mpr howner, deref_ok.mpr hname, deref_ok.mpr hsize, deref_ok.mpr hdescription,
    deref_ok.mpr hpermissions, deref_ok.mpr hhash, deref_ok.mpr huser, ok_bind]
  rw [← hint64, hint (k := 0) rfl, hint (k := 1) rfl, hint (k := 5) rfl, hint (k := 6) rfl]

theorem pgItems_listItems (ht : t.Int64) (done : List (FilesRow × UsersRow)) {list : List FlItem}
    (hl : ∀ x ∈ l, x ∈ t.join) :
    pgItems (.tuples ((done ++ l).map listCells)) (List.range' done.length l.length) list =
    .ok (list ++ l.map listItem) := by
  induction l generalizing done list with
  | nil => simp [pgItems]
  | cons x l ih =>
    obtain ⟨hx, hl⟩ := List.forall_mem_cons.mp hl
    have hrow : ((done ++ x :: l).map listCells)[done.length]? = some (listCells x) := by simp
    have hnext : (done ++ [x]).length = done.length + 1 := by simp
    rw [List.length_cons, List.range'_succ, pgItems, pgItem_listItem ht hx hrow, ok_bind, List.append_cons,
      ← hnext, ih _ hl]
    simp

/-! ## The queries -/

theorem selectFilesPostgresql_page (hlimit : fitsInt arg.limit) (hoffset : fitsInt arg.offset) :
    t.selectFilesPostgresql S arg arg.pgParams =
      if arg.limit < 0 ∨ arg.offset < 0 then .notTuples else .tuples ((t.page S arg).map listCells) := by
  have hfirst : pgParam arg.pgParams 1 = .integer arg.limit := by
    simp [pgParam, GetFilesDb.pgParams, PgParam.cell, int8recv_int64Param hlimit]
  have hsecond : pgParam arg.pgParams 2 = .integer arg.offset := by
    simp [pgParam, GetFilesDb.pgParams, PgParam.cell, int8recv_int64Param hoffset]
  have hnamed : (if arg.searchStr = [] then fun _ => true
      else S.nameLike (likePattern (ascii "%") (pgParam arg.pgParams 3))) = arg.named S := by
    funext name
    unfold GetFilesDb.named
    by_cases h : arg.searchStr = []
    · simp [h]
    · have hthird : pgParam arg.pgParams 3 = .text arg.searchStr := by
        simp [pgParam, GetFilesDb.pgParams, h, PgParam.cell]
      rw [if_neg h, hthird, decide_eq_false h, Bool.false_or]
  unfold Tables.selectFilesPostgresql
  dsimp only
  rw [hfirst, hsecond, hnamed]
  rfl

theorem countFilesPostgresql_counted (t : Tables) (S : Sqlite) (arg : GetFilesDb) :
    t.countFilesPostgresql S arg arg.pgCountParams = .tuples [[.integer (t.countedPostgresql S arg).length]] := by
  have hall : ∀ rows : List FilesRow, rows ⊆ t.files → rows.countP (fun r => r .id ≠ .null) = rows.length :=
    fun rows hrows => List.countP_eq_length.mpr fun r hr => by
      obtain ⟨n, hn⟩ := (t.validFiles r (hrows hr)).id
      simp [hn]
  unfold Tables.countFilesPostgresql Tables.countedPostgresql
  dsimp only
  by_cases h : arg.searchStr = []
  · rw [if_pos h, if_pos h, hall t.files (List.Subset.refl _)]
  · have hfirst : pgParam arg.pgCountParams 1 = .text arg.searchStr := by
      simp [pgParam, GetFilesDb.pgCountParams, h, PgParam.cell]
    rw [if_neg h, if_neg h, hfirst, hall _ fun _ hr => List.mem_of_mem_filter hr]

theorem counted_le (t : Tables) (S : Sqlite) (arg : GetFilesDb) :
    (t.countedPostgresql S arg).length ≤ t.files.length := by
  unfold Tables.countedPostgresql
  split
  · exact le_rfl
  · exact List.length_filter_le ..

theorem dbGetFilesDataPostgresql_eq (ht : t.Int64) (hfiles : t.files.length < 2 ^ 63) (hlimit : fitsInt arg.limit)
    (hoffset : fitsInt arg.offset) (unset : Int) : dbGetFilesDataPostgresql S (true, true) unset t arg =
      .ok (if arg.limit < 0 ∨ arg.offset < 0 then (0, [], unset)
        else (toInt (t.page S arg).length, (t.page S arg).map listItem, toInt (t.countedPostgresql S arg).length)) := by
  have hpage : ∀ x ∈ t.page S arg, x ∈ t.join := fun x hx => mem_listed ((limitOffset_sublist ..).subset hx)
  have hcount : (t.countedPostgresql S arg).length < 2 ^ 63 := lt_of_le_of_lt (counted_le ..) hfiles
  unfold dbGetFilesDataPostgresql
  simp only [if_true, selectFilesPostgresql_page hlimit hoffset, countFilesPostgresql_counted]
  by_cases h : arg.limit < 0 ∨ arg.offset < 0
  · simp [h]
  · rw [if_neg h, if_neg h]
    simp only [refused_tuples, ntuples_tuples, getvalue_cons, List.length_map, Bool.false_eq_true, if_false]
    have hitems : pgItems (.tuples ((t.page S arg).map listCells)) (List.range (t.page S arg).length) [] =
        .ok ((t.page S arg).map listItem) := by
      rw [List.range_eq_range']
      exact pgItems_listItems ht [] hpage
    have hvalue : atoll (Cell.integer (t.countedPostgresql S arg).length).value =
      (t.countedPostgresql S arg).length := by
      show atoll (decimalInt ((t.countedPostgresql S arg).length : Int)) = _
      exact atoll_decimalInt (by omega) (by omega)
    rw [hitems, ok_bind]
    dsimp only [List.getElem?_cons_zero, Option.map_some]
    rw [deref_ok.mpr rfl, ok_bind, hvalue]

/-! ## The two databases -/

theorem stepRowsCount_bound {res : DbCbResp} {acc : List FlItem} {count : Int} {r : DbCbResp × List FlItem × Int}
    (hl : ∀ x ∈ l, x ∈ t.join) (hcount : count < 2 ^ 31)
    (h : stepRowsCount dbGetFilesDataStmt (l.map listCells) res acc count = .ok r) :
    count + l.length < 2 ^ 31 := by
  induction l generalizing res acc count with
  | nil => simpa using hcount
  | cons x l ih =>
    obtain ⟨hx, hl⟩ := List.forall_mem_cons.mp hl
    rw [List.map_cons, stepRowsCount] at h
    obtain ⟨y, hy, h⟩ := bind_ok.mp h
    have hd : x.1 .description ≠ .null := fun hd => dbGetFilesDataStmt_null hd hy
    obtain rfl := Except.ok.inj ((dbGetFilesDataStmt_item hx hd).symm.trans hy)
    dsimp only at h
    rw [if_neg (by decide)] at h
    obtain ⟨n, hn, h⟩ := bind_ok.mp h
    obtain ⟨hfits, rfl⟩ := int32_ok.mp hn
    have := ih hl hfits.2 h
    rw [List.length_cons, Nat.cast_succ]
    omega

theorem dbGetFilesDataSql_ok {r : Int × List FlItem × Int} : dbGetFilesDataSql S addr unset t arg = .ok r ↔
    t.Described S arg ∧ (t.page S arg).length < 2 ^ 31 ∧
      r = (((t.page S arg).length : Int), (t.page S arg).map listItem, toInt (t.counted S addr arg).length) := by
  have hpage : ∀ x ∈ t.page S arg, x ∈ t.join := fun x hx => mem_listed ((limitOffset_sublist ..).subset hx)
  rw [dbGetFilesDataSql_eq]
  change (stepRowsCount dbGetFilesDataStmt ((t.page S arg).map listCells) .dbNoResult [] 0 >>= _) = _ ↔ _
  have hall : t.Described S arg → (t.page S arg).length < 2 ^ 31 →
      stepRowsCount dbGetFilesDataStmt ((t.page S arg).map listCells) .dbNoResult [] 0 =
        .ok (if t.page S arg = [] then .dbNoResult else .dbSuccess, (t.page S arg).map listItem, (t.page S arg).length) := by
    intro hd hlt
    rw [stepRowsCount_items (fun x hx => ⟨hpage x hx, hd x hx⟩) le_rfl (by omega), List.nil_append, Int.zero_add]
  constructor
  · intro h
    obtain ⟨y, hy, h⟩ := bind_ok.mp h
    have hd : t.Described S arg := (stepRowsCount_described hpage hy).1
    have hlt := stepRowsCount_bound hpage (by decide) hy
    rw [Int.zero_add] at hlt
    obtain rfl := Except.ok.inj ((hall hd (by omega)).symm.trans hy)
    dsimp only at h
    rw [if_pos (by split <;> simp)] at h
    exact ⟨hd, by omega, (Except.ok.inj h).symm⟩
  · rintro ⟨hd, hlt, rfl⟩
    rw [hall hd hlt, ok_bind]
    exact if_pos (by split <;> simp)

theorem toInt_eq_toInt {n m : Nat} : toInt n = toInt m ↔ n ≡ m [MOD 2 ^ 32] := by
  unfold toInt wrap Nat.ModEq
  rw [Int.bmod_def, Int.bmod_def]
  omega

end

/-- **The listing of the two databases.** Where they compare and order alike, they give the same count, the same
list and the same total exactly if every row of the page has a description, and the page has a length that is an
`int`; and, as long as neither `LIMIT` nor `OFFSET` is negative, for a search the address of the text is in as
many names as the text is, in 32 bits; and otherwise, the page is empty, and the total is what was there before. -/
theorem lists_agree_iff {S : Sqlite} {addr : Nat} {unset : Int} {t : Tables} {arg : GetFilesDb} (ht : t.Int64)
    (hfiles : t.files.length < 2 ^ 63) (hlimit : fitsInt arg.limit) (hoffset : fitsInt arg.offset) :
    (∃ r, dbGetFilesDataSql S addr unset t arg = .ok r ∧
    dbGetFilesDataPostgresql S (true, true) unset t arg = .ok r) ↔
      t.Described S arg ∧ (t.page S arg).length < 2 ^ 31 ∧
        if arg.limit < 0 ∨ arg.offset < 0 then t.page S arg = [] ∧ toInt (t.counted S addr arg).length = unset
        else arg.searchStr = [] ∨ (t.addressed S addr).length ≡ (t.countedPostgresql S arg).length [MOD 2 ^ 32] := by
  have hcounted : toInt (t.counted S addr arg).length = toInt (t.countedPostgresql S arg).length ↔
      arg.searchStr = [] ∨ (t.addressed S addr).length ≡ (t.countedPostgresql S arg).length [MOD 2 ^ 32] := by
    by_cases h : arg.searchStr = []
    · simp [Tables.counted, Tables.countedPostgresql, h]
    · rw [or_iff_right h, ← toInt_eq_toInt, Tables.counted, if_neg h]
  rw [dbGetFilesDataPostgresql_eq ht hfiles hlimit hoffset]
  simp only [dbGetFilesDataSql_ok, Except.ok.injEq]
  by_cases hneg : arg.limit < 0 ∨ arg.offset < 0
  · simp only [hneg, if_true]
    constructor
    · rintro ⟨r, ⟨hd, hlt, rfl⟩, hr⟩
      simp only [Prod.mk.injEq] at hr
      exact ⟨hd, hlt, by simpa using hr.2.1.symm, hr.2.2.symm⟩
    · rintro ⟨hd, hlt, hnil, htotal⟩
      exact ⟨_, ⟨hd, hlt, rfl⟩, by simp [hnil, htotal]⟩
  · simp only [hneg, if_false, ← hcounted]
    constructor
    · rintro ⟨r, ⟨hd, hlt, rfl⟩, hr⟩
      simp only [Prod.mk.injEq] at hr
      exact ⟨hd, hlt, hr.2.2.symm⟩
    · rintro ⟨hd, hlt, htotal⟩
      have hcount : toInt (t.page S arg).length = (t.page S arg).length := toInt_of_lt (by omega) (by omega)
      exact ⟨_, ⟨hd, hlt, rfl⟩, by rw [hcount, htotal]⟩

/-! ### A search -/

def infixSqlite : Sqlite :=
  ⟨fun pattern name => decide (pattern.filter (· ≠ 37) <:+: name), fun _ _ l => l, fun _ _ l => .refl l⟩

/-- Two of the three names have `a` in them, and as many have `1`. -/
def threeFiles : Tables where
  users := oneFile.users
  files := [(⟨1, 1, ascii "a1", 1, [], 1, 0⟩ : FileRow).columns [],
    (⟨2, 1, ascii "c", 1, [], 1, 1⟩ : FileRow).columns [],
    (⟨3, 1, ascii "ba1", 1, [], 0, 2⟩ : FileRow).columns []]
  userIds := oneFile.userIds
  fileIds := by decide
  validUsers := oneFile.validUsers
  validFiles := by decide

def searchA : GetFilesDb := ⟨ascii "a", by decide, 15, 0, .id, .asc⟩

theorem threeFiles_int64 : threeFiles.Int64 := by
  intro r hr c n hc
  simp only [threeFiles, List.mem_cons, List.not_mem_nil, or_false] at hr
  obtain rfl | rfl | rfl := hr <;> cases c <;> cases hc <;> decide

theorem searchA_fits : fitsInt searchA.limit ∧ fitsInt searchA.offset :=
  ⟨⟨by decide, by decide⟩, by decide, by decide⟩

theorem threeFiles_described : threeFiles.Described infixSqlite searchA := by
  intro x hx
  obtain ⟨hr, -, -⟩ := mem_join.mp (mem_listed ((limitOffset_sublist ..).subset hx))
  simp only [threeFiles, List.mem_cons, List.not_mem_nil, or_false] at hr
  obtain hr | hr | hr := hr <;> rw [hr] <;> exact Cell.noConfusion

/-- The address of the text is 1. -/
theorem lists_agree_search : ∃ r, dbGetFilesDataSql infixSqlite 1 0 threeFiles searchA = .ok r ∧
    dbGetFilesDataPostgresql infixSqlite (true, true) 0 threeFiles searchA = .ok r :=
  (lists_agree_iff threeFiles_int64 (by decide) searchA_fits.1 searchA_fits.2).mpr
    ⟨threeFiles_described, by decide, .inr (by decide)⟩

/-! ## The total of PostgreSQL -/

def TotalReportedPostgresql (S : Sqlite) (unset : Int) (t : Tables) (arg : GetFilesDb) : Prop :=
  ∃ count list fullCount, dbGetFilesDataPostgresql S (true, true) unset t arg = .ok (count, list, fullCount) ∧
    fullCount = (t.listed S arg).length ∧ count = list.length

def Tables.orphansNamed (t : Tables) (S : Sqlite) (arg : GetFilesDb) : List FilesRow :=
  t.orphans.filter fun r => arg.named S (r .name)

section
variable {S : Sqlite} {t : Tables} {arg : GetFilesDb}

theorem length_countedPostgresql
    (hpercent : ∀ s name, S.like (ascii "%%" ++ s ++ ascii "%%") name = S.like (ascii "%" ++ s ++ ascii "%") name) :
    (t.countedPostgresql S arg).length = (t.orphansNamed S arg).length + (t.matching S arg).length := by
  have hcounted : t.countedPostgresql S arg = t.files.filter fun r => arg.named S (r .name) := by
    unfold Tables.countedPostgresql GetFilesDb.named
    by_cases h : arg.searchStr = []
    · simp [h]
    · rw [if_neg h]
      refine List.filter_congr fun r _ => ?_
      rw [decide_eq_false h, Bool.false_or]
      exact congrArg (_ && ·) (hpercent ..)
  rw [hcounted, Tables.orphansNamed, Tables.orphans, Tables.matching, List.length_eq_length_filter_add t.owned,
    List.filter_filter, List.filter_filter, List.filter_filter, Nat.add_comm]
  simp only [Bool.and_comm]

end

/-- **The total of PostgreSQL** is the number of rows of the listing exactly if, in 32 bits, no file with such a
name is nobody's; with a negative `LIMIT` or `OFFSET` it is what was there before. -/
theorem total_postgresql_iff {S : Sqlite} {unset : Int} {t : Tables} {arg : GetFilesDb} (ht : t.Int64)
    (hfiles : t.files.length < 2 ^ 63) (hlimit : fitsInt arg.limit) (hoffset : fitsInt arg.offset)
    (hpercent : ∀ s name, S.like (ascii "%%" ++ s ++ ascii "%%") name = S.like (ascii "%" ++ s ++ ascii "%") name) :
    TotalReportedPostgresql S unset t arg ↔ if arg.limit < 0 ∨ arg.offset < 0 then unset = (t.matching S arg).length
      else (t.matching S arg).length < 2 ^ 31 ∧ 2 ^ 32 ∣ (t.orphansNamed S arg).length := by
  unfold TotalReportedPostgresql
  rw [dbGetFilesDataPostgresql_eq ht hfiles hlimit hoffset, length_listed]
  by_cases hneg : arg.limit < 0 ∨ arg.offset < 0
  · simp only [hneg, if_true, Except.ok.injEq, Prod.mk.injEq]
    constructor
    · rintro ⟨count, list, fullCount, ⟨rfl, rfl, rfl⟩, hfull, -⟩
      exact hfull
    · intro hfull
      exact ⟨_, _, _, ⟨rfl, rfl, rfl⟩, hfull, rfl⟩
  · have htotal : toInt (t.countedPostgresql S arg).length = (t.matching S arg).length ↔
        (t.matching S arg).length < 2 ^ 31 ∧ 2 ^ 32 ∣ (t.orphansNamed S arg).length := by
      rw [toInt_count, length_countedPostgresql hpercent]
      exact and_congr_right' Nat.add_modEq_right_iff
    simp only [hneg, if_false, Except.ok.injEq, Prod.mk.injEq, ← htotal]
    constructor
    · rintro ⟨count, list, fullCount, ⟨-, -, rfl⟩, hfull, -⟩
      exact hfull
    · intro hfull
      have hlt := (limitOffset_sublist arg.limit arg.offset (t.listed S arg)).length_le
      rw [length_listed] at hlt
      have hpage : (t.page S arg).length ≤ (t.matching S arg).length := hlt
      have hbound := (htotal.mp hfull).1
      refine ⟨_, _, _, ⟨rfl, rfl, rfl⟩, hfull, ?_⟩
      rw [List.length_map]
      exact toInt_of_lt (by omega) (by omega)

theorem total_postgresql_search : TotalReportedPostgresql infixSqlite 0 threeFiles searchA :=
  (total_postgresql_iff threeFiles_int64 (by decide) searchA_fits.1 searchA_fits.2 fun _ _ => by
    simp [infixSqlite, ascii]).mpr
    ⟨by decide, by decide⟩

end BbsServer
