import BbsServer.SaveSound

/-!
# Rows of the two databases

The rows that a query gives, as `db_sqlite.c` reads them column by column in the callback of `vdb_query`
and `db_postgresql.c` in the result of `PQexecParams`.
-/

namespace BbsServer

open CStr

inductive Backend
  | sqlite
  | postgresql
  deriving DecidableEq, Repr

inductive Cell
  | null
  | integer (n : Int)
  | text (s : Bytes)
  deriving DecidableEq, Repr

/-! ## `db_sqlite.c` -/

def columnInt (row : List Cell) (iCol : Nat) : Int :=
  match row[iCol]? with
  | some (.integer n) => toInt n
  | some (.text s) => atoi s
  | _ => 0

def columnInt64 (row : List Cell) (iCol : Nat) : Int :=
  match row[iCol]? with
  | some (.integer n) => n
  | some (.text s) => ((scanLong s).map (·.1)).getD 0
  | _ => 0

def columnText (row : List Cell) (iCol : Nat) : Option Bytes :=
  match row[iCol]? with
  | some (.integer n) => some (decimalInt n)
  | some (.text s) => some s
  | _ => none

/-- The loop of `vdb_query`, for a callback that can fail. -/
def stepRowsM {ρ σ : Type} (callback : ρ → σ → M (DbCbResp × σ)) : List ρ → DbCbResp → σ → M (DbCbResp × σ)
  | [], res, resp => .ok (res, resp)
  | row :: rows, _, resp => do
    let (res, resp) ← callback row resp
    if res = .dbErr then .ok (res, resp) else stepRowsM callback rows res resp

def vdbQueryM {ρ σ : Type} (prepared : Bool) (rows : List ρ) (callback : ρ → σ → M (DbCbResp × σ)) (resp : σ) :
    M (DbCbResp × σ) :=
  if prepared then stepRowsM callback rows .dbNoResult resp else .ok (.dbErr, resp)

/-! ## `db_postgresql.c` -/

inductive PgResult
  | notTuples
  | tuples (rows : List (List Cell))
  deriving DecidableEq, Repr

def PgResult.rows : PgResult → List (List Cell)
  | .notTuples => []
  | .tuples rows => rows

def PgResult.ntuples (res : PgResult) : Nat := res.rows.length

def PgResult.tuplesOk : PgResult → Bool
  | .notTuples => false
  | .tuples _ => true

/-- `PQresultStatus(res) != PGRES_TUPLES_OK && !PQntuples(res)`. -/
def PgResult.refused (res : PgResult) : Bool := !res.tuplesOk && res.ntuples = 0

def Cell.value : Cell → Bytes
  | .null => []
  | .integer n => decimalInt n
  | .text s => s

/-- `PQgetvalue`, which is `NULL` where there is no such row or column. -/
def PgResult.getvalue (res : PgResult) (tup field : Nat) : Option Bytes :=
  res.rows[tup]?.bind fun row => row[field]?.map Cell.value

def atoll (s : Bytes) : Int := ((scanLong s).map (·.1)).getD 0

section
variable {ρ σ : Type} {f : ρ → σ → DbCbResp × σ} {rows : List (List Cell)} {row : List Cell} {x : Int}

theorem stepRowsM_ok {callback : ρ → σ → M (DbCbResp × σ)} :
    ∀ {l : List ρ}, (∀ a ∈ l, ∀ resp, callback a resp = .ok (f a resp)) →
    ∀ {res resp}, stepRowsM callback l res resp = .ok (stepRows f l res resp)
  | [], _, _, _ => rfl
  | a :: l, h, _, resp => by
    unfold stepRowsM stepRows
    rw [h a (List.mem_cons_self ..) resp, ok_bind]
    dsimp only
    split
    · rfl
    · exact stepRowsM_ok fun b hb => h b (List.mem_cons_of_mem _ hb)

theorem vdbQueryM_ok {callback : ρ → σ → M (DbCbResp × σ)} {l : List ρ}
    (h : ∀ a ∈ l, ∀ resp, callback a resp = .ok (f a resp))
    (prepared : Bool) (resp : σ) : vdbQueryM prepared l callback resp = .ok (vdbQuery prepared l f resp) := by
  unfold vdbQueryM vdbQuery
  split
  · exact stepRowsM_ok h
  · rfl

theorem vdbQueryM_one {callback : ρ → σ → M (DbCbResp × σ)} {a : ρ} {resp : σ} {y : DbCbResp × σ}
    (h : callback a resp = .ok y) : vdbQueryM true [a] callback resp = .ok y := by
  unfold vdbQueryM stepRowsM
  rw [if_pos rfl, h, ok_bind]
  dsimp only
  split
  · rfl
  · rfl

@[simp] theorem refused_notTuples : PgResult.notTuples.refused = true := rfl

@[simp] theorem refused_tuples : (PgResult.tuples rows).refused = false := rfl

@[simp] theorem ntuples_tuples : (PgResult.tuples rows).ntuples = rows.length := rfl

@[simp] theorem getvalue_nil {tup field : Nat} : (PgResult.tuples []).getvalue tup field = none := rfl

@[simp] theorem getvalue_cons {field : Nat} : (PgResult.tuples (row :: rows)).getvalue 0 field =
    row[field]?.map Cell.value := rfl

/-! ## The two readings of a number -/

theorem atoll_decimalInt (h : -2 ^ 63 ≤ x) (h' : x < 2 ^ 63) : atoll (decimalInt x) = x := by
  unfold atoll
  rw [(decimalInt_reads x).scan.1, clampLong_of_le h h']
  rfl

end

end BbsServer
