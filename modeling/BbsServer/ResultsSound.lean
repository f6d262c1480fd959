import BbsServer.PgResults

/-!
# The results are cleared

Whatever `db.h` is asked for, in any order, no result of PostgreSQL is cleared twice or read after it has been
cleared, and all are cleared but one for each registration that passes the query for the name (`results_cleared`).
-/

namespace BbsServer

open CStr Stateful

structure Pg.Settled (n : Nat) (db : Pg) : Prop where
  connected : db.connected
  res : ∀ p, db.res = some p → db.heap.get p = none
  count : db.heap.count = n

/-- `res` is the result `r`, or `NULL` for one without rows, and there are `n` others. -/
structure Pg.Holds (r : PgResult) (n : Nat) (db : Pg) : Prop where
  connected : db.connected
  res : (∃ p, db.res = some p ∧ db.heap.get p = some r ∧ db.heap.count = n + 1) ∨
    (db.res = none ∧ r.refused ∧ db.heap.count = n)

section
variable {A : Heap.Allocator PgResult} {null : Nat → Bool} {r r' : PgResult} {n : Nat} {α : Type} {a : α}

/-! ## libpq -/

theorem implements_exec {Pre : Pg → Prop} (hconn : ∀ db, Pre db → db.connected)
    (hcount : ∀ db, Pre db → db.heap.count = n) :
    Implements PgFault.halt Pre (pqExec A null r) (.ok ()) (Pg.Holds r n) := by
  refine implements_ok.mpr fun db hdb => ?_
  unfold pqExec
  rw [if_pos (hconn db hdb)]
  dsimp only
  split
  · rename_i hnull
    exact ⟨_, rfl, hconn db hdb, .inr ⟨rfl, ((Bool.and_eq_true ..).mp hnull).1, hcount db hdb⟩⟩
  · refine ⟨_, rfl, hconn db hdb, .inl ⟨_, rfl, Heap.get_set_self .., ?_⟩⟩
    exact (Heap.count_set (A.fresh _) _).trans (by rw [hcount db hdb])

theorem implements_exec_settled : Implements PgFault.halt (Pg.Settled n) (pqExec A null r) (.ok ()) (Pg.Holds r n) :=
  implements_exec (fun _ h => h.connected) fun _ h => h.count

theorem implements_exec_holds (hr : ¬ r'.refused) :
    Implements PgFault.halt (Pg.Holds r' n) (pqExec A null r) (.ok ()) (Pg.Holds r (n + 1)) := by
  refine implements_exec (fun _ h => h.connected) fun db h => ?_
  rcases h.res with ⟨p, -, -, hcount⟩ | ⟨-, hnull, -⟩
  · exact hcount
  · exact absurd hnull hr

theorem refused_eq (h : r.refused) : r = .notTuples := by
  cases r with
  | notTuples => rfl
  | tuples rows => cases h

theorem implements_result : Implements PgFault.halt (Pg.Holds r n) pqResult (.ok r) (Pg.Holds r n) := by
  refine implements_ok.mpr fun db hdb => ⟨db, ?_, hdb⟩
  unfold pqResult
  rcases hdb.res with ⟨p, hp, hget, -⟩ | ⟨hp, hnull, -⟩
  · simp only [hp, hget]
  · simp only [hp, refused_eq hnull]

theorem implements_refused : Implements PgFault.halt (Pg.Holds r n) pqRefused (.ok r.refused) (Pg.Holds r n) :=
  implements_result.step (.pure fun _ h => h)

theorem implements_ntuples : Implements PgFault.halt (Pg.Holds r n) pqNtuples (.ok r.ntuples) (Pg.Holds r n) :=
  implements_result.step (.pure fun _ h => h)

theorem implements_getvalue {tup field : Nat} :
    Implements PgFault.halt (Pg.Holds r n) (pqGetvalue tup field) (deref (r.getvalue tup field)) (Pg.Holds r n) :=
  implements_result.step .lift

theorem implements_clear : Implements PgFault.halt (Pg.Holds r n) pqClear (.ok ()) (Pg.Settled n) := by
  refine implements_ok.mpr fun db hdb => ?_
  unfold pqClear
  rcases hdb.res with ⟨p, hp, hget, hcount⟩ | ⟨hp, -, hcount⟩
  · obtain ⟨heap, hfree, hfreed⟩ := Heap.free_some (h := db.heap) (p := p) (by simp [hget])
    simp only [hp, hfree]
    refine ⟨_, rfl, hdb.connected, fun q hq => ?_, ?_⟩
    · obtain rfl : p = q := Option.some.inj hq
      rw [hfreed p, if_pos (List.mem_singleton_self p)]
    · have := Heap.count_free hfree
      show heap.count = n
      omega
  · simp only [hp]
    exact ⟨db, rfl, hdb.connected, fun q hq => (by rw [hp] at hq; cases hq), hcount⟩

theorem implements_clearRes : Implements PgFault.halt (Pg.Holds r n) clearRes (.ok ()) (Pg.Settled n) := by
  refine implements_clear.step (implements_ok.mpr fun db hdb => ⟨{ db with res := none }, rfl, hdb.connected, ?_,
    hdb.count⟩)
  exact fun _ h => by cases h

theorem implements_exitQuery : Implements PgFault.halt (Pg.Holds r n) (exitQuery a) (.ok a) (Pg.Settled n) := by
  have hclear : Implements PgFault.halt (Pg.Holds r n) (do pqClear; return a) (.ok a) (Pg.Settled n) :=
    implements_clear.step (.pure fun _ h => h)
  refine implements_ok.mpr fun db hdb => ?_
  show ∃ db', (if db.res ≠ none then (do pqClear; return a : PgM α) else return a) db = .ok (a, db') ∧ _
  by_cases hnull : db.res = none
  · rw [if_neg (not_not.mpr hnull)]
    rcases hdb.res with ⟨p, hp, -⟩ | ⟨-, -, hcount⟩
    · rw [hp] at hnull
      cases hnull
    · exact ⟨db, rfl, hdb.connected, fun q hq => (by rw [hnull] at hq; cases hq), hcount⟩
  · rw [if_pos hnull]
    exact implements_ok.mp hclear db hdb

/-! ## The functions of `db.h` -/

theorem implements_dbUserAuth (P : Platform) (answer updated : PgResult) (pass : Bytes) (o : OAuth) :
    Implements PgFault.halt (Pg.Settled n) (dbUserAuthPg A null P answer updated pass o)
      (dbUserAuthPostgresql P answer updated pass o)
      (Pg.Settled n) := by
  unfold dbUserAuthPg dbUserAuthPostgresql
  refine implements_exec_settled.step (implements_refused.step (.ite (fun _ => implements_exitQuery) fun _ => ?_))
  refine implements_ntuples.step (.ite (fun _ => implements_exitQuery) fun _ => ?_)
  refine implements_getvalue.bind fun value _ => .ite (fun _ => ?_) fun _ => implements_exitQuery
  refine implements_getvalue.bind fun privileges _ => implements_getvalue.bind fun id _ => ?_
  refine implements_clearRes.step (implements_exec_settled.step (implements_refused.step ?_))
  cases updated.refused with
  | false => exact implements_exitQuery
  | true => exact implements_exitQuery

def nameUnused (byName : Bool) (w : World) (args : DbUserCreate) : Bool :=
  byName && w.users.rows.all (·.username != args.uname)

theorem selectIds_refused {answered : Bool} {w : World} {key : UserRow → Bool} :
    (selectIds answered w key).refused = !answered := by
  cases answered <;> simp [selectIds]

theorem implements_dbUserCreate (P : Platform) (byName byEmail : Bool) (id : Option Int) (w : World) (s : Session)
    (args : DbUserCreate) :
    Implements PgFault.halt (Pg.Settled n) (dbUserCreatePg A null P byName byEmail id w s args)
      (dbUserCreatePostgresql P byName byEmail id w s args) (Pg.Settled (n + (nameUnused byName w args).toNat)) := by
  unfold dbUserCreatePg dbUserCreatePostgresql
  dsimp only
  refine implements_exec_settled.step (implements_refused.step (.ite (fun hr => ?_) fun hr => ?_))
  · have hunused : nameUnused byName w args = false := by
      rw [selectIds_refused, Bool.not_eq_true'] at hr
      rw [nameUnused, hr, Bool.false_and]
    rw [hunused]
    exact implements_exitQuery
  rw [selectIds_refused, Bool.not_eq_true', Bool.not_eq_false] at hr
  subst hr
  refine implements_ntuples.step (.ite (fun hname => ?_) fun hname => ?_)
  · have hunused : nameUnused true w args = false := by
      obtain ⟨row, hrow, hkey⟩ := ntuples_selectIds.mp hname
      rw [nameUnused, Bool.true_and, Bool.eq_false_iff]
      intro hall
      simpa [beq_iff_eq.mp hkey] using List.all_eq_true.mp hall row hrow
    rw [hunused]
    exact implements_exitQuery
  have hunused : nameUnused true w args = true := by
    rw [nameUnused, Bool.true_and, List.all_eq_true]
    intro row hrow
    rw [bne_iff_ne]
    intro he
    exact hname (ntuples_selectIds.mpr ⟨row, hrow, beq_iff_eq.mpr he⟩)
  rw [hunused]
  have hfound : ¬ (selectIds true w (·.username == args.uname)).refused := by simp [selectIds_refused]
  refine (implements_exec_holds hfound).step (implements_refused.step (.ite (fun _ => implements_exitQuery) fun _ => ?_))
  refine implements_ntuples.step (.ite (fun _ => implements_exitQuery) fun _ => ?_)
  refine implements_clearRes.step <| implements_exec_settled.step <| implements_refused.step <|
    .ite (fun _ => implements_exitQuery) fun _ => ?_
  exact implements_getvalue.bind fun value _ => implements_clearRes.step (.pure fun _ h => h)

theorem implements_dbSaveFile (res : PgInsert) (w : World) (s : Session) (sf : SFile) (uid : Int) :
    Implements PgFault.halt (Pg.Settled n) (dbSaveFilePg A null res w s sf uid)
      (dbSaveFilePostgresql res w s sf uid) (Pg.Settled n) := by
  unfold dbSaveFilePg dbSaveFilePostgresql
  refine Implements.lift.bind fun name _ => Implements.lift.bind fun w _ => implements_exec_settled.step
    (implements_refused.step ?_)
  have hrefused : res.result.refused = (!res.tuplesOk && res.ntuples = 0) := by cases res <;> rfl
  have hvalue : res.result.getvalue 0 0 = res.getvalue := by
    cases res with
    | failed => rfl
    | tuples ids => cases ids <;> rfl
  rw [← hrefused, ← hvalue]
  refine .ite (fun _ => implements_exitQuery) fun _ => ?_
  exact implements_getvalue.bind fun value _ => implements_clearRes.step (.pure fun _ h => h)

theorem implements_dbGetFile (sf : SFile) (query : FileKey → PgResult) (arg : GetFile) :
    Implements PgFault.halt (Pg.Settled n) (dbGetFilePg A null sf query arg)
      (dbGetFilePostgresql sf query arg) (Pg.Settled n) := by
  unfold dbGetFilePg dbGetFilePostgresql
  cases postgresqlKey arg with
  | none => exact .pure fun _ h => h
  | some key =>
  dsimp only
  refine .ite (fun _ => .lift) fun _ => implements_exec_settled.step (implements_refused.step ?_)
  refine .ite (fun _ => implements_exitQuery) fun _ => ?_
  refine implements_getvalue.bind fun id _ => implements_getvalue.bind fun ownerId _ =>
    implements_getvalue.bind fun name _ => ?_
  refine implements_getvalue.bind fun size _ => implements_getvalue.bind fun description _ => ?_
  refine implements_getvalue.bind fun permissions _ => implements_getvalue.bind fun hash _ => ?_
  exact implements_clearRes.step (.pure fun _ h => h)

theorem implements_pgItem (i : Nat) : Implements PgFault.halt (Pg.Holds r n) (pgItemPg i) (pgItem r i) (Pg.Holds r n) := by
  unfold pgItemPg pgItem
  refine implements_getvalue.bind fun id _ => implements_getvalue.bind fun ownerId _ =>
    implements_getvalue.bind fun name _ => ?_
  refine implements_getvalue.bind fun size _ => implements_getvalue.bind fun description _ => ?_
  refine implements_getvalue.bind fun permissions _ => implements_getvalue.bind fun hash _ =>
    implements_getvalue.bind fun owner _ => ?_
  exact .pure fun _ h => h

theorem implements_pgItems : ∀ (is : List Nat) (list : List FlItem),
    Implements PgFault.halt (Pg.Holds r n) (pgItemsPg is list) (pgItems r is list) (Pg.Holds r n)
  | [], _ => .pure fun _ h => h
  | i :: is, _ => (implements_pgItem i).bind fun _ _ => implements_pgItems is _

theorem implements_dbGetFilesData (S : Sqlite) (answered : Bool × Bool) (unset : Int) (t : Tables) (arg : GetFilesDb) :
    Implements PgFault.halt (Pg.Settled n) (dbGetFilesDataPg A null S answered unset t arg)
      (dbGetFilesDataPostgresql S answered unset t arg) (Pg.Settled n) := by
  unfold dbGetFilesDataPg dbGetFilesDataPostgresql
  dsimp only
  refine implements_exec_settled.step (implements_refused.step (.ite (fun _ => implements_exitQuery) fun _ => ?_))
  refine implements_ntuples.step ((implements_pgItems _ _).bind fun list _ => implements_ntuples.step ?_)
  refine implements_clearRes.step <| implements_exec_settled.step <| implements_refused.step <|
    .ite (fun _ => implements_exitQuery) fun _ => ?_
  exact implements_getvalue.bind fun fullCount _ => implements_clearRes.step (.pure fun _ h => h)

end

/-! ## Any sequence of calls -/

inductive DbCall
  | userAuth (P : Platform) (answer updated : PgResult) (pass : Bytes) (r : OAuth)
  | userCreate (P : Platform) (byName byEmail : Bool) (id : Option Int) (w : World) (s : Session) (args : DbUserCreate)
  | saveFile (res : PgInsert) (w : World) (s : Session) (sf : SFile) (uid : Int)
  | getFile (sf : SFile) (query : FileKey → PgResult) (arg : GetFile)
  | getFilesData (S : Sqlite) (answered : Bool × Bool) (unset : Int) (t : Tables) (arg : GetFilesDb)

inductive DbResult
  | userAuth (ret : Int) (r : OAuth)
  | userCreate (ret : Int) (w : World)
  | saveFile (ret : Int) (w : World)
  | getFile (sf : Option SFile)
  | getFilesData (count : Int) (list : List FlItem) (fullCount : Int)

def DbCall.run (A : Heap.Allocator PgResult) (null : Nat → Bool) : DbCall → PgM DbResult
  | .userAuth P answer updated pass r => do
    let (ret, r) ← dbUserAuthPg A null P answer updated pass r
    return .userAuth ret r
  | .userCreate P byName byEmail id w s args => do
    let (ret, w) ← dbUserCreatePg A null P byName byEmail id w s args
    return .userCreate ret w
  | .saveFile res w s sf uid => do
    let (ret, w) ← dbSaveFilePg A null res w s sf uid
    return .saveFile ret w
  | .getFile sf query arg => do
    let sf ← dbGetFilePg A null sf query arg
    return .getFile sf
  | .getFilesData S answered unset t arg => do
    let (count, list, fullCount) ← dbGetFilesDataPg A null S answered unset t arg
    return .getFilesData count list fullCount

def DbCall.plain : DbCall → M DbResult
  | .userAuth P answer updated pass r => do
    let (ret, r) ← dbUserAuthPostgresql P answer updated pass r
    return .userAuth ret r
  | .userCreate P byName byEmail id w s args => do
    let (ret, w) ← dbUserCreatePostgresql P byName byEmail id w s args
    return .userCreate ret w
  | .saveFile res w s sf uid => do
    let (ret, w) ← dbSaveFilePostgresql res w s sf uid
    return .saveFile ret w
  | .getFile sf query arg => do
    let sf ← dbGetFilePostgresql sf query arg
    return .getFile sf
  | .getFilesData S answered unset t arg => do
    let (count, list, fullCount) ← dbGetFilesDataPostgresql S answered unset t arg
    return .getFilesData count list fullCount

/-- The results that are never cleared. -/
def DbCall.leaks : DbCall → Nat
  | .userCreate _ byName _ _ w _ args => (nameUnused byName w args).toNat
  | _ => 0

section
variable {A : Heap.Allocator PgResult} {null : Nat → Bool}

theorem implements_call (c : DbCall) (n : Nat) :
    Implements PgFault.halt (Pg.Settled n) (c.run A null) c.plain (Pg.Settled (n + c.leaks)) := by
  cases c with
  | userAuth P answer updated pass r =>
    exact (implements_dbUserAuth P answer updated pass r).bind fun _ _ => .pure fun _ h => h
  | userCreate P byName byEmail id w s args =>
    exact (implements_dbUserCreate P byName byEmail id w s args).bind fun _ _ => .pure fun _ h => h
  | saveFile res w s sf uid => exact (implements_dbSaveFile res w s sf uid).bind fun _ _ => .pure fun _ h => h
  | getFile sf query arg => exact (implements_dbGetFile sf query arg).bind fun _ _ => .pure fun _ h => h
  | getFilesData S answered unset t arg =>
    exact (implements_dbGetFilesData S answered unset t arg).bind fun _ _ => .pure fun _ h => h

theorem init_settled : (Pg.init true).Settled 0 where
  connected := rfl
  res := fun _ h => by cases h
  count := by simp [Pg.init, Heap.count]

/-! ## A connection that has been finished -/

def DbCall.silent : DbCall → Prop
  | .getFile _ _ arg => postgresqlKey arg = none
  | _ => False

theorem exec_finished {db : Pg} (h : db.connected = false) {answer : PgResult} {α : Type} {g : Unit → PgM α}
    {y : α × Pg} :
    (pqExec A null answer >>= g) db ≠ .ok y := by
  intro hrun
  obtain ⟨_, _, hexec, -⟩ := run_bind_ok hrun
  rw [pqExec, if_neg (by simp [h])] at hexec
  cases hexec

theorem run_finished {c : DbCall} {db : Pg} (h : db.connected = false) {y : DbResult × Pg} :
    c.run A null db = .ok y ↔ c.silent ∧ y = (.getFile none, db) := by
  constructor
  · intro hrun
    cases c with
    | userAuth =>
      obtain ⟨_, _, hrun, -⟩ := run_bind_ok hrun
      exact absurd hrun (exec_finished h)
    | userCreate =>
      obtain ⟨_, _, hrun, -⟩ := run_bind_ok hrun
      exact absurd hrun (exec_finished h)
    | saveFile =>
      obtain ⟨_, _, hrun, -⟩ := run_bind_ok hrun
      obtain ⟨_, _, hname, hrun⟩ := run_bind_ok hrun
      obtain ⟨_, _, hinsert, hrun⟩ := run_bind_ok hrun
      have hdb := (run_lift_ok hname).2
      have hdb' := (run_lift_ok hinsert).2
      dsimp only at hdb hdb'
      rw [hdb', hdb] at hrun
      exact absurd hrun (exec_finished h)
    | getFilesData =>
      obtain ⟨_, _, hrun, -⟩ := run_bind_ok hrun
      exact absurd hrun (exec_finished h)
    | getFile sf query arg =>
      obtain ⟨_, _, hfile, hrun⟩ := run_bind_ok hrun
      unfold dbGetFilePg at hfile
      cases hk : postgresqlKey arg with
      | none =>
        rw [hk] at hfile
        cases hfile
        cases hrun
        exact ⟨hk, rfl⟩
      | some key =>
        rw [hk] at hfile
        dsimp only at hfile
        split at hfile
        · cases (run_lift_ok hfile).1
        · exact absurd hfile (exec_finished h)
  · rintro ⟨hsilent, rfl⟩
    cases c with
    | getFile sf query arg =>
      have hk : postgresqlKey arg = none := hsilent
      show (dbGetFilePg A null sf query arg >>= _) db = _
      unfold dbGetFilePg
      rw [hk]
      rfl
    | _ => cases hsilent

theorem calls_finished {db : Pg} (h : db.connected = false) (calls : List DbCall) :
    (∃ y, calls.mapM' (DbCall.run A null) db = .ok y) ↔ ∀ c ∈ calls, c.silent := by
  induction calls with
  | nil => exact iff_of_true ⟨([], db), rfl⟩ (by simp)
  | cons c calls ih =>
    rw [List.forall_mem_cons, ← ih]
    constructor
    · rintro ⟨y, hrun⟩
      obtain ⟨_, _, hc, hrun⟩ := run_bind_ok hrun
      obtain ⟨hsilent, he⟩ := (run_finished h).mp hc
      cases he
      obtain ⟨rs, db', hrun, -⟩ := run_bind_ok hrun
      exact ⟨hsilent, _, hrun⟩
    · rintro ⟨hsilent, ⟨rs, db'⟩, hrun⟩
      refine ⟨(.getFile none :: rs, db'), ?_⟩
      show (c.run A null db >>= _) = _
      rw [(run_finished h).mpr ⟨hsilent, rfl⟩]
      show (calls.mapM' (DbCall.run A null) db >>= _) = _
      rw [hrun]
      rfl

end

/-- **The results of PostgreSQL.** Over any sequence of calls, whatever the database says to each, and for
whichever of the queries that fail libpq has no result, the calls return what the plain functions return, as far
as these get: no result is cleared twice, and none is read after it has been cleared. In the end the results that
are still there are one for each registration whose query for the name has found nothing. After a connection that
could not be made, on which `main` goes on, only calls that ask nothing go through. -/
theorem results_cleared (A : Heap.Allocator PgResult) (null : Nat → Bool) (calls : List DbCall) :
    (∀ h, calls.mapM' DbCall.plain = .error h → calls.mapM' (DbCall.run A null) (.init true) = .error (.halt h)) ∧
    (∀ rs, calls.mapM' DbCall.plain = .ok rs → ∃ db, calls.mapM' (DbCall.run A null) (.init true) = .ok (rs, db) ∧
      db.heap.count = (calls.map DbCall.leaks).sum) ∧
    ((∃ y, calls.mapM' (DbCall.run A null) (.init false) = .ok y) ↔ ∀ c ∈ calls, c.silent) := by
  have hcalls : Implements PgFault.halt (Pg.Settled 0) (calls.mapM' (DbCall.run A null)) (calls.mapM' DbCall.plain)
      (Pg.Settled (0 + (calls.map DbCall.leaks).sum)) :=
    Implements.mapM' implements_call calls 0
  rw [Nat.zero_add] at hcalls
  have h := hcalls (.init true) init_settled
  refine ⟨h.1, fun rs hok => ?_, calls_finished rfl calls⟩
  obtain ⟨db, hrun, hdb⟩ := h.2 rs hok
  exact ⟨db, hrun, hdb.count⟩

end BbsServer
