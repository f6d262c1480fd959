import BbsServer.Lib.Scan
import BbsServer.RetrieveSound

/-!
# The answer to an upload, with either database

`db_save_file` of `db_sqlite.c` and of `db_postgresql.c` tell `perform_session_action` with one number
whether the row was inserted. The client is told the truth exactly if the row was inserted, or
PostgreSQL refused it and the storage file can be unlinked (`truthful_iff`).
-/

namespace BbsServer

open CStr Runs

/-! ## `db_sqlite.c` -/

inductive DbCbResp
  | dbNoResult
  | dbSuccess
  | dbErr
  | dbFail
  deriving DecidableEq, Repr

def stepRows {ρ σ : Type} (callback : ρ → σ → DbCbResp × σ) : List ρ → DbCbResp → σ → DbCbResp × σ
  | [], res, resp => (res, resp)
  | row :: rows, _, resp =>
    let (res, resp) := callback row resp
    if res = .dbErr then (res, resp) else stepRows callback rows res resp

def vdbQuery {ρ σ : Type} (prepared : Bool) (rows : List ρ) (callback : ρ → σ → DbCbResp × σ)
    (resp : σ) : DbCbResp × σ :=
  if prepared then stepRows callback rows .dbNoResult resp else (.dbErr, resp)

def dbSaveFileCb (row _ : Int) : DbCbResp × Int := (.dbSuccess, row)

/-- What `INSERT INTO files ... RETURNING id` does: the statement is prepared, a row is returned, and
the row is still there when the statement ends. -/
structure SqliteInsert where
  prepared : Bool
  row : Option Int
  committed : Bool
  deriving DecidableEq

def SqliteInsert.stored (ins : SqliteInsert) : Option Int := if ins.prepared && ins.committed then ins.row else none

def savedRow (sf : SFile) (uid id : Int) (name : Bytes) : FileRow :=
  { id, userId := uid, name, size := sf.size, description := sf.description.getD [], permissions := sf.permissions,
    hash := sf.hash }

def World.insertFile (w : World) (s : Session) (stored : Option Int) (row : Int → FileRow) : M World :=
  match stored with
  | none => .ok w
  | some id =>
    match w.files.insert (row id) with
    | some files => .ok { w with files, trace := .insertedFile s.sd (row id) :: w.trace }
    | none => .error .refused

def dbSaveFileSqlite (ins : SqliteInsert) (w : World) (s : Session) (sf : SFile) (uid : Int) : M (Int × World) := do
  let name ← deref sf.name
  let w ← w.insertFile s ins.stored (savedRow sf uid · name)
  let (res, id) := vdbQuery ins.prepared ins.row.toList dbSaveFileCb 0
  if res ≠ .dbSuccess then .ok (-1, w) else .ok (id, w)

/-! ## `db_postgresql.c` -/

inductive PgInsert
  | failed
  | tuples (ids : List Int)
  deriving DecidableEq

def PgInsert.tuplesOk : PgInsert → Bool
  | .failed => false
  | .tuples _ => true

def PgInsert.ntuples : PgInsert → Nat
  | .failed => 0
  | .tuples ids => ids.length

def PgInsert.getvalue : PgInsert → Option Bytes
  | .failed => none
  | .tuples ids => ids.head?.map decimalInt

def PgInsert.stored : PgInsert → Option Int
  | .failed => none
  | .tuples ids => ids.head?

def dbSaveFilePostgresql (res : PgInsert) (w : World) (s : Session) (sf : SFile) (uid : Int) : M (Int × World) := do
  let name ← deref sf.name
  let w ← w.insertFile s res.stored (savedRow sf uid · name)
  if !res.tuplesOk && res.ntuples = 0 then .ok (0, w)
  else
    let value ← deref res.getvalue
    .ok (atoi value, w)

/-! ## Both -/

inductive Insert
  | sqlite (ins : SqliteInsert)
  | postgresql (res : PgInsert)
  deriving DecidableEq

def Insert.stored : Insert → Option Int
  | .sqlite ins => ins.stored
  | .postgresql res => res.stored

def Insert.dbSaveFile : Insert → World → Session → SFile → Int → M (Int × World)
  | .sqlite ins => dbSaveFileSqlite ins
  | .postgresql res => dbSaveFilePostgresql res

/-- The ids that a database returns are positive, and the row it leaves has a new one. -/
def Insert.Possible (w : World) : Insert → Prop
  | .sqlite ins => ∀ id, ins.row = some id → 0 < id ∧ id < 2 ^ 31 ∧
    (ins.stored = some id → id ∉ w.files.rows.map (·.id))
  | .postgresql res => ∀ ids, res = .tuples ids → ids.length ≤ 1 ∧
      ∀ id ∈ ids, 0 < id ∧ id < 2 ^ 31 ∧ id ∉ w.files.rows.map (·.id)

section
variable {P : Platform} {ans : Answers} {w w' : World} {s s' : Session} {l : Bytes} {f : SFile} {N p : Bytes}

theorem dbSaveFile_eq (ans : Answers) : dbSaveFile ans = dbSaveFileSqlite ⟨true, ans.insert, true⟩ := by
  funext w s sf uid
  unfold dbSaveFile dbSaveFileSqlite
  cases deref sf.name with
  | error e => rfl
  | ok name =>
    cases hi : ans.insert with
    | none => rfl
    | some id =>
      simp only [ok_bind, SqliteInsert.stored, Bool.and_self, if_true, World.insertFile]
      change (match w.files.insert (savedRow sf uid id name) with | some files => _ | none => _) = _
      cases w.files.insert (savedRow sf uid id name) with
      | none => rfl
      | some files => rfl

theorem performSessionAction_describe (hst : s.state = .opUploadDescription) :
    performSessionAction P ans w s (some l) =
    describeWith sessionSendString (dbSaveFile ans) ans (w.log (.handled s.sd s.state (some l))) s l := by
  unfold performSessionAction performSessionActionWith
  simp only [hst]
  rfl

theorem describe_ends (hends : EndsDescription ans s l) (hf : s.file = some f) : ∃ dsc b,
    fileUploadDescription ans s l = .ok (true, { s with file := some { f with description := dsc }, buf := b }) := by
  unfold EndsDescription at hends
  cases h : fileUploadDescription ans s l with
  | error => rw [h] at hends; cases hends
  | ok r =>
    obtain ⟨res, s'⟩ := r
    rw [h] at hends
    obtain rfl : res = true := by simpa [Except.toOption] using hends
    unfold fileUploadDescription at h
    obtain ⟨f', hf', h⟩ := bind_ok.mp h
    obtain rfl := Option.some.inj (hf.symm.trans (deref_ok.mp hf'))
    obtain ⟨dsc, b, -, rfl⟩ := descriptionLoop_ok h
    exact ⟨dsc, b, rfl⟩

/-! ## What the client is told -/

def Tells (w w' : World) (s : Session) (t : Bytes) : Prop :=
  ∃ ext, w'.trace = ext ++ w.trace ∧ ∀ x, .said s.sd x ∈ ext ↔ x = t

/-- The client is told that the file is saved and the storage file stays, if a row was inserted; it is
told of the error and the storage file is gone, if not. -/
structure Truthful (w w' : World) (s s' : Session) (N p : Bytes) : Prop where
  saved : w'.files.rows ≠ w.files.rows → Tells w w' s (savedText N) ∧ w'.disk p = w.disk p
  failed : w'.files.rows = w.files.rows → Tells w w' s (saveErrorText N) ∧ w'.disk p = none
  state : s'.state = .opWait
  file : s'.file = none

theorem savedText_ne (N : Bytes) : savedText N ≠ saveErrorText N := fun h => by
  have := congrArg List.head? h
  exact absurd this (by simp [savedText, saveErrorText, ascii])

variable {db : World → Session → SFile → Int → M (Int × World)} {t : Session} {g : SFile} {id : Int} {w₁ : World}

theorem Tells.unique {a b : Bytes} (ha : Tells w w' s a) (hb : Tells w w' s b) : a = b := by
  obtain ⟨ext, hext, ha⟩ := ha
  obtain ⟨ext', hext', hb⟩ := hb
  obtain rfl := List.append_cancel_right (hext.symm.trans hext')
  exact (hb a).mp ((ha a).mpr rfl)

theorem Tells.closeFd {x : Bytes} (h : Tells w w' s x) (t : Session) : Tells w (w'.closeFd t) s x := by
  obtain ⟨ext, hext, hx⟩ := h
  unfold World.closeFd
  split
  · rename_i d _
    exact ⟨.closed t.sd d (t.sd == d || t.fd == some d) (w'.fds d).isSome :: ext, congrArg (_ :: ·) hext,
      fun y => by simp [hx]⟩
  · exact ⟨ext, hext, hx⟩

section
variable (hdesc : fileUploadDescription ans s l = .ok (true, t)) (hg : t.file = some g) (hN : g.name = some N)
  (hdb : db w t g t.uid = .ok (id, w₁))
include hdesc hg hN hdb

theorem describeWith_saved (hid : id ≠ 0) : describeWith sessionSendString db ans w s l =
    sessionSendString w₁ t (savedText N) >>= fun w₂ => .ok (w₂.closeFd t, t.cleared .opWait) := by
  unfold describeWith saveFileWith
  simp only [hdesc, ok_bind, if_true, hg, deref, hdb, hN, clearFileFromSess_some _ hg, if_pos hid]
  rfl

theorem describeWith_failed (hid : id = 0) (hp : g.path = some p) : describeWith sessionSendString db ans w s l =
    sessionSendString w₁ t (saveErrorText N) >>= fun w₂ => .ok ((w₂.unlink p).closeFd t, t.cleared .opWait) := by
  unfold describeWith saveFileWith
  simp only [hdesc, ok_bind, if_true, hg, deref, hdb, hN, clearFileFromSess_some _ hg, hid, ne_eq, not_true_eq_false,
    if_false]
  cases sessionSendString w₁ t (saveErrorText N) with
  | error => rfl
  | ok => simp only [ok_bind, hp]; rfl

/-- The database reports an id: the answer is true exactly if there is a new row. -/
theorem truthful_id (hsd : t.sd = s.sd) (hid : id ≠ 0)
    (hquiet : ∃ ext, w₁.trace = ext ++ w.trace ∧ ∀ x, .said s.sd x ∉ ext)
    (hdisk : w₁.disk = w.disk) : (∃ w' s', describeWith sessionSendString db ans w s l = .ok (w', s') ∧
    Truthful w w' s s' N p) ↔
      w₁.files.rows ≠ w.files.rows ∧ (savedText N).length < inBufSize := by
  rw [describeWith_saved hdesc hg hN hdb hid]
  have htells : Tells w ((w₁.log (.said t.sd (savedText N))).closeFd t) s (savedText N) := by
    obtain ⟨ext, hext, hq⟩ := hquiet
    exact Tells.closeFd ⟨.said t.sd (savedText N) :: ext, congrArg (_ :: ·) hext, fun y => by simp [hq, hsd]⟩ t
  constructor
  · rintro ⟨w', s', h, htrue⟩
    obtain ⟨w₂, hsay, h⟩ := bind_ok.mp h
    obtain ⟨rfl, hlen⟩ := sessionSendString_ok hsay
    cases h
    refine ⟨fun he => savedText_ne N ?_, hlen⟩
    exact htells.unique (htrue.failed (by rw [World.closeFd_files]; exact he)).1
  · rintro ⟨hrows, hlen⟩
    refine ⟨_, _, bind_ok.mpr ⟨_, if_pos hlen, rfl⟩, fun _ => ⟨htells, by simp [hdisk]⟩, fun he => ?_, rfl, rfl⟩
    rw [World.closeFd_files] at he
    exact absurd he hrows

/-- The database reports 0 and has not changed: the answer is true exactly if the file is gone. -/
theorem truthful_zero (hsd : t.sd = s.sd) (hid : id = 0) (hp : g.path = some p) (hw : w₁ = w)
    (hstored : (w.disk p).isSome) : (∃ w' s', describeWith sessionSendString db ans w s l = .ok (w', s') ∧
    Truthful w w' s s' N p) ↔
      w.cwd = .work ∧ (saveErrorText N).length < inBufSize := by
  rw [describeWith_failed hdesc hg hN hdb hid hp, hw]
  have htells : Tells w (((w.log (.said t.sd (saveErrorText N))).unlink p).closeFd t) s (saveErrorText N) :=
    Tells.closeFd ⟨[.unlinked p, .said t.sd (saveErrorText N)], by rw [World.unlink_trace]; rfl,
      fun y => by simp [hsd]⟩ t
  constructor
  · rintro ⟨w', s', h, htrue⟩
    obtain ⟨w₂, hsay, h⟩ := bind_ok.mp h
    obtain ⟨rfl, hlen⟩ := sessionSendString_ok hsay
    cases h
    refine ⟨?_, hlen⟩
    by_contra hcwd
    have hgone := (htrue.failed (by simp)).2
    simp only [World.closeFd_disk, World.unlink_disk, World.log_cwd, hcwd, false_and, if_false,
      World.log_disk] at hgone
    rw [hgone] at hstored
    cases hstored
  · rintro ⟨hcwd, hlen⟩
    refine ⟨_, _, bind_ok.mpr ⟨_, if_pos hlen, rfl⟩, fun h => absurd (by simp) h, fun _ => ⟨htells, by simp [hcwd]⟩,
      rfl, rfl⟩

end

/-! ## What each database does -/

theorem atoi_value {x : Int} (h : -2 ^ 63 ≤ x) (h' : x < 2 ^ 63) : atoi (decimalInt x) = toInt x := by
  unfold atoi
  rw [(decimalInt_reads x).scan.2, clampLong_of_le h h']
  rfl

theorem atoi_decimalInt {x : Int} (h0 : 0 ≤ x) (h : x < 2 ^ 31) : atoi (decimalInt x) = x :=
  (atoi_value (by omega) (by omega)).trans (toInt_of_lt (by omega) h)

theorem insertFile_ok (stored : Option Int) (row : Int → FileRow) (hid : ∀ id, (row id).id = id)
    (h : ∀ id, stored = some id → 0 < id ∧ id < 2 ^ 31 ∧ id ∉ w.files.rows.map (·.id)) :
    ∃ w₁, w.insertFile t stored row = .ok w₁ ∧ (∃ ext, w₁.trace = ext ++ w.trace ∧ ∀ x, .said s.sd x ∉ ext) ∧
      w₁.disk = w.disk ∧ (w₁.files.rows ≠ w.files.rows ↔ stored ≠ none) := by
  cases stored with
  | none => exact ⟨w, rfl, ⟨[], rfl, by simp⟩, rfl, by simp⟩
  | some id =>
    obtain ⟨hpos, hlt, hnew⟩ := h id rfl
    obtain ⟨files, hfiles⟩ : ∃ files, w.files.insert (row id) = some files :=
      ⟨_, dif_pos ⟨by rw [hid]; exact hnew, by rw [hid]; exact hpos, by rw [hid]; exact hlt⟩⟩
    refine ⟨{ w with files, trace := .insertedFile t.sd (row id) :: w.trace },
      by simp only [World.insertFile, hfiles], ⟨[.insertedFile t.sd (row id)], rfl, by simp⟩, rfl, ?_⟩
    simp [(FileTable.insert_rows hfiles).1]

theorem dbSaveFileSqlite_ok {ins : SqliteInsert} (uid : Int) (hins : (Insert.sqlite ins).Possible w)
    (hN : g.name = some N) : ∃ id w₁, dbSaveFileSqlite ins w t g uid = .ok (id, w₁) ∧ id ≠ 0 ∧
      (∃ ext, w₁.trace = ext ++ w.trace ∧ ∀ x, .said s.sd x ∉ ext) ∧ w₁.disk = w.disk ∧
      (w₁.files.rows ≠ w.files.rows ↔ ins.stored ≠ none) := by
  have hstored : ∀ id, ins.stored = some id → ins.row = some id := fun id h => by
    unfold SqliteInsert.stored at h
    split at h
    · exact h
    · cases h
  obtain ⟨w₁, hw, hquiet, hdisk, hrows⟩ := insertFile_ok (w := w) (s := s) (t := t)
    ins.stored (savedRow g uid · N) (fun _ => rfl)
    (fun id h => ⟨(hins id (hstored id h)).1, (hins id (hstored id h)).2.1, (hins id (hstored id h)).2.2 h⟩)
  have hdb : ∃ id, dbSaveFileSqlite ins w t g uid = .ok (id, w₁) ∧ id ≠ 0 := by
    unfold dbSaveFileSqlite
    simp only [hN, deref, ok_bind, hw]
    cases hp : ins.prepared with
    | false => exact ⟨-1, rfl, by decide⟩
    | true =>
      cases hr : ins.row with
      | none => exact ⟨-1, rfl, by decide⟩
      | some id => exact ⟨id, rfl, by have := (hins id hr).1; omega⟩
  obtain ⟨id, hdb, hid⟩ := hdb
  exact ⟨id, w₁, hdb, hid, hquiet, hdisk, hrows⟩

theorem dbSaveFilePostgresql_tuple {id : Int} (uid : Int) (hins : (Insert.postgresql (.tuples [id])).Possible w)
    (hN : g.name = some N) : ∃ w₁, dbSaveFilePostgresql (.tuples [id]) w t g uid = .ok (id, w₁) ∧ id ≠ 0 ∧
      (∃ ext, w₁.trace = ext ++ w.trace ∧ ∀ x, .said s.sd x ∉ ext) ∧ w₁.disk = w.disk ∧
      w₁.files.rows ≠ w.files.rows := by
  obtain ⟨hpos, hlt, hnew⟩ := (hins _ rfl).2 id (by simp)
  obtain ⟨w₁, hw, hquiet, hdisk, hrows⟩ := insertFile_ok (w := w) (s := s) (t := t) (some id)
    (savedRow g uid · N) (fun _ => rfl) (fun _ h => by cases h; exact ⟨hpos, hlt, hnew⟩)
  refine ⟨w₁, ?_, by omega, hquiet, hdisk, hrows.mpr (by simp)⟩
  unfold dbSaveFilePostgresql
  simp only [hN, deref, ok_bind, PgInsert.stored, List.head?_cons, hw, PgInsert.tuplesOk, Bool.not_true,
    Bool.false_and, Bool.false_eq_true, if_false, PgInsert.getvalue, Option.map_some, atoi_decimalInt hpos.le hlt]

end

/-- **A true answer.** At the end of a description the client is told the truth about the row and the
file exactly if the row was inserted, or the PostgreSQL query failed and `unlink` finds the file. -/
theorem truthful_iff {ans : Answers} {w : World} {s : Session} {l N p : Bytes} {f : SFile} {ins : Insert}
    (hins : ins.Possible w) (hends : EndsDescription ans s l) (hf : s.file = some f)
    (hN : f.name = some N) (hp : f.path = some p) (hstored : (w.disk p).isSome) :
    (∃ w' s', describeWith sessionSendString ins.dbSaveFile ans w s l = .ok (w', s') ∧ Truthful w w' s s' N p) ↔
    (ins.stored ≠ none ∧ (savedText N).length < inBufSize) ∨
      (ins = .postgresql .failed ∧ w.cwd = .work ∧ (saveErrorText N).length < inBufSize) := by
  obtain ⟨dsc, b, hdesc⟩ := describe_ends hends hf
  cases ins with
  | sqlite ins =>
    obtain ⟨id, w₁, hdb, hid, hquiet, hdisk, hrows⟩ := dbSaveFileSqlite_ok (s := s)
      (t := { s with file := some { f with description := dsc }, buf := b }) (g := { f with description := dsc })
      s.uid hins hN
    have hdb : (Insert.sqlite ins).dbSaveFile w _ _ s.uid = .ok (id, w₁) := hdb
    rw [truthful_id hdesc rfl hN hdb rfl hid hquiet hdisk, hrows]
    simp [Insert.stored]
  | postgresql res =>
    cases res with
    | failed =>
      have hdb : (Insert.postgresql .failed).dbSaveFile w { s with file := some { f with description := dsc }, buf := b }
          { f with description := dsc } s.uid = .ok (0, w) := by
        simp [Insert.dbSaveFile, dbSaveFilePostgresql, hN, deref, World.insertFile, PgInsert.stored,
          PgInsert.tuplesOk,
          PgInsert.ntuples]
      rw [truthful_zero hdesc rfl hN hdb rfl rfl hp rfl hstored]
      simp [Insert.stored, PgInsert.stored]
    | tuples ids =>
      have hlen := (hins _ rfl).1
      cases ids with
      | nil =>
        -- `atoi(NULL)`
        refine iff_of_false ?_ (by simp [Insert.stored, PgInsert.stored])
        rintro ⟨w', s', h, -⟩
        unfold describeWith saveFileWith at h
        simp [hdesc, Insert.dbSaveFile, dbSaveFilePostgresql, hN, deref, PgInsert.stored, World.insertFile,
          PgInsert.tuplesOk,
          PgInsert.getvalue, bind, Except.bind] at h
      | cons id rest =>
        obtain rfl : rest = [] := List.length_eq_zero_iff.mp (Nat.le_zero.mp (Nat.le_of_succ_le_succ hlen))
        obtain ⟨w₁, hdb, hid, hquiet, hdisk, hrows⟩ := dbSaveFilePostgresql_tuple (s := s)
          (t := { s with file := some { f with description := dsc }, buf := b }) (g := { f with description := dsc })
          s.uid hins hN
        have hdb : (Insert.postgresql (.tuples [id])).dbSaveFile w _ _ s.uid = .ok (id, w₁) := hdb
        rw [truthful_id hdesc rfl hN hdb rfl hid hquiet hdisk]
        simp [Insert.stored, PgInsert.stored, hrows]

/-! ### An `INSERT` that SQLite refuses -/

def refusedInsert : Insert := .sqlite ⟨true, none, false⟩

def lastLine : Bytes := ascii "text:END:\n"

theorem refused_answer : ∃ (v : Server) (s : Session) (f : SFile) (p : Bytes) (w' : World) (s' : Session),
    Run (Steps default) .fresh anonymousUpload v ∧ v.connections 4 = some s ∧ s.state = .opUploadDescription ∧
    s.file = some f ∧ f.name = some (ascii "a") ∧ f.path = some p ∧ (v.world.disk p).isSome ∧
      EndsDescription {} s lastLine ∧
    describeWith sessionSendString refusedInsert.dbSaveFile {} v.world s lastLine = .ok (w', s') ∧
    w'.files.rows = v.world.files.rows ∧
    w'.trace = [.closed 4 5 true true, .said 4 (savedText (ascii "a"))] ++ v.world.trace ∧ s.sd = 4 := by
  have h : (Server.exec (fun _ _ => True) default .fresh anonymousUpload).any (fun v => (v.connections 4).any fun s =>
      s.state == .opUploadDescription && s.file.any (fun f => f.name == some (ascii "a") && f.path.any fun p =>
        (v.world.disk p).isSome && (fileUploadDescription {} s lastLine).toOption.map (·.1) == some true &&
          (describeWith sessionSendString refusedInsert.dbSaveFile {} v.world s lastLine).toOption.any fun r =>
            r.1.files.rows == v.world.files.rows &&
              r.1.trace == [.closed 4 5 true true, .said 4 (savedText (ascii "a"))] ++ v.world.trace && s.sd == 4)) =
                true := by
    decide +kernel
  simp only [Option.any_eq_true, Bool.and_eq_true, beq_iff_eq] at h
  obtain ⟨v, hv, s, hs, hst, f, hf, hname, p, hp, ⟨hdisk, hends⟩, ⟨w', s'⟩, hrun, ⟨hrows, htrace⟩, hsd⟩ := h
  refine ⟨v, s, f, p, w', s', (Server.exec_run hv).unguard, hs, hst, hf, hname, hp, hdisk, hends, ?_, hrows,
    htrace, hsd⟩
  cases hx : describeWith sessionSendString refusedInsert.dbSaveFile {} v.world s lastLine with
  | error => rw [hx] at hrun; cases hrun
  | ok r => rw [hx] at hrun; cases hrun; rfl

/-- The client is told that the file is saved, and there is no row. -/
theorem refused_untrue : ∃ (v : Server) (s : Session) (f : SFile) (p : Bytes) (w' : World) (s' : Session),
    Run (Steps default) .fresh anonymousUpload v ∧ v.connections 4 = some s ∧ s.state = .opUploadDescription ∧
    s.file = some f ∧ f.path = some p ∧ EndsDescription {} s lastLine ∧ refusedInsert.Possible v.world ∧
    describeWith sessionSendString refusedInsert.dbSaveFile {} v.world s lastLine = .ok (w', s') ∧
    ¬ Truthful v.world w' s s' (ascii "a") p := by
  obtain ⟨v, s, f, p, w', s', r, hs, hst, hf, -, hp, -, hends, hrun, hrows, htrace, hsd⟩ := refused_answer
  have hposs : refusedInsert.Possible v.world := fun _ h => by cases h
  refine ⟨v, s, f, p, w', s', r, hs, hst, hf, hp, hends, hposs, hrun, fun h => ?_⟩
  have htold : Tells v.world w' s (savedText (ascii "a")) := ⟨_, htrace, fun x => by simp [hsd]⟩
  exact savedText_ne _ (htold.unique (h.failed hrows).1)

theorem truthful_iff_refused : ∃ (v : Server) (s : Session) (p : Bytes), v.connections 4 = some s ∧
    ((∃ w' s', describeWith sessionSendString refusedInsert.dbSaveFile {} v.world s lastLine = .ok (w', s') ∧
        Truthful v.world w' s s' (ascii "a") p) ↔
      (refusedInsert.stored ≠ none ∧ (savedText (ascii "a")).length < inBufSize) ∨
        (refusedInsert = .postgresql .failed ∧ v.world.cwd = .work ∧
        (saveErrorText (ascii "a")).length < inBufSize)) := by
  obtain ⟨v, s, f, p, -, -, -, hs, -, hf, hname, hp, hdisk, hends, -⟩ := refused_answer
  exact ⟨v, s, p, hs, truthful_iff (fun _ h => by cases h) hends hf hname hp hdisk⟩

end BbsServer
