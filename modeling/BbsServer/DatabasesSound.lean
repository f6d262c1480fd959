import BbsServer.Databases
import BbsServer.ListingSound
import BbsServer.MemorySound
import BbsServer.PagingSound
import BbsServer.PrivateSound

/-!
# The same server over either database

The two files give `create_user`, `login`, `perform_session_action`, `file_list` and `file_send_prepare` the same,
as long as the database answers, no registration clashes, no page is negative, and a name that is asked for is
that of one file, which is intact. In a run whose steps all meet this, no client can tell which of them was built
in (`databases_alike`).
-/

namespace BbsServer

open CStr Runs

def pageOf (line : Bytes) : GetFiles :=
  fileListQuery { page := (scanListArgs line).2, limit := (scanListArgs line).1, name := none }

/-- One row has the name; its columns are those of the schema, and its file can be opened and has its size. -/
def FoundIntact (ans : Answers) (w : World) (name : Bytes) : Prop :=
  ∃ row, ((joined w).map (·.1)).filter (·.name == name) = [row] ∧ row.found.Fits ∧ ans.opened.isSome ∧
    row.size = ((w.disk row.path).getD []).length

/-- What the two databases are asked alike. -/
def AskedAlike (G : Postgres) (ans : Answers) (w : World) (s : Session) (line : Bytes) : Prop :=
  match s.state with
  | .opLoginUsr => ∀ args, scanRegister line = .ok (some args) →
    ans.answered ∧ ans.committed ∧ ¬ w.HasName args.uname ∧ ¬ w.HasEmail args.email
  | .opWait =>
    (fileCommand ans line = some (ascii "list") → ans.answered →
      0 ≤ (pageOf line).limit ∧ 0 ≤ (pageOf line).offset ∧ (w.tables G.day).Int64) ∧
    (fileCommand ans line = some (ascii "download") → ∀ name, sendName line = some name →
      name.length < 64 ∧ (ans.answered → FoundIntact ans w name))
  | .opUploadDescription => EndsDescription ans s line → ans.insert ≠ none
  | _ => True

def Alikes (G : Postgres) (v : Server) : Event → Prop
  | .ready i ans => ∀ s line rest, v.connections i = some s → lineOf ans s = some (line, rest) →
    AskedAlike G ans v.world { s with buf := rest } line
  | _ => True

/-- The same worlds, and the same sessions but for their privileges, which nothing reads. -/
structure SameButPrivileges (v u : Server) : Prop where
  world : u.world = v.world
  session : ∀ i, ∃ p, u.connections i = (v.connections i).map fun s => s.filled s.uid p

section
variable {P : Platform} {G : Postgres} {ans : Answers} {w w' : World} {s t : Session} {l : Bytes}
  {r : Int × World × Session}

/-! ## Rows that are written -/

theorem insertFile_range {id : Int} {row : Int → FileRow} (hrow : ∀ id, (row id).id = id)
    (h : w.insertFile s (some id) row = .ok w') : 0 < id ∧ id < 2 ^ 31 := by
  unfold World.insertFile at h
  dsimp only at h
  split at h
  · rename_i files hins
    have hmem : row id ∈ files.rows := by
      rw [(FileTable.insert_rows hins).1]
      exact List.mem_append_right _ (List.mem_singleton_self _)
    have := files.idRange _ hmem
    rwa [hrow] at this
  · cases h

theorem dbSaveFile_postgresql {f : SFile} {uid : Int} {x : Int × World} (h : dbSaveFile ans w s f uid = .ok x)
    (hi : ans.insert ≠ none) : dbSaveFilePostgresql (.ofId ans.insert) w s f uid = .ok x := by
  rw [dbSaveFile_eq] at h
  obtain ⟨id, hid⟩ := Option.ne_none_iff_exists'.mp hi
  rw [hid] at h ⊢
  obtain ⟨name, hn, h⟩ := bind_ok.mp h
  obtain ⟨w₁, hw, h⟩ := bind_ok.mp h
  cases h
  have hw : w.insertFile s (some id) (savedRow f uid · name) = .ok w₁ := hw
  obtain ⟨hpos, hlt⟩ := insertFile_range (fun _ => rfl) hw
  have hvalue : deref (some (decimalInt id)) = .ok (decimalInt id) := rfl
  unfold dbSaveFilePostgresql
  simp only [PgInsert.ofId, hn, ok_bind, PgInsert.stored, List.head?_cons, hw, PgInsert.tuplesOk, Bool.not_true,
    Bool.false_and, Bool.false_eq_true, if_false, PgInsert.getvalue, Option.map_some, hvalue, atoi_decimalInt hpos.le hlt]

theorem describeWith_postgresql {x : World × Session}
    (h : describeWith sessionSendString (dbSaveFile ans) ans w s l = .ok x)
    (hends : EndsDescription ans s l → ans.insert ≠ none) :
    describeWith sessionSendString (dbSaveFilePostgresql (.ofId ans.insert)) ans w s l = .ok x := by
  unfold describeWith saveFileWith at h ⊢
  obtain ⟨⟨res, t⟩, ht, h⟩ := bind_ok.mp h
  rw [ht, ok_bind]
  cases res with
  | false => exact h
  | true =>
    have hi : ans.insert ≠ none := hends (by simp [EndsDescription, ht, Except.toOption])
    obtain ⟨f, hf, h⟩ := bind_ok.mp h
    obtain ⟨y, hy, h⟩ := bind_ok.mp h
    dsimp only
    rw [if_pos rfl, hf, ok_bind, dbSaveFile_postgresql hy hi]
    exact h

/-! ## Users -/

theorem dbUserCreate_postgresql {args : DbUserCreate} {res : Int} (h : dbUserCreate P ans w s args = .ok (res, w'))
    (hc : ans.committed) (hn : ¬ w.HasName args.uname) (he : ¬ w.HasEmail args.email) :
    dbUserCreatePostgresql P true true ans.insert w s args = .ok (if ans.insert.isSome then res else -4, w') := by
  rw [dbUserCreatePostgresql_email true hn, if_neg (by decide), if_neg (mt ntuples_email.mp he)]
  unfold dbUserCreate at h
  cases hi : ans.insert with
  | none =>
    rw [hi] at h
    cases h
    rfl
  | some id =>
    rw [hi] at h
    dsimp only at h
    split at h
    · rename_i users hu
      rw [if_pos hc] at h
      cases h
      have hins : w.users.insert (newUser P args res) = some users := hu
      rw [World.insertUser, Option.bind_some, hins]
      rfl
    · cases h

theorem createUserWith_postgresql {ret : Int} (h : createUser P ans w s l = .ok (ret, w', t))
    (hnew : ∀ args, scanRegister l = .ok (some args) →
      ans.answered ∧ ans.committed ∧ ¬ w.HasName args.uname ∧ ¬ w.HasEmail args.email) :
    ∃ ret', createUserWith sessionSendString ((Database.postgresql P G).dbUserCreate ans) w s l =
    .ok (ret', w', t) := by
  unfold createUser createUserWith at h
  obtain ⟨args, hscan, h⟩ := bind_ok.mp h
  cases args with
  | none =>
    cases h
    exact ⟨0, by rw [createUserWith, hscan, ok_bind]⟩
  | some args =>
    obtain ⟨⟨res, w₁⟩, hdb, h⟩ := bind_ok.mp h
    obtain ⟨hans, hc, hn, he⟩ := hnew args hscan
    have hpg := dbUserCreate_postgresql hdb hc hn he
    have hcreate : (Database.postgresql P G).dbUserCreate ans = dbUserCreatePostgresql P true true ans.insert := by
      rw [← hans]
      rfl
    rw [← hcreate] at hpg
    cases hi : ans.insert with
    | some id =>
      rw [hi] at hpg
      exact ⟨ret, by rw [createUserWith, hscan, ok_bind]; dsimp only; rw [hpg, ok_bind]; exact h⟩
    | none =>
      obtain ⟨rfl, rfl⟩ : 0 = res ∧ w = w₁ := by
        unfold dbUserCreate at hdb
        rw [hi] at hdb
        cases hdb
        exact ⟨rfl, rfl⟩
      rw [hi] at hpg
      obtain ⟨w₂, hsend, h⟩ := bind_ok.mp h
      cases h
      refine ⟨-4, ?_⟩
      rw [createUserWith, hscan, ok_bind]
      dsimp only
      rw [hpg, ok_bind]
      dsimp only
      rw [if_neg (by decide), if_neg (by decide), if_neg (by decide), hsend, ok_bind]
      rfl

theorem dbUserAuth_uid (P : Platform) (updated : PgResult) (w : World) (name : Option Bytes) (pass : Bytes) :
    ∃ uid, ∀ b : Backend, ∃ ret c, b.dbUserAuth P updated w name pass { privileges := 0, uid := 0 } =
      .ok (ret, { privileges := c, uid }) := by
  rcases selectedUsers_cases w name with hnone | ⟨row, hrow, -, hone⟩
  · refine ⟨0, fun b => ?_⟩
    obtain ⟨ret, hret⟩ := dbUserAuth_none hnone
    exact ⟨ret, 0, hret⟩
  · by_cases hp : row.password = stringToSHA256 P pass
    · refine ⟨row.id, fun b => ?_⟩
      obtain ⟨ret, hret⟩ := dbUserAuth_one b P updated pass { privileges := 0, uid := 0 } hrow hone
      exact ⟨ret, _, by rw [hret, if_pos hp]⟩
    · refine ⟨0, fun b => ?_⟩
      obtain ⟨ret, hret⟩ := dbUserAuth_one b P updated pass { privileges := 0, uid := 0 } hrow hone
      exact ⟨ret, 0, by rw [hret, if_neg hp]⟩

theorem dbUserAuth_postgresql (G : Postgres) (name : Option Bytes) (pass : Bytes) : ∃ ret c,
    dbUserAuthPostgresql P (selected ans.answered (authRows w name)) G.updated pass { privileges := 0, uid := 0 } =
      .ok (ret, { privileges := c, uid := (dbUserAuth P ans w name pass { privileges := 0, uid := 0 }).uid }) := by
  cases ha : ans.answered with
  | false => exact ⟨1, 0, by rw [dbUserAuth, if_neg (by simp [ha])]; rfl⟩
  | true =>
    obtain ⟨uid, huid⟩ := dbUserAuth_uid P G.updated w name pass
    obtain ⟨res, hlite⟩ := dbUserAuth_sqlite P ans w name pass { privileges := 0, uid := 0 }
    rw [ha] at hlite
    obtain ⟨ret, c, hret⟩ := huid .sqlite
    have hsame := congrArg OAuth.uid (Prod.mk.inj (Except.ok.inj (hret.symm.trans hlite))).2
    obtain ⟨ret', c', hret'⟩ := huid .postgresql
    exact ⟨ret', c', hsame ▸ hret'⟩

theorem loginWith_postgresql (G : Postgres) {ret : Int} (h : login P ans w s l = .ok (ret, w', t)) :
    ∃ q, loginWith sessionSendString ((Database.postgresql P G).dbUserAuth ans w) ans.after w s l =
    .ok (ret, w', t.filled t.uid q) := by
  have hauth : ∃ ret c, (Database.postgresql P G).dbUserAuth ans w s.uname l { privileges := 0, uid := 0 } =
      .ok (ret, { privileges := c, uid := (dbUserAuth P ans w s.uname l { privileges := 0, uid := 0 }).uid }) :=
    dbUserAuth_postgresql G s.uname l
  obtain ⟨res, c, hauth⟩ := hauth
  unfold login loginWith at h
  rw [tables_dbUserAuth, ok_bind] at h
  unfold loginWith
  rw [hauth, ok_bind]
  dsimp only at h ⊢
  split at h
  · rename_i hin
    rw [if_pos hin]
    obtain ⟨u, hu, h⟩ := bind_ok.mp h
    obtain ⟨w₁, hsend, h⟩ := bind_ok.mp h
    cases h
    rw [hu, ok_bind, hsend, ok_bind]
    exact ⟨_, rfl⟩
  · rename_i hin
    rw [if_neg hin]
    obtain ⟨w₁, hsend, h⟩ := bind_ok.mp h
    cases h
    rw [hsend, ok_bind]
    exact ⟨s.privileges, rfl⟩

/-! ## Files -/

theorem sendFound_same {a b : SFile} {d : Nat} (h : SameFile a b) (ho : ans.opened = some d)
    (hsize : a.size = ((w.disk (storagePath a.hash)).getD []).length) : sendFound ans w s a =
    sendFound ans w s b := by
  unfold sendFound sendFoundWith
  rw [ho]
  dsimp only
  rw [← h.hash]
  cases hw : w.openRead s (storagePath a.hash) d with
  | error e => rfl
  | ok w₁ =>
    rw [ok_bind, ok_bind, World.openRead_disk hw, ← h.size, if_neg (not_not.mpr hsize),
      if_neg (not_not.mpr hsize), ← h.name, ← h.description, ← h.permissions, ← h.id, ← h.ownerId]

theorem dbGetFile_postgresql {name : Bytes} {row : FileRow} (hne : name ≠ []) (hlen : name.length < 64)
    (ha : ans.answered = true) (hrow : ((joined w).map (·.1)).filter (·.name == name) = [row])
    (hfits : row.found.Fits) :
    (Database.postgresql P G).dbGetFile ans w { id := 0, userId := 0, name } =
    .ok (some (row.found.pgFile G.memory)) := by
  have hname : row.name = name := by
    have := (List.mem_filter.mp (hrow ▸ List.mem_singleton_self row)).2
    simpa using this
  have hrows : fileRows w (.name name) = [row.found.cells] := by
    unfold fileRows
    rw [List.filter_map]
    show List.map _ (List.map _ (((joined w).map (·.1)).filter (·.name == name))) = _
    rw [hrow]
    rfl
  let f := FileSearch.ofTable [row.found] (List.nodup_singleton _) fun r hr => List.mem_singleton.mp hr ▸ hfits
  have hk : postgresqlKey { id := 0, userId := 0, name } = some (.name name) := by simp [postgresqlKey, hne]
  have hselect : f.select (.name name) = [row.found] := by
    show [row.found].filter _ = _
    simp [FileKey.holds, FileRow.found, hname]
  have hf : dbGetFilePostgresql G.memory f.result { id := 0, userId := 0, name } =
    .ok (some (row.found.pgFile G.memory)) :=
    postgresql_row hk hlen rfl hselect
  rw [← hf]
  show dbGetFilePostgresql G.memory (fun key => selected ans.answered (fileRows w key)) _ = _
  unfold dbGetFilePostgresql
  rw [hk]
  dsimp only
  have hresult : f.result (.name name) = selected ans.answered (fileRows w (.name name)) := by
    rw [hrows, ha]
    show (if f.refuses (.name name) then _ else PgResult.tuples ((f.select (.name name)).map FoundRow.cells)) = _
    rw [hselect]
    rfl
  rw [hresult]

theorem fileSendPrepareWith_found {D : Database} {n : Bytes} {x : Option SFile} (hn : sendName l = some n)
    (hlen : n.length < fileNameLen) (hx : D.dbGetFile ans w { id := 0, userId := 0, name := n } = .ok x) :
    fileSendPrepareWith sessionSendString (D.dbGetFile ans w) (sendFound ans w s) w s l =
    x.elim (.ok (-1, w, { s with file := none })) (sendFound ans w s) := by
  unfold sendName at hn
  split at hn
  · rename_i b e hb he
    split at hn
    · rename_i hlt
      cases hn
      have hle := (strrchr_eq_some he).2.2
      unfold fileSendPrepareWith
      rw [hb]
      dsimp only
      rw [he]
      dsimp only
      have hlen' : e - (b + 1) < fileNameLen := by
        rw [List.length_take, List.length_drop] at hlen
        omega
      rw [if_neg (by omega), if_neg (by omega), hx, ok_bind]
      cases x with
      | none => rfl
      | some sf => rfl
    · cases hn
  · cases hn

theorem fileSendPrepareWith_unnamed {get get' : GetFile → M (Option SFile)}
    {found : SFile → M (Int × World × Session)} (hn : sendName l = none) :
    fileSendPrepareWith sessionSendString get found w s l =
    fileSendPrepareWith sessionSendString get' found w s l := by
  unfold fileSendPrepareWith
  cases hb : strchr l 91 with
  | none => rfl
  | some b =>
    dsimp only
    cases he : strrchr l 93 with
    | none => rfl
    | some e =>
      dsimp only
      by_cases hempty : e = b + 1
      · rw [if_pos hempty, if_pos hempty]
      · have hlt : ¬ b + 1 < e := fun hlt => by simp [sendName, hb, he, hlt] at hn
        rw [if_neg hempty, if_neg hempty, if_pos (.inl (by omega)), if_pos (.inl (by omega))]

theorem dbGetFile_unanswered {name : Bytes} (hne : name ≠ []) (hlen : name.length < 64) (ha : ans.answered = false) :
    (Database.postgresql P G).dbGetFile ans w { id := 0, userId := 0, name } = .ok none := by
  have hk : postgresqlKey { id := 0, userId := 0, name } = some (.name name) := by simp [postgresqlKey, hne]
  show dbGetFilePostgresql G.memory _ _ = _
  unfold dbGetFilePostgresql
  rw [hk]
  dsimp only
  rw [if_neg (show ¬ 64 ≤ (FileKey.name name).value.length from Nat.not_le.mpr hlen), ha]
  rfl

theorem dbGetFile_same {name : Bytes} (hne : name ≠ []) (hlen : name.length < 64) (ha : ans.answered = true)
    (hfound : FoundIntact ans w name) : ∃ a b d, dbGetFile ans w { id := 0, userId := 0, name } = some a ∧
      (Database.postgresql P G).dbGetFile ans w { id := 0, userId := 0, name } = .ok (some b) ∧ SameFile a b ∧
        ans.opened = some d ∧ a.size = ((w.disk (storagePath a.hash)).getD []).length := by
  obtain ⟨row, hrow, hfits, hopen, hsize⟩ := hfound
  obtain ⟨d, hd⟩ := Option.isSome_iff_exists.mp hopen
  have hk : sqliteKey { id := 0, userId := 0, name } = some (.name name) := by simp [sqliteKey, hne]
  have hlite : dbGetFile ans w { id := 0, userId := 0, name } = some (dbGetFileDb row) := by
    rw [dbGetFile_key ha hk]
    show ((((joined w).map (·.1)).filter (·.name == name)).getLast?.map dbGetFileDb) = _
    rw [hrow]
    rfl
  have hbig : row.size < 2 ^ 64 := by
    have := hfits.size.2
    simp only [FileRow.found] at this
    omega
  have hsame : SameFile (dbGetFileDb row) (row.found.pgFile G.memory) := by
    rw [← FileRow.found_file hbig]
    exact FoundRow.same (Option.some_ne_none _)
  exact ⟨_, _, d, hlite, dbGetFile_postgresql hne hlen ha hrow hfits, hsame, hd, hsize⟩

theorem fileSendPrepareWith_postgresql (h : fileSendPrepare ans w s l = .ok r) (hg : ∀ n, sendName l = some n →
    n.length < 64 ∧ (ans.answered → FoundIntact ans w n)) :
    fileSendPrepareWith sessionSendString ((Database.postgresql P G).dbGetFile ans w) (sendFound ans w s) w s l =
    .ok r := by
  have h : fileSendPrepareWith sessionSendString ((Database.tables P).dbGetFile ans w) (sendFound ans w s) w s l =
    .ok r := h
  cases hn : sendName l with
  | none => rwa [fileSendPrepareWith_unnamed hn]
  | some n =>
    obtain ⟨hlen, hfound⟩ := hg n hn
    have hlen' : n.length < fileNameLen := Nat.lt_of_lt_of_le hlen (by decide)
    rw [fileSendPrepareWith_found hn hlen' rfl] at h
    cases ha : ans.answered with
    | false =>
      have hlite : dbGetFile ans w { id := 0, userId := 0, name := n } = none := by
        rw [dbGetFile, ha]
        rfl
      rw [fileSendPrepareWith_found hn hlen' (dbGetFile_unanswered (sendName_ne hn) hlen ha)]
      rwa [hlite] at h
    | true =>
      obtain ⟨a, b, d, hlite, hpg, hsame, hd, hsize⟩ := dbGetFile_same (sendName_ne hn) hlen ha (hfound ha)
      rw [fileSendPrepareWith_found hn hlen' hpg]
      rw [hlite] at h
      exact (sendFound_same hsame hd hsize).symm.trans h

/-! ## Lists -/

theorem dbGetFilesData_unnamed {a b : Bytes} {limit offset : Int} :
    dbGetFilesData P ans a w ⟨[], limit, offset⟩ = dbGetFilesData P ans b w ⟨[], limit, offset⟩ := by
  simp [dbGetFilesData]

def allOf (limit offset : Int) : GetFilesDb := ⟨[], List.not_mem_nil, limit, offset, .id, .asc⟩

theorem dbGetFilesData_postgresql (hG : G.order.Serves P G.day) {q : GetFiles} (hsearch : q.searchStr = [])
    (hlimit : fitsInt q.limit) (hoffset : fitsInt q.offset)
    (hq : ans.answered → 0 ≤ q.limit ∧ 0 ≤ q.offset ∧ (w.tables G.day).Int64) :
    (Database.postgresql P G).dbGetFilesData ans w q = .ok (dbGetFilesData P ans [] w q) := by
  obtain ⟨search, limit, offset⟩ := q
  obtain rfl : search = [] := hsearch
  cases ha : ans.answered with
  | false =>
    rw [dbGetFilesData, if_neg (by simp [ha])]
    simp only [Database.postgresql, ha]
    rfl
  | true =>
    obtain ⟨hl, ho, ht⟩ := hq ha
    have hfiles : (w.tables G.day).files.length < 2 ^ 63 := by
      rw [World.tables, List.length_map]
      exact (fileTable_length w.files).trans (by decide)
    have hsize : ∀ r ∈ w.files.rows, r.size < 2 ^ 64 := by
      intro r hr
      have := (ht (r.columns G.day) (List.mem_map_of_mem hr) .size r.size rfl).2
      omega
    have hlite : dbGetFilesDataSql G.order 0 ans.fullCount (w.tables G.day) (allOf limit offset) = _ :=
      dbGetFilesData_sql hG List.not_mem_nil limit offset ha hsize
    obtain ⟨-, hlen, heq⟩ := dbGetFilesDataSql_ok.mp hlite
    have hint : toInt ((w.tables G.day).page G.order (allOf limit offset)).length =
        ((w.tables G.day).page G.order (allOf limit offset)).length := toInt_of_lt (by omega) (by exact_mod_cast hlen)
    have hpg : dbGetFilesDataPostgresql G.order (true, true) ans.fullCount (w.tables G.day) (allOf limit offset) = _ :=
      dbGetFilesDataPostgresql_eq ht hfiles hlimit hoffset ans.fullCount
    -- without a search both count all files
    have hcount : (w.tables G.day).countedPostgresql G.order (allOf limit offset) =
        (w.tables G.day).counted G.order 0 (allOf limit offset) := rfl
    rw [if_neg (by simp [allOf, hl, ho]), hint, hcount, ← heq] at hpg
    dsimp only [Database.postgresql]
    rw [ha]
    change (dbGetFilesDataPostgresql G.order (true, true) ans.fullCount (w.tables G.day) (allOf limit offset) >>=
      fun x => .ok (x.2.1, x.1, x.2.2)) = _
    rw [hpg, ok_bind]
    exact congrArg Except.ok dbGetFilesData_unnamed

theorem fitsInt_toInt (x : Int) : fitsInt (toInt x) := ⟨Int.le_bmod (by decide), Int.bmod_lt (by decide)⟩

theorem fileListWith_postgresql (hG : G.order.Serves P G.day) (h : fileList P ans w s
    { page := (scanListArgs l).2, limit := (scanListArgs l).1, name := none } = .ok w')
    (hq : ans.answered → 0 ≤ (pageOf l).limit ∧ 0 ≤ (pageOf l).offset ∧ (w.tables G.day).Int64) :
    fileListWith ((Database.postgresql P G).dbGetFilesData ans w) w s
      { page := (scanListArgs l).2, limit := (scanListArgs l).1, name := none } = .ok w' := by
  have hpg := dbGetFilesData_postgresql (q := pageOf l) hG rfl (scanListArgs_fits l).1 (fitsInt_toInt _) hq
  unfold fileList fileListWith at h
  rw [tables_dbGetFilesData, ok_bind] at h
  unfold fileListWith
  split at h
  · cases h
  · rename_i hl
    rw [if_neg hl]
    exact (congrArg (· >>= _) hpg).trans h

theorem processClientCommandWith_postgresql (hG : G.order.Serves P G.day) (hst : s.state = .opWait)
    {y : World × Session} (h : processClientCommand P ans w s l = .ok y) (ha : AskedAlike G ans w s l) :
    processClientCommandWith sessionSendString (.postgresql P G) ans w s l = .ok y := by
  simp only [AskedAlike, hst] at ha
  obtain ⟨hlist, hdown⟩ := ha
  unfold processClientCommand processClientCommandWith at h
  unfold processClientCommandWith
  obtain ⟨⟨ret, arg1, arg2⟩, hscan, h⟩ := bind_ok.mp h
  rw [hscan, ok_bind]
  dsimp only at h ⊢
  by_cases hfile : arg1 = ascii "file"
  · rw [if_pos hfile] at h ⊢
    by_cases hret : ret = 1
    · rw [if_pos hret] at h ⊢
      exact h
    · rw [if_neg hret] at h ⊢
      have hcmd : fileCommand ans l = some arg2 := by
        unfold fileCommand
        rw [hscan]
        exact if_pos ⟨hfile, hret⟩
      by_cases h₁ : arg2 = ascii "list"
      · rw [if_pos h₁] at h ⊢
        obtain ⟨w₁, hw, h⟩ := bind_ok.mp h
        rw [fileListWith_postgresql hG hw (hlist (hcmd.trans (congrArg _ h₁)))]
        exact h
      · rw [if_neg h₁] at h ⊢
        by_cases h₂ : arg2 = ascii "upload"
        · rw [if_pos h₂] at h ⊢
          exact h
        · rw [if_neg h₂] at h ⊢
          by_cases h₃ : arg2 = ascii "download"
          · rw [if_pos h₃] at h ⊢
            obtain ⟨r, hr, h⟩ := bind_ok.mp h
            rw [fileSendPrepareWith_postgresql hr (hdown (hcmd.trans (congrArg _ h₃)))]
            exact h
          · rw [if_neg h₃] at h ⊢
            exact h
  · rw [if_neg hfile] at h ⊢
    exact h

/-! ## Actions -/

theorem processUserNameWith_postgresql {ret : Int} (hst : s.state = .opLoginUsr)
    (h : processUserName P ans w s l = .ok (ret, w', t)) (ha : AskedAlike G ans w s l) :
    ∃ ret', processUserNameWith sessionSendString ((Database.postgresql P G).dbUserCreate ans) w s l =
    .ok (ret', w', t) := by
  simp only [AskedAlike, hst] at ha
  unfold processUserName processUserNameWith at h
  unfold processUserNameWith
  by_cases he : isExit l
  · rw [if_pos he] at h ⊢
    exact ⟨ret, h⟩
  · rw [if_neg he] at h ⊢
    by_cases hr : isRegister l
    · rw [if_pos hr] at h ⊢
      exact createUserWith_postgresql h ha
    · rw [if_neg hr] at h ⊢
      exact ⟨ret, h⟩

theorem performSessionActionWith_postgresql (hG : G.order.Serves P G.day)
    (h : performSessionAction P ans w s (some l) = .ok (w', t)) (ha : AskedAlike G ans w s l) :
    ∃ q, performSessionActionWith sessionSendString (.postgresql P G) ans w s (some l) =
    .ok (w', t.filled t.uid q) := by
  cases hst : s.state with
  | opLoginUsr =>
    obtain ⟨ret, h⟩ := (performSessionAction_name hst).mp h
    obtain ⟨ret', h'⟩ := processUserNameWith_postgresql (G := G) (P := P) hst h ha
    refine ⟨t.privileges, ?_⟩
    simp only [performSessionActionWith, hst, deref, ok_bind]
    rw [← hst, h', ok_bind]
    rfl
  | opLoginPss =>
    obtain ⟨ret, h⟩ := (performSessionAction_password hst).mp h
    obtain ⟨q, h'⟩ := loginWith_postgresql G h
    refine ⟨q, ?_⟩
    simp only [performSessionActionWith, hst, deref, ok_bind]
    rw [← hst, h', ok_bind]
  | opWait =>
    rw [performSessionAction_command hst] at h
    refine ⟨t.privileges, ?_⟩
    simp only [performSessionActionWith, hst, deref, ok_bind]
    rw [← hst]
    exact processClientCommandWith_postgresql hG hst h ha
  | opUploadDescription =>
    rw [performSessionAction_describe hst] at h
    simp only [AskedAlike, hst] at ha
    refine ⟨t.privileges, ?_⟩
    simp only [performSessionActionWith, hst, deref, ok_bind]
    rw [← hst]
    exact describeWith_postgresql h ha
  | _ =>
    refine ⟨t.privileges, ?_⟩
    simp only [performSessionAction, performSessionActionWith, hst] at h ⊢
    exact h

theorem performSessionActionWith_transfer {D : Database} {line : Option Bytes}
    (hst : s.state = .opUpload ∨ s.state = .opDownload) :
    performSessionActionWith sessionSendString D ans w s line = performSessionAction P ans w s line := by
  rcases hst with hst | hst <;> simp only [performSessionAction, performSessionActionWith, hst]

end

/-! ## Servers -/

section
variable {P : Platform} {G : Postgres} {ans : Answers} {w w₁ : World} {s : Session} {l : Bytes}
  {v v₁ u u₁ : Server} {i : Nat}
  {e : Event} {x x' : Option Session}

theorem SameButPrivileges.refl (v : Server) : SameButPrivileges v v where
  world := rfl
  session i := ⟨((v.connections i).map (·.privileges)).getD 0, by cases h : v.connections i <;> rfl⟩

theorem SameButPrivileges.trans (h : SameButPrivileges v u) (h' : SameButPrivileges u u₁) :
    SameButPrivileges v u₁ where
  world := h'.world.trans h.world
  session i := by
    obtain ⟨p, hp⟩ := h.session i
    obtain ⟨q, hq⟩ := h'.session i
    refine ⟨q, hq.trans ?_⟩
    rw [hp, Option.map_map]
    rfl

theorem SameButPrivileges.set (h : SameButPrivileges v u) (hx : ∃ p, x' = x.map fun s => s.filled s.uid p) :
    SameButPrivileges (v.set i w x) (u.set i w x') where
  world := rfl
  session j := by
    by_cases hj : j = i
    · subst hj
      rw [Server.set_self, Server.set_self]
      exact hx
    · show ∃ p, Function.update u.connections i x' j = (Function.update v.connections i x j).map _
      rw [Function.update_of_ne hj, Function.update_of_ne hj]
      exact h.session j

theorem SameButPrivileges.some (h : SameButPrivileges v u) (hc : v.connections i = some s) :
    ∃ p, u.connections i = some (s.filled s.uid p) := by
  obtain ⟨p, hp⟩ := h.session i
  exact ⟨p, by rw [hp, hc]; rfl⟩

theorem SameButPrivileges.none (h : SameButPrivileges v u) (hc : v.connections i = none) :
    u.connections i = none := by
  obtain ⟨p, hp⟩ := h.session i
  rw [hp, hc]
  rfl

/-- The privileges of a session do not matter for what the databases are asked. -/
theorem AskedAlike.filled {p q : Int} (h : AskedAlike G ans w s l) : AskedAlike G ans w (s.filled p q) l := by
  have hends : EndsDescription ans (s.filled p q) l ↔ EndsDescription ans s l := by
    unfold EndsDescription
    rw [fileUploadDescription_filled]
    cases fileUploadDescription ans s l <;> rfl
  unfold AskedAlike at h ⊢
  rw [show (s.filled p q).state = s.state from rfl]
  cases hst : s.state with
  | opUploadDescription =>
    simp only [hst] at h ⊢
    exact fun he => h (hends.mp he)
  | _ =>
    simp only [hst] at h ⊢
    try exact h

theorem serveSessionWith_postgresql (hG : G.order.Serves P G.day) (h : serveSession P ans v i s = .ok v₁)
    (ha : ∀ line rest, lineOf ans s = some (line, rest) → AskedAlike G ans v.world { s with buf := rest } line) :
    ∃ u, serveSessionWith sessionSendString (.postgresql P G) ans v i s = .ok u ∧ SameButPrivileges v₁ u := by
  unfold serveSession serveSessionWith at h
  unfold serveSessionWith
  by_cases hst : s.state = .opUpload ∨ s.state = .opDownload
  · rw [if_pos hst] at h ⊢
    rw [performSessionActionWith_transfer (P := P) hst]
    exact ⟨v₁, h, .refl v₁⟩
  rw [if_neg hst] at h ⊢
  obtain ⟨⟨res, line, w₁, t⟩, hread, h⟩ := bind_ok.mp h
  rw [hread, ok_bind]
  rcases sessionDoRead_cases hread with ⟨rfl, -⟩ | ⟨bs, l, b, hr, hne, -, rfl, rfl, hq, rfl, hres⟩
  · exact ⟨v₁, h, .refl v₁⟩
  cases res with
  | false => exact ⟨v₁, h, .refl v₁⟩
  | true =>
    dsimp only at h ⊢
    rw [if_pos rfl] at h ⊢
    obtain ⟨⟨w₂, t⟩, hact, h⟩ := bind_ok.mp h
    obtain ⟨q, hact'⟩ := performSessionActionWith_postgresql hG hact (ha l b ((lineOf_eq hr hne).trans hq))
    rw [hact', ok_bind]
    dsimp only at h ⊢
    rw [show (t.filled t.uid q).state = t.state from rfl, closeSession_filled]
    split at h
    · rename_i herr
      rw [if_pos herr]
      exact ⟨v₁, h, .refl v₁⟩
    · rename_i herr
      rw [if_neg herr]
      cases h
      exact ⟨_, rfl, (SameButPrivileges.refl v).set ⟨q, rfl⟩⟩

theorem acceptClient_same {sd : Nat} {uid privileges : Int} (hsame : SameButPrivileges v u)
    (h : acceptClient P v sd uid privileges = .ok v₁) :
    ∃ u₁, acceptClient P u sd uid privileges = .ok u₁ ∧ SameButPrivileges v₁ u₁ := by
  unfold acceptClient acceptClientWith at h ⊢
  rw [hsame.world]
  split at h
  · cases h
  rename_i hfree
  split at h
  · cases h
  rename_i hlt
  obtain ⟨⟨w₁, s⟩, hnew, h⟩ := bind_ok.mp h
  cases h
  rw [if_neg hfree, if_neg hlt]
  dsimp only
  rw [hnew]
  exact ⟨_, rfl, hsame.set ⟨s.privileges, rfl⟩⟩

theorem Served.same {p : Int} (h : Served P ans w s s.uid p w₁ x x') : ∃ q, x' = x.map fun s => s.filled s.uid q := by
  cases h with
  | gone => exact ⟨0, rfl⟩
  | idle => exact ⟨p, rfl⟩
  | @assigned _ _ _ t => exact ⟨t.privileges, rfl⟩
  | kept hx ha _ => exact ⟨p, by rw [Option.map_some, kept_uid hx ha]⟩

/-- **One step** of the two servers. -/
theorem stepOver_postgresql (hG : G.order.Serves P G.day) (hsame : SameButPrivileges v u) (hs : Steps P v e v₁)
    (ha : Alikes G v e) : ∃ u₁, u.stepOver (.postgresql P G) P e = .ok u₁ ∧ SameButPrivileges v₁ u₁ := by
  cases e with
  | acceptFailed =>
    obtain rfl : v = v₁ := Except.ok.inj hs
    exact ⟨u, rfl, hsame⟩
  | accept sd uid privileges => exact acceptClient_same hsame hs
  | ready i ans =>
    cases hc : v.connections i with
    | none =>
      obtain rfl := hs.empty hc
      refine ⟨u, ?_, hsame⟩
      simp only [Server.stepOver, Server.stepWith, hsame.none hc]
    | some s =>
      obtain ⟨p, hc'⟩ := hsame.some hc
      obtain ⟨w₁, x, x', rfl, hstep, hserved⟩ := serveSession_filled ((steps_ready_iff hc).mp hs) hc hc' hsame.world
        fun _ _ _ => rfl
      obtain ⟨u₁, hu₁, hsame₁⟩ := serveSessionWith_postgresql hG hstep fun line rest hl => by
        rw [hsame.world]
        exact (ha s line rest hc hl).filled
      refine ⟨u₁, ?_, (hsame.set hserved.same).trans hsame₁⟩
      simp only [Server.stepOver, Server.stepWith, hc']
      exact hu₁

end

/-- **Either database.** A run over `db_sqlite.c` whose steps ask the databases alike is one over
`db_postgresql.c`: the same events are accepted, and give the same tables, the same storage, the same messages to
every client in the same order, and the same sessions but for a field that nothing reads. -/
theorem databases_alike {P : Platform} {G : Postgres} {disk : Bytes → Option Bytes} {users : UserTable}
    {files : FileTable} {es : List Event} {v : Server} (hG : G.order.Serves P G.day)
    (r : Run (Guarded (Alikes G) (Steps P)) (.start disk users files) es v) :
    ∃ u, Run (fun a e b => a.stepOver (.postgresql P G) P e = .ok b) (.start disk users files) es u ∧
      SameButPrivileges v u := by
  refine r.follow (E := Eq) ?_ (.refl _) (List.forall₂_refl es)
  intro v e v₁ u e' hsame he hs
  rw [← he]
  exact stepOver_postgresql hG hsame hs.2 hs.1

def byId : Sqlite where
  like _ _ := false
  orderBy _ _ l := l.insertionSort fun a b => (a.1 .id).toInteger ≤ (b.1 .id).toInteger
  perm _ _ _ := List.perm_insertionSort ..

theorem byId_serves (day : Bytes) : byId.Serves default day where
  like _ _ _ _ := rfl
  sort l := by
    unfold orderById
    symm
    apply List.map_insertionSort
    exact fun _ _ _ _ => Iff.rfl

def zeroPostgres : Postgres where
  order := byId
  day := []
  updated := .notTuples
  memory :=
    { name := none, path := none, description := none, permissions := 0, size := 0, rest := 0, packageRest := 0, hash := 0,
      id := 0, ownerId := 0 }

/-! ### Bob registers, and lists the file of alice -/

def registersAndLists : List Event :=
  [.accept 4 0 0, .ready 4 { read := some (ascii "register bob 1234 b@c\n"), insert := some 2 },
    .ready 4 { read := some (ascii "file list\n") }]

def RegistersOrLists (v : Server) : Event → Prop
  | .ready i ans => v.world.files.rows = publicRow.rows ∧ ans.answered ∧ ans.committed ∧ ∀ s ∈ v.connections i,
    s.state ≠ .opUploadDescription ∧ (s.state = .opLoginUsr → v.world.users.rows = UserTable.alice.rows) ∧
    (lineOf ans s).map (·.1) ∈ [some (ascii "register bob 1234 b@c\n"), some (ascii "file list\n")]
  | _ => True

instance (v : Server) : ∀ e, Decidable (RegistersOrLists v e)
  | .accept .. => .isTrue trivial
  | .acceptFailed => .isTrue trivial
  | .ready .. => by unfold RegistersOrLists; infer_instance

theorem scanArgs_two {ans : Answers} {l a b r m : Bytes} (h : scanWord l = some (a, r)) (ha : a.length < argLen)
    (h' : scanWord r = some (b, m)) (hb : b.length < argLen) : scanArgs ans l = .ok (2, a, b) := by
  simp only [scanArgs, h, h', if_neg (Nat.not_le.mpr ha), if_neg (Nat.not_le.mpr hb)]

theorem fileCommand_register {ans : Answers} : fileCommand ans (ascii "register bob 1234 b@c\n") = none := by
  have hscan : scanArgs ans (ascii "register bob 1234 b@c\n") = .ok (2, ascii "register", ascii "bob") :=
    scanArgs_two (r := ascii " bob 1234 b@c\n") (m := ascii " 1234 b@c\n") (by decide +kernel) (by decide)
      (by decide +kernel) (by decide)
  simp only [fileCommand, hscan]
  exact if_neg (by decide +kernel)

theorem fileCommand_list {ans : Answers} : fileCommand ans (ascii "file list\n") = some (ascii "list") := by
  have hscan : scanArgs ans (ascii "file list\n") = .ok (2, ascii "file", ascii "list") :=
    scanArgs_two (r := ascii " list\n") (m := ascii "\n") (by decide +kernel) (by decide) (by decide +kernel) (by decide)
  simp only [fileCommand, hscan]
  exact if_pos ⟨trivial, by decide⟩

theorem RegistersOrLists.alikes {v : Server} {e : Event} (h : RegistersOrLists v e) : Alikes zeroPostgres v e := by
  cases e with
  | accept | acceptFailed => trivial
  | ready i ans =>
    obtain ⟨hfiles, hans, hcom, h⟩ := h
    intro s line rest hc hl
    obtain ⟨hst, husers, hline⟩ := h s hc
    rw [hl] at hline
    have hline : line = ascii "register bob 1234 b@c\n" ∨ line = ascii "file list\n" := by simpa using hline
    have hint : (v.world.tables []).Int64 := by
      intro r hr c n hn
      have hr : r ∈ v.world.files.rows.map (·.columns []) := hr
      rw [hfiles] at hr
      obtain rfl := List.mem_singleton.mp hr
      cases c <;> cases hn <;> decide
    have hpage : (pageOf (ascii "file list\n")).limit = 15 ∧ (pageOf (ascii "file list\n")).offset = 0 := by
      decide +kernel
    cases hs : s.state with
    | opLoginUsr =>
      simp only [AskedAlike]
      intro args hargs
      have hbob : args = ⟨ascii "bob", ascii "1234", ascii "b@c"⟩ := by
        have hscan : (scanRegister (ascii "register bob 1234 b@c\n")).toOption =
          some (some ⟨ascii "bob", ascii "1234", ascii "b@c"⟩) ∧
            (scanRegister (ascii "file list\n")).toOption = some none := by decide +kernel
        rcases hline with rfl | rfl
        · rw [hargs] at hscan
          exact Option.some.inj (Option.some.inj hscan.1)
        · rw [hargs] at hscan
          cases hscan.2
      subst hbob
      refine ⟨hans, hcom, ?_, ?_⟩
      · rw [World.HasName, husers hs]
        decide
      · rw [World.HasEmail, husers hs]
        decide
    | opWait =>
      simp only [AskedAlike]
      rcases hline with rfl | rfl
      · simp [fileCommand_register]
      · rw [fileCommand_list]
        refine ⟨fun _ _ => ⟨by rw [hpage.1]; decide, hpage.2.ge, hint⟩, fun h => ?_⟩
        exact absurd h (by decide +kernel)
    | opUploadDescription => exact absurd hs hst
    | _ => simp only [AskedAlike]

theorem databases_alike_lists : ∃ v u,
    Run (Steps default) (.start (fun _ => none) UserTable.alice publicRow) registersAndLists v ∧
    Run (fun a e b => a.stepOver (.postgresql default zeroPostgres) default e = .ok b)
      (.start (fun _ => none) UserTable.alice publicRow) registersAndLists u ∧
      SameButPrivileges v u := by
  have h : (Server.exec RegistersOrLists default (.start (fun _ => none) UserTable.alice publicRow)
      registersAndLists).isSome := by
    decide +kernel
  obtain ⟨v, hv⟩ := Option.isSome_iff_exists.mp h
  have hrun := Server.exec_run hv
  obtain ⟨u, hu⟩ := databases_alike (byId_serves _) (hrun.mono fun _ _ _ h => ⟨h.1.alikes, h.2⟩)
  exact ⟨v, u, hrun.unguard, hu⟩

end BbsServer
