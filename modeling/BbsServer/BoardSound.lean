import BbsServer.AuthSound
import BbsServer.Board
import BbsServer.ExclusiveSound
import BbsServer.Lib.Simulation

/-!
# The server is a bulletin board

The tables, the storage folder and the sessions seen as a `Board`. Every event is one move of the visitor in its
slot, or none that the board sees (`board_simulates`), so the files of the library stay as they were handed in.
-/

namespace BbsServer

open CStr Function Runs

def UserRow.member (r : UserRow) : Member Bytes := ⟨r.id, r.username, r.password, r.email⟩

def Session.ident (s : Session) : Ident Bytes := ⟨s.uname.getD [], s.uid⟩

def SFile.draft (f : SFile) : Draft Bytes := ⟨f.name.getD [], f.size, f.permissions⟩

def contentOf (disk : Bytes → Option Bytes) (p : Option Bytes) : Bytes := (p.bind disk).getD []

def FileRow.entry (disk : Bytes → Option Bytes) (r : FileRow) : Entry Bytes UInt8 :=
  ⟨r.id, r.userId, ⟨r.name, r.size, r.permissions⟩, r.description, contentOf disk (some r.path)⟩

def Session.visit (disk : Bytes → Option Bytes) (s : Session) : Visit Bytes UInt8 :=
  match s.state with
  | .opLoginUsr => .unknown
  | .opLoginPss => .asked (s.uname.getD [])
  | .opWait => .inside s.ident
  | .opUpload | .opUploadDescription =>
    .giving s.ident ((s.file.map SFile.draft).getD ⟨[], 0, 0⟩) (contentOf disk s.path)
  | .opDownload | .opDownloadWaitConfirmPackage => .fetching s.ident ((s.file.map (·.id)).getD 0)
  | _ => .lost

def Server.board (v : Server) : Board Bytes UInt8 where
  members := v.world.users.rows.map UserRow.member
  library := v.world.files.rows.map (FileRow.entry v.world.disk)
  visits := fun i => (v.connections i).map (Session.visit v.world.disk)

def guestName : Bytes := ascii "anonymous"

def Move.Asked (P : Platform) (ans : Answers) (s : Session) (line : Option Bytes) : Move Bytes UInt8 → Prop
  | .arrive _ => False
  | .ask _ n => line = some n
  | .enter _ m => ∃ l ∈ line, m.secret = stringToSHA256 P l
  | .guest .. => ∃ l ∈ line, AnonymousLine l
  | .join _ m => ans.committed = true ∧ ∃ l ∈ line, ∃ row, m = UserRow.member row ∧ AsksRow P ans l row
  | .lapse _ m => ans.committed = false ∧ ∃ l ∈ line, ∃ row, m = UserRow.member row ∧ AsksRow P ans l row
  | .give _ d => ∃ l ∈ line, AcceptsUpload ans l ∧
    ∃ perm, receiveArgs ans l = some (d.name, d.size, perm) ∧ d.permissions = toChar perm
  | .hand _ more => line = none ∧ ∃ f ∈ s.file, more = uploadOut ans f
  | .publish _ e => ∃ l ∈ line, e.note = (describedAs ans s l).getD [] ∧ ans.insert = some e.key
  | .fetch _ e => ∃ l ∈ line, fileCommand ans l = some (ascii "download") ∧ sendName l = some e.draft.name
  | .refuse _ | .withdraw _ | .done _ | .lose _ | .leave _ => True

/-- What an event asks of the visitor in its slot, in the state of the server before it. -/
inductive Move.Of (P : Platform) : Move Bytes UInt8 → Server × Event → Prop
  | arrives {v i uid privileges} : Of P (.arrive i) (v, .accept i uid privileges)
  | transfers {v i ans s m} : v.connections i = some s → s.state = .opUpload ∨ s.state = .opDownload → m.visitor = i →
    m.Asked P ans s none → Of P m (v, .ready i ans)
  | asks {v i ans s l rest m} : v.connections i = some s → lineOf ans s = some (l, rest) → m.visitor = i →
    m.Asked P ans { s with buf := rest } (some l) → Of P m (v, .ready i ans)
  | leaves {v i ans s} : v.connections i = some s → Of P (.leave i) (v, .ready i ans)

section
variable {P : Platform} {ans : Answers} {w w' : World} {s s' t : Session} {line : Option Bytes} {v v' : Server}
  {e : Event} {i j : Nat} {disk disk' : Bytes → Option Bytes}

/-! ## What a session is seen as -/

theorem visit_congr (h : s.uploads → contentOf disk' s.path = contentOf disk s.path) :
    s.visit disk' = s.visit disk := by
  unfold Session.visit
  cases hst : s.state with
  | opUpload => dsimp only; rw [h (.inl hst)]
  | opUploadDescription => dsimp only; rw [h (.inr hst)]
  | _ => rfl

theorem visit_giving (h : s.uploads) :
    s.visit disk = .giving s.ident ((s.file.map SFile.draft).getD ⟨[], 0, 0⟩) (contentOf disk s.path) := by
  rcases h with hst | hst <;> simp [Session.visit, hst]

theorem visit_fetching (h : s.state = .opDownload ∨ s.state = .opDownloadWaitConfirmPackage) :
    s.visit disk = .fetching s.ident ((s.file.map (·.id)).getD 0) := by
  rcases h with hst | hst <;> simp [Session.visit, hst]

theorem visit_inside (h : s.state = .opWait) : s.visit disk = .inside s.ident := by simp [Session.visit, h]

theorem visit_waits (hs : s.state = .opWait) (ht : t.state = .opWait) (hn : t.uname = s.uname) (hid : t.uid = s.uid) :
    t.visit disk' = s.visit disk := by
  rw [visit_inside hs, visit_inside ht, Session.ident, Session.ident, hn, hid]

theorem visit_unknown (h : s.state = .opLoginUsr) : s.visit disk = .unknown := by simp [Session.visit, h]

theorem visit_asked (h : s.state = .opLoginPss) : s.visit disk = .asked (s.uname.getD []) := by
  simp [Session.visit, h]

theorem visits_some (hc : v.connections i = some s) : v.board.visits i = some (s.visit v.world.disk) :=
  congrArg (Option.map _) hc

/-! ## Everybody else -/

theorem contentOf_congr {p : Option Bytes} (h : ∀ q, p = some q → disk' q = disk q) :
    contentOf disk' p = contentOf disk p := by
  unfold contentOf
  cases p with
  | none => rfl
  | some q => rw [Option.bind_some, Option.bind_some, h q rfl]

theorem Steps.path_disk (h : Wf v) (hs : Steps P v e v') (he : ¬ e.At j) (ht : v.connections j = some t)
    (hup : t.uploads) : ∀ q, t.path = some q → v'.world.disk q = v.world.disk q := by
  intro q hq
  obtain ⟨g, d, -, hp, -, -, -, hdisk⟩ := h.upload_path ht hup
  obtain rfl : storagePath g.hash = q := Option.some.inj (hp.symm.trans hq)
  have hact : ∀ {i ans s b st line w' s'}, i ≠ j → v.connections i = some s →
      Did P ans (v.world.log st) { s with buf := b } line w' s' → w'.disk (storagePath g.hash) = _ :=
    fun hij hc hd => hd.kept_disk h hc hdisk fun hst => hp ▸ h.path_ne hij hc ht (.inl hst) hup
  cases step_stepped hs with
  | accepted _ _ htk => rw [Server.set_world, htk.disk]
  | idle => rfl
  | transfer hc _ _ hx => exact hact he hc (performSessionAction_did hx)
  | line hc _ _ _ _ _ _ hx =>
    have := hact he hc (performSessionAction_did hx)
    split
    · rw [Server.set_world, closeSession_disk, this]
    · exact this
  | closed => rw [Server.set_world, closeSession_disk]

theorem Steps.visits_elsewhere (h : Wf v) (hs : Steps P v e v') (he : ¬ e.At j) :
    v'.board.visits j = v.board.visits j := by
  unfold Server.board
  dsimp only
  rw [hs.elsewhere he]
  cases ht : v.connections j with
  | none => rfl
  | some t =>
    exact congrArg some (visit_congr fun hup => contentOf_congr (hs.path_disk h he ht hup))

theorem Steps.entries (h : Wf v) (hx : Exclusive v) (hs : Steps P v e v') :
    v.world.files.rows.map (FileRow.entry v'.world.disk) = v.board.library := by
  refine List.map_congr_left fun r hr => ?_
  obtain ⟨c, hk⟩ := hx.stored hr
  have hsame : contentOf v'.world.disk (some r.path) = contentOf v.world.disk (some r.path) :=
    contentOf_congr fun q hq => by
      cases hq
      rw [hk.content, (hk.step h hs).content]
  unfold FileRow.entry
  rw [hsame]

@[simp] theorem At_accept {sd : Nat} {uid privileges : Int} :
    (Event.accept sd uid privileges).At j ↔ sd = j := Iff.rfl
@[simp] theorem At_ready {ans : Answers} : (Event.ready i ans).At j ↔ i = j := Iff.rfl

theorem board_visits (h : Wf v) (hs : Steps P v e v') (he : ∀ j, e.At j → j = i) :
    v'.board.visits = update v.board.visits i ((v'.connections i).map (Session.visit v'.world.disk)) := by
  funext j
  by_cases hj : j = i
  · subst hj
    rw [update_self]
    rfl
  · rw [update_of_ne hj]
    exact hs.visits_elsewhere h fun hat => hj (he j hat)

theorem Steps.library (h : Wf v) (hx : Exclusive v) (hs : Steps P v e v') (hf : v'.world.files = v.world.files) :
    v'.board.library = v.board.library := by
  rw [← hs.entries h hx, ← hf]
  rfl

theorem board_members (hu : v'.world.users = v.world.users) : v'.board.members = v.board.members := by
  unfold Server.board
  rw [hu]

/-! ## Fresh keys -/

theorem UserTable.insert_fresh {t t' : UserTable} {r : UserRow} (h : t.insert r = some t') :
    r.id ∉ t.rows.map (·.id) ∧ r.username ∉ t.rows.map (·.username) ∧ r.email ∉ t.rows.map (·.email) := by
  unfold UserTable.insert at h
  split at h
  · rename_i hc
    exact hc.1
  · cases h

theorem FileTable.insert_fresh {t t' : FileTable} {r : FileRow} (h : t.insert r = some t') :
    r.id ∉ t.rows.map (·.id) := by
  unfold FileTable.insert at h
  split at h
  · rename_i hc
    exact hc.1
  · cases h

/-! ## One action -/

theorem mem_joined_files {r : FileRow} (h : r ∈ (joined w).map (·.1)) : r ∈ w.files.rows := by
  obtain ⟨x, hx, rfl⟩ := List.mem_map.mp h
  obtain ⟨r, hr, hx⟩ := List.mem_flatMap.mp hx
  obtain ⟨u, -, rfl⟩ := List.mem_map.mp hx
  exact hr

theorem sendRow_entry {l : Bytes} {sf : SFile} (h : sendRow ans w l = some sf) :
    fileCommand ans l = some (ascii "download") ∧ ∃ r ∈ w.files.rows, sendName l = some r.name ∧ r.id = sf.id := by
  obtain ⟨hcmd, n, hn, hg⟩ := sendRow_some h
  refine ⟨hcmd, ?_⟩
  unfold dbGetFile at hg
  dsimp only at hg
  split at hg
  · obtain ⟨r, hr, rfl⟩ := Option.map_eq_some_iff.mp hg
    obtain ⟨hr, hname⟩ := List.mem_filter.mp (List.mem_of_getLast? hr)
    have hname : n ≠ [] ∧ r.name = n := by simpa using hname
    exact ⟨r, mem_joined_files hr, hname.2 ▸ hn, rfl⟩
  · cases hg

/-- An action that adds no row is one move, or none. The log and the line buffer do not matter. -/
theorem Did.turns (hd : Did P ans w s line w' s') (hu : w'.users = w.users) (hf : w'.files = w.files)
    (hlive : s'.state = .err → s.state = .err ∨ s.state = .opDownload)
    (hup : s.uploads → ∃ p d, s.path = some p ∧ s.fd = some d ∧ w.fds d = some (.file p) ∧ (w.disk p).isSome)
    {b : Board Bytes UInt8} (hb : b.visits i = some (s.visit w.disk))
    (hmem : b.members = w.users.rows.map UserRow.member)
    (hlib : ∀ r ∈ w.files.rows, ∃ e ∈ b.library, e.key = r.id ∧ e.draft.name = r.name)
    (hline : s.state = .opUpload → line = none) (hask : s.state = .opWait → ∃ l, line = some l) :
    s'.visit w'.disk = s.visit w.disk ∨ ∃ m, m.visitor = i ∧ m.Asked P ans s line ∧
      Board.Step guestName b m (b.turn i (some (s'.visit w'.disk))) := by
  cases hd with
  | talked _ _ _ _ ht => exact .inl (by rw [ht.disk])
  | left hst => exact absurd (hlive rfl) (by rcases hst with hst | hst <;> simp [hst])
  | registered _ _ _ hins ht =>
    have hrows := (UserTable.insert_rows hins).1
    rw [← hu, ht.users] at hrows
    simp at hrows
  | rolledBack hst hl _ hins hlost _ hasks =>
    rw [visit_unknown hst] at hb
    obtain ⟨hid, hname, hemail⟩ := UserTable.insert_fresh hins
    refine .inr ⟨.lapse i (UserRow.member _), rfl, ⟨hlost, _, hl, _, rfl, hasks⟩, ?_⟩
    exact .lapse hb ⟨by simpa [hmem, UserRow.member] using hid, by simpa [hmem, UserRow.member] using hname,
      by simpa [hmem, UserRow.member] using hemail⟩
  | anonymous hst hl hx hr ha =>
    rw [visit_unknown hst] at hb
    exact .inr ⟨.guest i ⟨guestName, s.uid⟩, rfl, ⟨_, hl, hx, hr, ha⟩, .guest hb rfl⟩
  | @named l _ hst hl =>
    rw [visit_unknown hst] at hb
    exact .inr ⟨.ask i l, rfl, hl, .ask hb⟩
  | welcomed hst hl hname hauth =>
    obtain ⟨row, ⟨hrow, hn, hpass⟩, hid⟩ := dbUserAuth_row hauth
    rw [visit_asked hst, ← hn] at hb
    refine .inr ⟨.enter i row.member, rfl, ⟨_, hl, hpass⟩, ?_⟩
    have : Board.Step guestName _ _ _ := .enter hb (hmem ▸ List.mem_map.mpr ⟨row, hrow, rfl⟩)
    rw [Session.visit]
    dsimp only
    rw [← hid]
    simp only [Session.ident, ← hn]
    exact this
  | loginAgain hst =>
    rw [visit_asked hst] at hb
    exact .inr ⟨.refuse i, rfl, trivial, .refuse hb⟩
  | dropped hst =>
    refine .inl (visit_waits hst ((clearFileFromSess_state ..).trans hst) ?_ ?_)
    · unfold clearFileFromSess
      split <;> rfl
    · unfold clearFileFromSess
      split <;> rfl
  | refused hst => exact .inl (visit_waits hst rfl rfl rfl)
  | @accepted name size perm hash d _ _ hst ha _ hc ht =>
    rw [visit_inside hst] at hb
    obtain ⟨l, hl⟩ : ∃ l, line = some l := hask hst
    refine .inr ⟨.give i ⟨name, size, toChar perm⟩, rfl, ⟨l, hl, (ha l hl).1, perm, (ha l hl).2, rfl⟩, ?_⟩
    have hcont : w'.disk (storagePath hash) = some [] := by rw [ht.disk]; exact World.create_content hc
    rw [visit_giving (.inl rfl)]
    have : contentOf w'.disk (some (storagePath hash)) = [] := by rw [contentOf, Option.bind_some, hcont]; rfl
    show Board.Step _ _ _ (b.turn i (some (.giving _ _ (contentOf w'.disk (some (storagePath hash))))))
    rw [this]
    exact .give hb
  | notFound hst | notOpened hst | damaged hst => exact .inl (visit_waits hst hst rfl rfl)
  | @sending l sf d _ hst hl hrow =>
    obtain ⟨hcmd, r, hr, hname, hid⟩ := sendRow_entry hrow
    obtain ⟨e, he, hkey, hn⟩ := hlib r hr
    rw [visit_inside hst] at hb
    refine .inr ⟨.fetch i e, rfl, ⟨l, hl, hcmd, hn ▸ hname⟩, ?_⟩
    have : Board.Step guestName _ _ _ := .fetch hb he
    rw [hkey, hid] at this
    exact this
  | moved hst hfile hst' =>
    left
    rw [visit_fetching hst, visit_fetching hst', hfile]
    rfl
  | released hst _ hst' =>
    rw [visit_fetching hst] at hb
    rcases hst' with rfl | ⟨rfl, -⟩
    · exact .inr ⟨.done i, rfl, trivial, .done hb⟩
    · exact .inr ⟨.lose i, rfl, trivial, .lose hb⟩
  | ended hst =>
    rcases hst with ⟨hst, -⟩ | hst
    · rw [visit_fetching (.inl hst)] at hb
      exact .inr ⟨.done i, rfl, trivial, .done hb⟩
    · rw [visit_giving (.inl hst)] at hb
      exact .inr ⟨.withdraw i, rfl, trivial, .withdraw hb⟩
  | removed hst | writeFailed hst =>
    rw [visit_giving (.inl hst)] at hb
    exact .inr ⟨.withdraw i, rfl, trivial, .withdraw hb⟩
  | @stored f out rest pr st _ hst hfile _ _ _ _ hst' ht hout =>
    obtain ⟨p, d, hp, hd, hfd, hdisk⟩ := hup (.inl hst)
    obtain ⟨c, hc⟩ := Option.isSome_iff_exists.mp hdisk
    rw [visit_giving (.inl hst), hfile] at hb
    have hcont : contentOf w'.disk s.path = contentOf w.disk s.path ++ out := by
      rw [contentOf, contentOf, hp, Option.bind_some, Option.bind_some, ht.disk, World.uploaded_disk,
        if_pos (by rw [hd]; exact hfd), hc]
      rfl
    have hvisit : ∀ g : SFile, g.draft = f.draft → g.path = f.path →
        ({ s with file := some g, state := st } : Session).visit w'.disk =
          .giving s.ident f.draft (contentOf w.disk s.path ++ out) := by
      intro g hg hgp
      refine (visit_giving (hst'.imp id And.left)).trans ?_
      rw [← hcont, Session.path, Session.path, hfile]
      show Visit.giving _ g.draft (contentOf _ g.path) = _
      rw [hg, hgp]
      rfl
    rw [hvisit { f with rest, packageRest := pr } rfl rfl]
    exact .inr ⟨.hand i out, rfl, ⟨hline hst, f, hfile, hout⟩, .hand hb⟩
  | @described l f dsc bf hst _ _ hfile =>
    refine .inl (Eq.trans (visit_giving (.inr hst)) (Eq.trans ?_ (visit_giving (.inr hst)).symm))
    rw [Session.path, Session.path, hfile]
    rfl
  | saved _ _ _ _ _ _ _ _ hins =>
    have hrows := (FileTable.insert_rows hins).1
    rw [← hf, World.closeFd_files, World.log_files] at hrows
    simp at hrows
  | notSaved hst =>
    rw [visit_giving (.inr hst)] at hb
    exact .inr ⟨.withdraw i, rfl, trivial, .withdraw hb⟩

/-! ## New rows -/

structure Joins (P : Platform) (ans : Answers) (w : World) (s : Session) (line : Option Bytes) (row : UserRow)
    (w' : World) (s' : Session) : Prop where
  before : s.state = .opLoginUsr
  after : s'.state = .opWait
  uname : s'.uname = some row.username
  uid : s'.uid = row.id
  users : w.users.insert row = some w'.users
  files : w'.files = w.files
  asks : ans.committed = true ∧ ∃ l ∈ line, AsksRow P ans l row

/-- The action adds a file, as the session has received it. -/
structure Publishes (ans : Answers) (w : World) (s : Session) (line : Option Bytes) (row : FileRow) (w' : World)
    (s' : Session) : Prop where
  before : s.state = .opUploadDescription
  after : s'.state = .opWait
  file : ∃ f, s.file = some f ∧ f.draft = ⟨row.name, row.size, row.permissions⟩ ∧ row.hash = f.hash
  userId : row.userId = s.uid
  ident : s'.ident = s.ident
  users : w'.users = w.users
  files : w.files.insert row = some w'.files
  asks : ∃ l ∈ line, row.description = (describedAs ans s l).getD [] ∧ ans.insert = some row.id

theorem Did.tables (hd : Did P ans w s line w' s') : (w'.users = w.users ∧ w'.files = w.files) ∨
    (∃ row, Joins P ans w s line row w' s') ∨ ∃ row, Publishes ans w s line row w' s' := by
  cases hd with
  | @registered l row _ _ hst hl _ hins ht hasks hcom =>
    exact .inr (.inl ⟨row, hst, rfl, rfl, rfl, by rw [ht.users]; exact hins, ht.files, hcom, l, hl, hasks⟩)
  | @saved l f dsc _ name _ row _ hst hl _ hf _ hn hi hrow hins hdsc =>
    refine .inr (.inr ⟨row, hst, rfl, ⟨f, hf, ?_, by rw [hrow]⟩, by rw [hrow], rfl, by simp, by simpa using hins,
      l, hl, by rw [hrow]; exact hdsc, by rw [hrow]; exact hi⟩)
    rw [SFile.draft, hn, hrow]
    rfl
  | dropped _ _ ht =>
    left
    unfold clearFileFromSess
    split <;> simp [ht.users, ht.files]
  | refused _ _ hw ht =>
    left
    rcases hw with rfl | rfl | ⟨rfl, -⟩ <;> simp [ht.users, ht.files]
  | accepted _ _ _ hc ht =>
    obtain ⟨-, rfl⟩ := World.create_ok hc
    exact .inl ⟨ht.users, ht.files⟩
  | damaged _ _ _ _ ho _ ht =>
    obtain ⟨-, rfl⟩ := World.openRead_ok ho
    exact .inl ⟨ht.users, ht.files⟩
  | sending _ _ _ _ ho _ =>
    obtain ⟨-, rfl⟩ := World.openRead_ok ho
    exact .inl ⟨rfl, rfl⟩
  | released _ _ _ ht => exact .inl ⟨by simp [ht.users], by simp [ht.files]⟩
  | removed _ _ _ _ hw =>
    left
    rcases hw with ⟨-, rfl⟩ | ⟨-, out, -, rfl⟩ <;> simp [World.uploaded]
  | writeFailed _ _ _ _ ht | stored _ _ _ _ _ _ _ ht =>
    exact .inl ⟨by simp [ht.users, World.uploaded], by simp [ht.files, World.uploaded]⟩
  | notSaved => exact .inl ⟨by simp, by simp⟩
  | notFound | ended | described => exact .inl ⟨rfl, rfl⟩
  | talked _ _ _ _ ht | left _ _ _ ht | rolledBack _ _ _ _ _ ht | anonymous _ _ _ _ _ ht | named _ _ _ ht
  | welcomed _ _ _ _ ht | loginAgain _ ht | notOpened _ _ _ _ ht | moved _ _ _ ht => exact .inl ⟨ht.users, ht.files⟩

theorem Did.upload_live (hd : Did P ans w s line w' s') (hst : s.state = .opUpload) : s'.state ≠ .err := by
  cases hd with
  | stored _ _ _ _ _ _ hst' => rcases hst' with rfl | ⟨rfl, -⟩ <;> simp
  | removed | writeFailed | ended => simp [Session.cleared]
  | talked h => exact absurd hst h
  | moved h => rcases h with h | h <;> simp [h] at hst
  | released h => rcases h with h | h <;> simp [h] at hst
  | _ => simp_all

/-! ## One event -/

structure Sound (v : Server) : Prop where
  wf : Wf v
  exclusive : Exclusive v

theorem Sound.step (h : Sound v) (hs : Steps P v e v') : Sound v' := ⟨h.wf.step hs, h.exclusive.step h.wf hs⟩

theorem Wf.receives (h : Wf v) (hc : v.connections i = some s) (hup : s.uploads) :
    ∃ p d, s.path = some p ∧ s.fd = some d ∧ v.world.fds d = some (.file p) ∧ (v.world.disk p).isSome := by
  obtain ⟨f, d, -, hp, -, hd, hfd, hdisk⟩ := h.upload_path hc hup
  exact ⟨_, d, hp, hd, hfd, hdisk⟩

section
variable (h : Sound v) (hs : Steps P v e v') (he : ∀ j, e.At j → j = i)
include h hs he

/-- An event in slot `i` that adds no row is the turn of its visitor. -/
theorem board_turned (hu : v'.world.users = v.world.users) (hf : v'.world.files = v.world.files) :
    v'.board = v.board.turn i ((v'.connections i).map (Session.visit v'.world.disk)) :=
  Board.ext (board_members hu) (hs.library h.wf h.exclusive hf) (board_visits h.wf hs he)

variable {st : Act} {b : Bytes} (hc : v.connections i = some s) (hc' : v'.connections i = some s')
include hc hc'

theorem board_joined {row : UserRow} (hj : Joins P ans (v.world.log st) { s with buf := b } line row v'.world s') :
    Board.Step guestName v.board (.join i row.member) v'.board := by
  obtain ⟨hid, hname, hemail⟩ := UserTable.insert_fresh hj.users
  have hst : s.state = .opLoginUsr := hj.before
  have hvis := visits_some hc
  rw [visit_unknown hst] at hvis
  have hstep : Board.Step guestName _ (.join _ row.member) _ := .join hvis
    ⟨by simpa [Server.board, UserRow.member] using hid, by simpa [Server.board, UserRow.member] using hname,
      by simpa [Server.board, UserRow.member] using hemail⟩
  have hs' : s'.visit v'.world.disk = .inside row.member.ident := by
    rw [visit_inside hj.after, Session.ident, hj.uname, hj.uid]
    rfl
  have hv' : v'.board = (v.board.addMember row.member).turn i (some (.inside row.member.ident)) := by
    refine Board.ext ?_ (hs.library h.wf h.exclusive hj.files) ?_
    · unfold Server.board
      rw [(UserTable.insert_rows hj.users).1]
      simp [Board.addMember]
    · rw [board_visits h.wf hs he, hc', Option.map_some, hs']
      rfl
  rwa [hv']

theorem board_published {row : FileRow} (hp : Publishes ans (v.world.log st) { s with buf := b } line row v'.world s')
    (hd : Did P ans (v.world.log st) { s with buf := b } line v'.world s') :
    Board.Step guestName v.board (.publish i (row.entry v'.world.disk)) v'.board := by
  have hst : s.state = .opUploadDescription := hp.before
  obtain ⟨f, hf, hdraft, hhash⟩ := hp.file
  obtain ⟨p, d, hpath, -, -, hdisk⟩ := h.wf.receives hc (.inr hst)
  obtain ⟨g, -, hg, hgp, -⟩ := h.wf.upload_path hc (.inr hst)
  obtain rfl : g = f := Option.some.inj (hg.symm.trans hf)
  rw [← hhash] at hgp
  obtain rfl : row.path = p := Option.some.inj (hgp.symm.trans hpath)
  -- the last line writes nothing
  have hcont : contentOf v'.world.disk (some row.path) = contentOf v.world.disk s.path := by
    rw [hpath]
    refine contentOf_congr fun q hq => ?_
    cases hq
    exact hd.disk hdisk fun hup => by rw [hp.before] at hup; cases hup
  have hvis := visits_some hc
  rw [visit_giving (.inr hst), show s.file = some g from hf, Option.map_some, Option.getD_some, hdraft,
    ← hcont] at hvis
  have hstep : Board.Step guestName _ (.publish _ (row.entry v'.world.disk)) _ := .publish hvis hp.userId
    (by simpa [Server.board, FileRow.entry] using FileTable.insert_fresh hp.files)
  have hs' : s'.visit v'.world.disk = .inside s.ident := by rw [visit_inside hp.after, hp.ident]; rfl
  have hv' : v'.board = (v.board.addEntry (row.entry v'.world.disk)).turn i (some (.inside s.ident)) := by
    refine Board.ext (board_members hp.users) ?_ ?_
    · show _ = v.board.library ++ [row.entry v'.world.disk]
      rw [← hs.entries h.wf h.exclusive]
      unfold Server.board
      rw [(FileTable.insert_rows hp.files).1]
      simp
    · rw [board_visits h.wf hs he, hc', Option.map_some, hs']
      rfl
  rwa [hv']

theorem board_acted (hd : Did P ans (v.world.log st) { s with buf := b } line v'.world s')
    (hlive : s'.state = .err → s.state = .err ∨ s.state = .opDownload) (hline : s.state = .opUpload → line = none)
    (hask : s.state = .opWait → ∃ l, line = some l) :
    v'.board = v.board ∨ ∃ m, m.visitor = i ∧ m.Asked P ans { s with buf := b } line ∧
      Board.Step guestName v.board m v'.board := by
  rcases hd.tables with ⟨hu, hf⟩ | ⟨row, hj⟩ | ⟨row, hp⟩
  · have hvis := visits_some hc
    have hturn := board_turned h hs he hu hf
    rw [hc'] at hturn
    rcases hd.turns hu hf hlive (fun hup => (h.wf.receives hc hup :)) hvis rfl
      (fun r hr => ⟨_, List.mem_map.mpr ⟨r, hr, rfl⟩, rfl, rfl⟩) hline hask with heq | ⟨m, hm, hof, hmove⟩
    · left
      rw [hturn, Option.map_some, heq]
      show Board.mk _ _ (update v.board.visits i (some (s.visit v.world.disk))) = v.board
      rw [← hvis, update_eq_self]
    · exact .inr ⟨m, hm, hof, hturn ▸ hmove⟩
  · obtain ⟨hcom, l, hl, hasks⟩ := hj.asks
    exact .inr ⟨.join i row.member, rfl, ⟨hcom, l, hl, row, rfl, hasks⟩, board_joined h hs he hc hc' hj⟩
  · exact .inr ⟨.publish i (row.entry v'.world.disk), rfl, hp.asks, board_published h hs he hc hc' hp hd⟩

omit hc' in
theorem board_left (hc' : v'.connections i = none) (hu : v'.world.users = v.world.users)
    (hf : v'.world.files = v.world.files) : Board.Step guestName v.board (.leave i) v'.board := by
  have hturn := board_turned h hs he hu hf
  rw [hc'] at hturn
  rw [hturn]
  exact .leave (visits_some hc)

end

/-- **The server is a board.** -/
theorem board_simulates (P : Platform) : Simulates (Steps P) (Board.Step guestName) Sound Server.board (Move.Of P) := by
  intro v e v' h hs
  have hs' := hs
  cases step_stepped hs with
  | @accepted sd uid privileges w' hfree _ ht =>
    have hnone : v.connections sd = none := by
      cases hc : v.connections sd with
      | none => rfl
      | some s =>
        have hsock := h.wf.socket hc
        rw [hfree] at hsock
        cases hsock
    have hturn := board_turned h hs' (i := sd) (fun j hj => (At_accept.mp hj).symm) ht.users ht.files
    rw [Server.set_self, Option.map_some] at hturn
    refine .inr ⟨.arrive sd, .arrives, ?_⟩
    rw [hturn]
    exact .arrive (by simp [Server.board, hnone])
  | idle => exact .inl rfl
  | @transfer i ans s w' s' hc hst _ hx =>
    have hd := performSessionAction_did hx
    have hlive : s'.state = .err → s.state = .err ∨ s.state = .opDownload := fun he => by
      rcases hst with hst | hst
      · exact absurd he (hd.upload_live hst)
      · exact .inr hst
    rcases board_acted h hs' (i := i) (fun j hj => (At_ready.mp hj).symm) hc (Server.set_self ..) hd hlive
      (fun _ => rfl)
        (fun hw => by simp [hw] at hst) with heq | ⟨m, hm, hof, hmove⟩
    · exact .inl heq
    · exact .inr ⟨m, .transfers hc hst hm hof, hmove⟩
  | @line i ans s bs l b w' s' hc h1 h2 hread hne _ hq hx =>
    have hd := performSessionAction_did hx
    have hl : lineOf ans s = some (l, b) := (lineOf_eq hread hne).trans hq
    by_cases herr : s'.state = .err
    · rw [if_pos herr] at hs' ⊢
      rcases hd.tables with ⟨hu, hf⟩ | ⟨row, hj⟩ | ⟨row, hp⟩
      · refine .inr ⟨.leave i, .leaves hc, board_left h hs' (fun j hj => (At_ready.mp hj).symm) hc (Server.set_self ..) ?_ ?_⟩
        · rw [Server.set_world, closeSession_users, hu]
          rfl
        · rw [Server.set_world, closeSession_files, hf]
          rfl
      · exact absurd (herr.symm.trans hj.after) (by decide)
      · exact absurd (herr.symm.trans hp.after) (by decide)
    · rw [if_neg herr] at hs' ⊢
      rcases board_acted h hs' (i := i) (fun j hj => (At_ready.mp hj).symm) hc (Server.set_self ..) hd
        (fun he => absurd he herr) (fun hu => absurd hu h1) (fun _ => ⟨l, rfl⟩) with heq | ⟨m, hm, hof, hmove⟩
      · exact .inl heq
      · exact .inr ⟨m, .asks hc hl hm hof, hmove⟩
  | @closed i ans s st b hc =>
    exact .inr ⟨.leave i, .leaves hc, board_left h hs' (fun j hj => (At_ready.mp hj).symm) hc (Server.set_self ..)
      (closeSession_users ..) (closeSession_files ..)⟩

end

/-! ## Whole runs -/

theorem start_sound {disk : Bytes → Option Bytes} {users : UserTable} {files : FileTable}
    (hcons : Consistent disk files) :
    Sound (.start disk users files) where
  wf := start_wf disk users files
  exclusive := by
    refine ⟨hcons.1, fun r hr => ?_⟩
    obtain ⟨c, hc⟩ := Option.isSome_iff_exists.mp (hcons.2 r hr)
    exact ⟨c, hc, fun i s hs => by cases hs⟩

theorem Sound.run {P : Platform} {v v' : Server} {es : List Event} (h : Sound v) (r : Run (Steps P) v es v') :
    Sound v' :=
  r.inv Sound (fun _ _ _ h hs => h.step hs) h

/-! ### A guest publishes a file -/

def guestPublishes : List Event :=
  [.accept 4 0 0, .ready 4 { read := some (ascii "anonymous") },
    .ready 4 { read := some (ascii "file upload \"a\" 1 0\n"), availableSpace := 1, probes := [{ opened := .fd 5 }] },
    .ready 4 { read := some (leBytes 8 0 ++ leBytes 8 1 ++ ascii "x") },
    .ready 4 { read := some (ascii "text:END:\n"), insert := some 1 }]

theorem fresh_consistent : Consistent (fun _ => none) .empty := ⟨List.nodup_nil, by simp [FileTable.empty]⟩

/-- **Every run is one of the board**, made of moves that some of its events ask for, in order. What is in the library
afterwards was there before, or has been published as its visitor had announced it, with the bytes that were
written of what it sent. -/
theorem server_follows_board {P : Platform} {disk : Bytes → Option Bytes} {users : UserTable} {files : FileTable}
    (hcons : Consistent disk files) {es : List Event} {v : Server}
    (r : Run (Steps P) (.start disk users files) es v) :
    ∃ xs ms, xs.map (·.2) = es ∧ Run (Marked (Steps P)) (.start disk users files) xs v ∧
      Run (Board.Step guestName) (Server.start disk users files).board ms v.board ∧
      List.SublistForall₂ (Move.Of P) ms xs ∧
      ∀ e ∈ v.board.library, e ∈ (Server.start disk users files).board.library ∨
        ∃ ms₁ i ms₂, ms = ms₁ ++ .publish i e :: ms₂ ∧ handedBy i ms₁ = (some e.draft, e.content) := by
  obtain ⟨xs, ms, hxs, rx, rm, hms⟩ := (board_simulates P).run (fun _ _ _ h hs => h.step hs) r (start_sound hcons)
  exact ⟨xs, ms, hxs, rx, rm, hms, fun e he => published_as_handed rm (fun i => rfl) he⟩

theorem server_follows_board_guest : ∃ v e i ms, Run (Steps default) .fresh guestPublishes v ∧ v.board.library = [e] ∧
    e.draft.name = ascii "a" ∧ e.content = ascii "x" ∧ handedBy i ms = (some e.draft, e.content) := by
  have h : (Server.exec (fun _ _ => True) default .fresh guestPublishes).map
      (fun v => v.board.library.map fun e => (e.draft.name, e.content)) = some [(ascii "a", ascii "x")] := by
        decide +kernel
  obtain ⟨v, hv, hlib⟩ := Option.map_eq_some_iff.mp h
  obtain ⟨e, hl, he⟩ := List.map_eq_singleton_iff.mp hlib
  simp only [Prod.mk.injEq] at he
  have hrun := (Server.exec_run hv).unguard
  obtain ⟨xs, ms, -, -, -, -, hfiles⟩ := server_follows_board fresh_consistent hrun
  rcases hfiles e (by simp [hl]) with hold | ⟨ms₁, i, ms₂, -, hh⟩
  · cases hold
  · exact ⟨v, e, i, ms₁, hrun, hl, he.1, he.2, hh⟩

/-! ## What is stored stays -/

/-- Rows are only added, and the files of the rows that were there are as they were. -/
structure Server.Keeps (v v' : Server) : Prop where
  files : v.world.files.rows <+: v'.world.files.rows
  users : v.world.users.rows <+: v'.world.users.rows
  stored : ∀ r ∈ v.world.files.rows, ∃ c, v.world.disk r.path = some c ∧ v'.world.disk r.path = some c

section
variable {P : Platform} {v v' u : Server} {e : Event} {es : List Event}

theorem Server.Keeps.trans (h : v.Keeps v') (h' : v'.Keeps u) : v.Keeps u where
  files := h.files.trans h'.files
  users := h.users.trans h'.users
  stored r hr := by
    obtain ⟨c, hc, hc'⟩ := h.stored r hr
    obtain ⟨c', hd, hd'⟩ := h'.stored r (h.files.subset hr)
    obtain rfl : c = c' := Option.some.inj (hc'.symm.trans hd)
    exact ⟨c, hc, hd'⟩

theorem Sound.keeps (h : Sound v) : v.Keeps v where
  files := List.prefix_rfl
  users := List.prefix_rfl
  stored r hr := by
    obtain ⟨c, hk⟩ := h.exclusive.stored hr
    exact ⟨c, hk.content, hk.content⟩

theorem Sound.keeps_step (h : Sound v) (hs : Steps P v e v') : v.Keeps v' where
  files := by
    rcases hs.row h.wf with hf | ⟨i, s, row, c, -, -, -, -, hins, -⟩
    · exact hf ▸ List.prefix_rfl
    · rw [(FileTable.insert_rows hins).1]
      exact List.prefix_append ..
  users := hs.users_prefix
  stored r hr := by
    obtain ⟨c, hk⟩ := h.exclusive.stored hr
    exact ⟨c, hk.content, (hk.step h.wf hs).content⟩

theorem Sound.keeps_run (h : Sound v) (r : Run (Steps P) v es v') : v.Keeps v' :=
  r.inv_under Sound v.Keeps (fun _ _ _ h hs => h.step hs) (fun _ _ _ h hk hs => hk.trans (h.keeps_step hs)) h h.keeps

end

/-- **What is published stays**: no later event removes or changes a row of `files` or of `users`, or the stored
file of a row. -/
theorem published_kept {P : Platform} {disk : Bytes → Option Bytes} {users : UserTable} {files : FileTable}
    (hcons : Consistent disk files) {es fs : List Event} {v v' : Server}
    (r : Run (Steps P) (.start disk users files) es v) (r' : Run (Steps P) v fs v') : v.Keeps v' :=
  ((start_sound hcons).run r).keeps_run r'

def guestCancels : List Event :=
  [.ready 4 { read := some (ascii "file upload \"b\" 9 0\n"), availableSpace := 9, probes := [{ opened := .fd 5 }] },
    .ready 4 { read := some (leBytes 8 0 ++ leBytes 8 1 ++ ascii "y") },
    .ready 4 { read := some (leBytes 8 1 ++ leBytes 8 0) }]

theorem published_kept_guest : ∃ v v' r, Run (Steps default) .fresh guestPublishes v ∧
    Run (Steps default) v guestCancels v' ∧ v.world.files.rows = [r] ∧ [r] <+: v'.world.files.rows ∧
    ∃ c, v.world.disk r.path = some c ∧ v'.world.disk r.path = some c := by
  have h : ((Server.exec (fun _ _ => True) default .fresh guestPublishes).bind fun v =>
      (Server.exec (fun _ _ => True) default v guestCancels).map fun _ => v.world.files.rows.length) = some 1 := by
    decide +kernel
  obtain ⟨v, hv, h⟩ := Option.bind_eq_some_iff.mp h
  obtain ⟨v', hv', hlen⟩ := Option.map_eq_some_iff.mp h
  obtain ⟨r, hr⟩ := List.length_eq_one_iff.mp hlen
  have hrun := (Server.exec_run hv).unguard
  have hrun' := (Server.exec_run hv').unguard
  have hkeeps := published_kept fresh_consistent hrun hrun'
  exact ⟨v, v', r, hrun, hrun', hr, hr ▸ hkeeps.files, hkeeps.stored r (by simp [hr])⟩

/-! ## Who a visitor is -/

def Session.isInside (s : Session) : Prop := s.state = .opWait ∨ s.uploads ∨ s.state = .opDownload ∨
  s.state = .opDownloadWaitConfirmPackage

structure Session.StaysAs (s : Session) (a : Ident Bytes) : Prop where
  name : s.state ≠ .opLoginUsr
  password : s.state ≠ .opLoginPss
  ident : s.isInside → s.ident = a

section
variable {P : Platform} {ans : Answers} {w w' : World} {s s' : Session} {line : Option Bytes} {v v' : Server}
  {e : Event}
  {i : Nat} {a : Ident Bytes} {disk : Bytes → Option Bytes}

theorem visit_ident : (s.visit disk).ident = some a ↔ s.isInside ∧ s.ident = a := by
  unfold Session.visit Session.isInside Session.uploads
  cases s.state <;> simp [Visit.ident]

theorem Session.StaysAs.visit (h : s.StaysAs a) : (s.visit disk).ident = some a ∨ s.visit disk = .lost := by
  by_cases hin : s.isInside
  · exact .inl (visit_ident.mpr ⟨hin, h.ident hin⟩)
  · right
    obtain ⟨h1, h2, -⟩ := h
    unfold Session.isInside Session.uploads at hin
    unfold Session.visit
    cases hst : s.state <;> simp_all

theorem Session.staysAs_of_visit (h : (s.visit disk).ident = some a) : s.StaysAs a := by
  obtain ⟨hin, rfl⟩ := visit_ident.mp h
  refine ⟨?_, ?_, fun _ => rfl⟩
  all_goals
    intro hst
    simp [Session.isInside, Session.uploads, hst] at hin

theorem Did.inside_back (h : Did P ans w s line w' s') (h1 : s.state ≠ .opLoginUsr) (h2 : s.state ≠ .opLoginPss)
    (hin : s'.isInside) : s.isInside := by
  cases h with
  | talked => exact hin
  | ended hst => rcases hst with ⟨hst, -⟩ | hst <;> simp [Session.isInside, Session.uploads, hst]
  | moved hst | released hst => rcases hst with hst | hst <;> simp [Session.isInside, Session.uploads, hst]
  | left hst => simp [Session.isInside, Session.uploads] at hin
  | _ => simp_all [Session.isInside, Session.uploads]

theorem Did.staysAs (h : Did P ans w s line w' s') (hs : s.StaysAs a) : s'.StaysAs a := by
  have hlogin : ¬ (s'.state = .opLoginUsr ∨ s'.state = .opLoginPss) :=
    fun ht => (h.login_back ht).elim hs.name hs.password
  refine ⟨fun ht => hlogin (.inl ht), fun ht => hlogin (.inr ht), fun hin => ?_⟩
  obtain ⟨hname, hid⟩ := h.user hs.name hs.password
  rw [← hs.ident (h.inside_back hs.name hs.password hin), Session.ident, Session.ident, hname, hid]

theorem Steps.staysAs (hs : Steps P v e v') (he : ∀ uid privileges, e ≠ .accept i uid privileges)
    (h : ∀ s, v.connections i = some s → s.StaysAs a) : ∀ s, v'.connections i = some s → s.StaysAs a := by
  intro t ht
  rcases hs.session ht with ⟨uid, privileges, he', -⟩ | hc | ⟨ans, s, line, b, -, hc, hd⟩
  · exact absurd he' (he uid privileges)
  · exact h t hc
  · exact hd.staysAs (s := { s with buf := b }) ⟨(h s hc).name, (h s hc).password, (h s hc).ident⟩

end

/-- **A visitor stays who it is**: until another connection is accepted in its slot, a session that is logged in keeps
its name and its `uid`, unless its connection is lost or closed. -/
theorem visitor_kept {P : Platform} {fs : List Event} {v v' : Server} (r : Run (Steps P) v fs v') {i : Nat}
    {a : Ident Bytes} (ha : v.board.who i = some a) (hfs : ∀ uid privileges, .accept i uid privileges ∉ fs) :
    v'.board.who i = some a ∨ v'.board.visits i = some .lost ∨ v'.board.visits i = none := by
  have hstays : ∀ s, v'.connections i = some s → s.StaysAs a := by
    induction r with
    | nil =>
      intro s hc
      rw [Board.who, visits_some hc] at ha
      exact Session.staysAs_of_visit ha
    | snoc _ hs ih =>
      exact hs.staysAs (fun uid privileges he => hfs uid privileges (by simp [he]))
        (ih fun uid privileges hm => hfs uid privileges (List.mem_append_left _ hm))
  cases hc : v'.connections i with
  | none => exact .inr (.inr (congrArg (Option.map _) hc))
  | some s =>
    rw [Board.who, visits_some hc]
    have hvisit : (s.visit v'.world.disk).ident = some a ∨ s.visit v'.world.disk = .lost := (hstays s hc).visit
    rcases hvisit with hin | hlost
    · exact .inl hin
    · exact .inr (.inl (congrArg some hlost))

theorem visitor_kept_guest : ∃ v v' a, Run (Steps default) .fresh (guestPublishes.take 2) v ∧
    Run (Steps default) v (guestPublishes.drop 2) v' ∧ a.name = ascii "anonymous" ∧ v.board.who 4 = some a ∧
    (v'.board.who 4 = some a ∨ v'.board.visits 4 = some .lost ∨ v'.board.visits 4 = none) := by
  have h : ((Server.exec (fun _ _ => True) default .fresh (guestPublishes.take 2)).bind fun v =>
      (Server.exec (fun _ _ => True) default v (guestPublishes.drop 2)).map fun _ => (v.board.who 4).map (·.name)) =
      some (some (ascii "anonymous")) := by decide +kernel
  obtain ⟨v, hv, h⟩ := Option.bind_eq_some_iff.mp h
  obtain ⟨v', hv', hwho⟩ := Option.map_eq_some_iff.mp h
  obtain ⟨a, ha, hname⟩ := Option.map_eq_some_iff.mp hwho
  have hrun := (Server.exec_run hv).unguard
  have hrun' := (Server.exec_run hv').unguard
  refine ⟨v, v', a, hrun, hrun', hname, ha, visitor_kept hrun' ha fun uid privileges hm => ?_⟩
  simp [guestPublishes] at hm

end BbsServer
