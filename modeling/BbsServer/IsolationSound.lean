import BbsServer.Alike
import BbsServer.OwnLog

/-!
# What a session sees of the others

Sessions share the tables, the working directory and the answers of the system, and nothing else: two runs with
the same events for some slots, whose other events leave the tables and the working directory alone, are the same
for these slots (`sessions_isolated`).
-/

namespace BbsServer

open CStr Function Runs Relational

def Event.hidden (H : Nat → Bool) : Event → Bool
  | .accept sd _ _ => H sd
  | .acceptFailed => false
  | .ready i _ => H i

/-- An event; one for the slots `H` leaves the tables and the working directory alone. -/
def Discreet (P : Platform) (H : Nat → Bool) (v : Server) (e : Event) (v' : Server) : Prop :=
  Steps P v e v' ∧ (e.hidden H → Level v.world v'.world)

/-- Two servers that are the same outside the slots `H`. -/
structure Unseen (H : Nat → Bool) (v u : Server) : Prop where
  level : Level v.world u.world
  rows : SameRows v.world u.world
  sessions : ∀ ⦃i⦄, H i = false → v.connections i = u.connections i
  upload : ∀ ⦃i s q⦄, H i = false → v.connections i = some s → s.uploads → s.path = some q →
    v.world.disk q = u.world.disk q
  log : ∀ ⦃i⦄, H i = false → logOf i v.world.trace = logOf i u.world.trace

section
variable {P : Platform} {ans : Answers} {H : Nat → Bool} {v v' u u' : Server} {e : Event} {i j : Nat} {s t : Session}
  {w w' : World}

theorem Level.symm (h : Level w w') : Level w' w := ⟨h.users.symm, h.files.symm, h.cwd.symm⟩

theorem Level.trans {w₁ : World} (h : Level w w₁) (h' : Level w₁ w') : Level w w' :=
  ⟨h.users.trans h'.users, h.files.trans h'.files, h.cwd.trans h'.cwd⟩

theorem Unseen.refl (H : Nat → Bool) (v : Server) : Unseen H v v :=
  ⟨⟨rfl, rfl, rfl⟩, fun _ _ => rfl, fun _ _ => rfl, fun _ _ _ _ _ _ _ => rfl, fun _ _ => rfl⟩

theorem Unseen.symm (h : Unseen H v u) : Unseen H u v where
  level := h.level.symm
  rows := fun _ hr => (h.rows (h.level.files ▸ hr)).symm
  sessions := fun _ hi => (h.sessions hi).symm
  upload := fun _ _ _ hi hs hup hq => (h.upload hi ((h.sessions hi).trans hs) hup hq).symm
  log := fun _ hi => (h.log hi).symm

theorem At_hidden (he : e.hidden H) (hj : H j = false) : ¬ e.At j := by
  cases e with
  | accept sd uid privileges =>
    rintro rfl
    exact absurd (he.symm.trans hj) (by decide)
  | acceptFailed => exact id
  | ready i ans =>
    rintro rfl
    exact absurd (he.symm.trans hj) (by decide)

theorem Unseen.hidden (h : Unseen H v u) (hv : Sound v) (he : e.hidden H) (hs : Discreet P H v e v') :
    Unseen H v' u where
  level := (hs.2 he).symm.trans h.level
  rows := by
    intro r hr
    rw [← (hs.2 he).files] at hr
    obtain ⟨c, hk⟩ := hv.exclusive.stored hr
    rw [← h.rows hr, hk.content, (hk.step hv.wf hs.1).content]
  sessions := fun j hj => (hs.1.elsewhere (At_hidden he hj)).trans (h.sessions hj)
  upload := by
    intro j t q hj ht hup hq
    rw [hs.1.elsewhere (At_hidden he hj)] at ht
    rw [hs.1.path_disk hv.wf (At_hidden he hj) ht hup q hq, h.upload hj ht hup hq]
  log := fun j hj => (hs.1.logOf_eq hv.wf (At_hidden he hj)).trans (h.log hj)

/-! ## A visible event -/

theorem Unseen.shares (h : Unseen H v u) (hv : Wf v) (hu : Wf u) (hi : H i = false) (hs : v.connections i = some s) :
    Shares v.world u.world s := by
  intro d hd
  obtain ⟨k, hk, -⟩ := hv.fd hs hd
  obtain ⟨k', hk', -⟩ := hu.fd ((h.sessions hi).symm.trans hs) hd
  rw [hk, hk']
  rfl

theorem Unseen.sharesFile (h : Unseen H v u) (hv : Wf v) (hu : Wf u) (hi : H i = false)
    (hs : v.connections i = some s) (hup : s.uploads) : SharesFile v.world u.world s := by
  intro d hd
  obtain ⟨f, x, hf, -, -, hx, hk, -⟩ := hv.upload hs hup
  obtain ⟨g, y, hg, -, -, hy, hk', -⟩ := hu.upload ((h.sessions hi).symm.trans hs) hup
  obtain rfl : x = d := Option.some.inj (hx.symm.trans hd)
  obtain rfl : y = x := Option.some.inj (hy.symm.trans hd)
  obtain rfl : f = g := Option.some.inj (hf.symm.trans hg)
  rw [hk, hk']

theorem sessionDoRead_alike {u : World} (h : Level w u) :
    Both (Twins (·.2.2.1) (fun a => (a.1, a.2.1, a.2.2.2)) w u) (sessionDoRead ans w s) (sessionDoRead ans u s) := by
  unfold sessionDoRead sessionDoReadWith
  split
  · exact both_ok ⟨.refl h, rfl⟩
  · exact both_ok ⟨.refl h, rfl⟩
  · split
    · exact both_error _
    split
    · exact both_ok ⟨.refl h, rfl⟩
    split
    · exact h.say (fun _ => rfl) fun _ _ => rfl
    split
    · exact both_ok ⟨.refl h, rfl⟩
    · exact both_ok ⟨.refl h, rfl⟩

theorem sessionDoRead_world {a : Bool × Option Bytes × World × Session} (h : sessionDoRead ans w s = .ok a) :
    a.2.2.1 = w ∧ a.2.2.2.fd = s.fd ∧ (a.2.2.2.state = s.state ∨ a.2.2.2.state = .err) := by
  rcases sessionDoRead_cases h with ⟨-, hw, hs, -⟩ | ⟨_, _, _, -, -, -, -, hw, -, hs, -⟩
  · rw [hs]
    exact ⟨hw, rfl, .inr rfl⟩
  · rw [hs]
    exact ⟨hw, rfl, .inl rfl⟩

theorem performSessionAction_open {line : Option Bytes} (hd : ∀ d, s.fd = some d → (w.fds d).isSome)
    {a : World × Session} (h : performSessionAction P ans w s line = .ok a) {d : Nat} (ha : a.2.fd = some d) :
    (a.1.fds d).isSome := by
  rcases (performSessionAction_did h).fd_cases ha with ⟨hs, hk⟩ | ⟨-, p, hk⟩
  · rw [hk]
    exact hd d hs
  · rw [hk]
    rfl

def Together (v u : Server) (i : Nat) (v' u' : Server) : Prop :=
  Alike v.world u.world v'.world u'.world ∧ ∃ x, v'.connections = update v.connections i x ∧
    u'.connections = update u.connections i x

theorem serveSession_alike (h : Unseen H v u) (hv : Wf v) (hu : Wf u) (hi : H i = false)
    (hs : v.connections i = some s) :
    Both (Together v u i) (serveSession P ans v i s) (serveSession P ans u i s) := by
  have hl := h.level
  have hsh := h.shares hv hu hi hs
  have hfile : s.state = .opUpload → SharesFile v.world u.world s := fun hst => h.sharesFile hv hu hi hs (.inl hst)
  have hsock : (v.world.fds i).isSome = (u.world.fds i).isSome := by
    rw [hv.socket hs, hu.socket ((h.sessions hi).symm.trans hs)]
  unfold serveSession serveSessionWith
  split
  · split
    · exact (performSessionAction_alike hl hsh hfile h.rows).bind fun a b hab =>
        both_ok ⟨hab.1, some a.2, rfl, by rw [show a.2 = b.2 from hab.2]; rfl⟩
    · refine both_ok ⟨.refl hl, some s, ?_, ?_⟩
      · rw [← hs, update_eq_self]
      · rw [← hs, h.sessions hi, update_eq_self]
  · rename_i hst
    refine (sessionDoRead_alike hl).returns.bind fun a b hab => ?_
    obtain ⟨⟨-, hrest⟩, ha, hb⟩ := hab
    obtain ⟨hw, hfd, hstate⟩ := sessionDoRead_world ha
    obtain ⟨hw', -, -⟩ := sessionDoRead_world hb
    obtain ⟨res, line, w₁, t⟩ := a
    obtain ⟨res', line', u₁, t'⟩ := b
    obtain rfl : w₁ = v.world := hw
    obtain rfl : u₁ = u.world := hw'
    obtain ⟨rfl, rfl, rfl⟩ : res = res' ∧ line = line' ∧ t = t' := by simpa using hrest
    have hfd : t.fd = s.fd := hfd
    have hnup : t.state ≠ .opUpload := by
      intro hup
      rcases hstate with he | he
      · exact hst (.inl (he.symm.trans hup))
      · exact absurd (he.symm.trans hup) (by decide)
    have hsh' : Shares v.world u.world t := fun d hd => hsh (hfd ▸ hd)
    have hopen : ∀ {x : Server}, Wf x → x.connections i = some s → ∀ d, t.fd = some d → (x.world.fds d).isSome := by
      intro x hx hc d hd
      obtain ⟨k, hk, -⟩ := hx.fd hc (hfd ▸ hd)
      rw [hk]
      rfl
    dsimp only
    split
    · refine (performSessionAction_alike hl hsh' (fun hup => absurd hup hnup) h.rows).returns.bind fun a b hab => ?_
      obtain ⟨⟨halike, hts⟩, ha, hb⟩ := hab
      have hts : a.2 = b.2 := hts
      rw [← hts]
      split
      · refine both_ok ⟨halike.trans (closeSession_alike halike.toLevel (fun d hd => ?_) (halike.isOpen hsock)),
          none, rfl, rfl⟩
        rw [performSessionAction_open (hopen hv hs) ha hd,
          performSessionAction_open (hopen hu ((h.sessions hi).symm.trans hs)) hb (hts ▸ hd)]
      · exact both_ok ⟨halike, some a.2, rfl, rfl⟩
    · exact both_ok ⟨closeSession_alike hl hsh' hsock, none, rfl, rfl⟩

theorem acceptClient_alike (h : Level v.world u.world) {uid privileges : Int} :
    Both (Together v u i) (acceptClient P v i uid privileges) (acceptClient P u i uid privileges) := by
  unfold acceptClient acceptClientWith
  intro v' u' hv hu
  split at hv
  · cases hv
  split at hu
  · cases hu
  split at hv
  · cases hv
  split at hu
  · cases hu
  have ha : Alike v.world u.world
      { v.world with fds := update v.world.fds i (some .socket), trace := .accepted i :: v.world.trace }
      { u.world with fds := update u.world.fds i (some .socket), trace := .accepted i :: u.world.trace } :=
    ⟨⟨h.users, h.files, h.cwd⟩, fun _ hq => hq, fun _ hx => update_same (g := id) hx,
      fun _ hx => update_same (g := Option.isSome) hx, [.accepted i], rfl, rfl⟩
  obtain ⟨a, ha', hv⟩ := bind_ok.mp hv
  obtain ⟨b, hb', hu⟩ := bind_ok.mp hu
  have hnew : Twins (·.1) (·.2) _ _ a b :=
    ha.toLevel.say (s := .fresh i uid privileges) (g := fun w => (w, Session.fresh i uid privileges)) (fun _ => rfl)
      (fun _ _ => rfl) ha' hb'
  cases hv
  cases hu
  exact ⟨ha.trans hnew.1, some a.2, rfl, by rw [show a.2 = b.2 from hnew.2]; rfl⟩

section
variable (h : Unseen H v u) (hi : H i = false) (hs : Steps P v e v') (hs' : Steps P u e u')
  (he : ∀ j, e.At j → j = i) (ht : Together v u i v' u')
include h hi hs he ht

/-- The file of a new row is the upload of the slot that is served. -/
theorem Together.rows (hv : Sound v) : SameRows v'.world u'.world := by
  intro r hr
  rcases hs.row hv.wf with hf | ⟨k, s, row, c, -, hc, hst, hp, hins, hk⟩
  · exact ht.1.disk (h.rows (hf ▸ hr))
  · rw [(FileTable.insert_rows hins).1, List.mem_append, List.mem_singleton] at hr
    rcases hr with hr | rfl
    · exact ht.1.disk (h.rows hr)
    · by_cases hat : e.At k
      · obtain rfl := he k hat
        exact ht.1.disk (h.upload hi hc (.inr hst) hp)
      · exact absurd hp (hk.free ((hs.elsewhere hat).trans hc) (.inr hst))

include hs'

omit he in
theorem Together.upload {q : Bytes} (hc : v'.connections i = some t) (hc' : u'.connections i = some t)
    (hup : t.uploads) (hq : t.path = some q) : v'.world.disk q = u'.world.disk q := by
  rcases hs.session hc with ⟨uid, privileges, -, rfl⟩ | hold | ⟨ans, s, line, b, hev, hold, hd⟩
  · simp [Session.uploads, Session.fresh] at hup
  · exact ht.1.disk (h.upload hi hold hup hq)
  rcases hd.upload hup with ⟨f, d, hst, -, hf, -, hp, -, -, hnew, -⟩ | ⟨hsu, f, f', hf, hf', -, hp, -⟩
  · have hst : s.state = .opWait := hst
    have hpath : storagePath f.hash = q := by
      rw [Session.path, hf, Option.bind_some, hp] at hq
      exact Option.some.inj hq
    rw [← hpath, hnew]
    rcases hs'.session hc' with ⟨uid, privileges, hacc, -⟩ | hold' | ⟨ans', s', line', b', hev', hold', hd'⟩
    · rw [hev] at hacc
      cases hacc
    · obtain rfl : s = t := Option.some.inj (hold.symm.trans ((h.sessions hi).trans hold'))
      simp [Session.uploads, hst] at hup
    · obtain rfl : s = s' := Option.some.inj (hold.symm.trans ((h.sessions hi).trans hold'))
      rcases hd'.upload hup with ⟨g, -, -, -, hg, -, -, -, -, hnew', -⟩ | ⟨hsu, -⟩
      · obtain rfl : f = g := Option.some.inj (hf.symm.trans hg)
        rw [hnew']
      · simp [Session.uploads, hst] at hsu
  · refine ht.1.disk (h.upload hi hold hsu ?_)
    rw [← hq, Session.path, Session.path, hf', show s.file = some f from hf, Option.bind_some, Option.bind_some, hp]

theorem Together.unseen (hv : Sound v) : Unseen H v' u' where
  level := ht.1.toLevel
  rows := ht.rows h hi hs he hv
  sessions := by
    intro j hj
    obtain ⟨-, x, hx, hx'⟩ := ht
    rw [hx, hx']
    exact update_same (g := id) (h.sessions hj)
  upload := by
    intro j t q hj hc hup hq
    obtain ⟨-, x, hx, hx'⟩ := id ht
    by_cases hji : j = i
    · subst hji
      refine ht.upload h hi hs hs' hc ?_ hup hq
      rw [hx, update_self] at hc
      rw [hx', update_self, hc]
    · rw [hx, update_of_ne hji] at hc
      exact ht.1.disk (h.upload hj hc hup hq)
  log := by
    intro j hj
    obtain ⟨ext, hext, hext'⟩ := ht.1.log
    rw [hext, hext', logOf_append, logOf_append, h.log hj]

end

/-- The same event in a visible slot of both servers. -/
theorem Unseen.visible (h : Unseen H v u) (hv : Sound v) (hu : Sound u) (he : e.hidden H = false)
    (hs : Steps P v e v') (hs' : Steps P u e u') : Unseen H v' u' := by
  cases e with
  | accept sd uid privileges =>
    have ht : Together v u sd v' u' := acceptClient_alike h.level hs hs'
    exact ht.unseen h he hs hs' (fun j hj => (At_accept.mp hj).symm) hv
  | acceptFailed =>
    cases hs
    cases hs'
    exact h
  | ready i ans =>
    cases hc : v.connections i with
    | none =>
      obtain rfl := hs.empty hc
      obtain rfl := hs'.empty ((h.sessions he).symm.trans hc)
      exact h
    | some s =>
      have ht : Together v u i v' u' := serveSession_alike h hv.wf hu.wf he hc ((steps_ready_iff hc).mp hs)
        ((steps_ready_iff ((h.sessions he).symm.trans hc)).mp hs')
      exact ht.unseen h he hs hs' (fun j hj => (At_ready.mp hj).symm) hv

end

/-! ## Whole runs -/

def oneGuest : List Event :=
  [.accept 4 0 0, .ready 4 { read := some (ascii "anonymous") }, .ready 4 { read := some (ascii "file list\n") }]

def twoGuests : List Event :=
  [.accept 5 0 0, .accept 4 0 0, .ready 5 { read := some (ascii "anonymous") },
    .ready 5 { read := some (ascii "file upload \"a\" 1 0\n"), availableSpace := 1, probes := [{ opened := .fd 6 }] },
    .ready 4 { read := some (ascii "anonymous") }, .ready 4 { read := some (ascii "file list\n") }]

/-- **Sessions are isolated**: after the same beginning, two runs with the same events for the slots outside `H`,
whose events for `H` leave the tables and the working directory alone, leave the same sessions there, with the
same entries in the log, the same rows and the same stored files. -/
theorem sessions_isolated {P : Platform} {disk : Bytes → Option Bytes} {users : UserTable} {files : FileTable}
    (hcons : Consistent disk files) {H : Nat → Bool} {es₀ es fs : List Event} {v₀ v u : Server}
    (r₀ : Run (Steps P) (.start disk users files) es₀ v₀) (r : Run (Discreet P H) v₀ es v)
    (r' : Run (Discreet P H) v₀ fs u) (hes : es.filter (!·.hidden H) = fs.filter (!·.hidden H)) :
    (∀ i, H i = false → v.connections i = u.connections i ∧ logOf i v.world.trace = logOf i u.world.trace) ∧
      v.world.users = u.world.users ∧ v.world.files = u.world.files ∧
      ∀ row ∈ v.world.files.rows, v.world.disk row.path = u.world.disk row.path := by
  have hv₀ := (start_sound hcons).run r₀
  have h : Unseen H v u := unwinding (!·.hidden H) Sound (Unseen H) (fun _ _ _ ha hs => ha.step hs.1)
    (fun _ _ _ _ _ ha ha' hr he hs hs' => hr.visible ha ha' (by simpa using he) hs.1 hs'.1)
    (fun _ _ _ _ ha _ hr he hs => hr.hidden ha (by simpa using he) hs) (fun _ _ hr => hr.symm) r r' hv₀ hv₀
    (.refl H v₀) hes
  exact ⟨fun i hi => ⟨h.sessions hi, h.log hi⟩, h.level.users, h.level.files, fun row hr => h.rows hr⟩

theorem UserTable.ext_rows {t t' : UserTable} (h : t.rows = t'.rows) : t = t' := by
  cases t
  cases t'
  cases h
  rfl

theorem FileTable.ext_rows {t t' : FileTable} (h : t.rows = t'.rows) : t = t' := by
  cases t
  cases t'
  cases h
  rfl

def discreetStep (P : Platform) (H : Nat → Bool) (v : Server) (e : Event) : Option Server :=
  (v.step P e).toOption.filter fun v' => !e.hidden H || (v.world.users.rows == v'.world.users.rows &&
    v.world.files.rows == v'.world.files.rows && v.world.cwd == v'.world.cwd)

theorem discreetStep_some {P : Platform} {H : Nat → Bool} {v v' : Server} {e : Event}
    (h : discreetStep P H v e = some v') : Discreet P H v e v' := by
  obtain ⟨hs, hcond⟩ := Option.filter_eq_some_iff.mp h
  refine ⟨.of_toOption hs, fun he => ?_⟩
  simp only [he, Bool.not_true, Bool.false_or, Bool.and_eq_true, beq_iff_eq] at hcond
  exact ⟨UserTable.ext_rows hcond.1.1, FileTable.ext_rows hcond.1.2, hcond.2⟩

theorem sessions_isolated_guests : ∃ v u, Run (Discreet default (· == 5)) .fresh twoGuests v ∧
    Run (Discreet default (· == 5)) .fresh oneGuest u ∧ logOf 5 v.world.trace ≠ [] ∧ (v.connections 4).isSome ∧
    v.connections 4 = u.connections 4 ∧ logOf 4 v.world.trace = logOf 4 u.world.trace := by
  have h : ((Runs.exec (discreetStep default (· == 5)) .fresh twoGuests).bind fun v =>
      (Runs.exec (discreetStep default (· == 5)) .fresh oneGuest).map fun _ =>
        ((logOf 5 v.world.trace).isEmpty, (v.connections 4).isSome)) = some (false, true) := by decide +kernel
  obtain ⟨v, hv, h⟩ := Option.bind_eq_some_iff.mp h
  obtain ⟨u, hu, h⟩ := Option.map_eq_some_iff.mp h
  obtain ⟨hlog, hsome⟩ := Prod.mk.inj h
  have r := Run.of_exec (fun _ _ _ => discreetStep_some) hv
  have r' := Run.of_exec (fun _ _ _ => discreetStep_some) hu
  obtain ⟨hsame, hlogs⟩ := (sessions_isolated fresh_consistent .nil r r' rfl).1 4 rfl
  exact ⟨v, u, r, r', by simpa using hlog, hsome, hsame, hlogs⟩

end BbsServer
