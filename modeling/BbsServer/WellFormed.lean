import BbsServer.Frame

/-!
# The server's bookkeeping

What holds in every reachable state, faults of the transfer code included: a session sits in
the slot of its socket, its file descriptor is open and its own, and a session that uploads
has its own file in the storage folder (`Wf`, `reachable_wf`).
-/

namespace BbsServer

open CStr Function Runs

structure Wf (v : Server) : Prop where
  live : ∀ {i s}, v.connections i = some s → s.state ≠ .fin
  sd : ∀ {i s}, v.connections i = some s → s.sd = i
  socket : ∀ {i s}, v.connections i = some s → v.world.fds i = some .socket
  fd : ∀ {i s d}, v.connections i = some s → s.fd = some d → ∃ k, v.world.fds d = some k ∧ k ≠ .socket
  apart : ∀ {i j s t d}, i ≠ j → v.connections i = some s → v.connections j = some t → s.fd = some d → t.fd ≠ some d
  upload : ∀ {i s}, v.connections i = some s → s.uploads → ∃ f d, s.file = some f ∧ f.name.isSome ∧
    f.path = some (storagePath f.hash) ∧ s.fd = some d ∧ v.world.fds d = some (.file (storagePath f.hash)) ∧
    (v.world.disk (storagePath f.hash)).isSome
  paths : ∀ {i j s t f g}, i ≠ j → v.connections i = some s → v.connections j = some t → s.uploads → t.uploads →
    s.file = some f → t.file = some g → storagePath f.hash ≠ storagePath g.hash

section
variable {P : Platform} {v v' : Server} {i j : Nat} {s t : Session}

theorem Wf.fd_ne_sd (h : Wf v) {d : Nat} (hs : v.connections i = some s) (ht : v.connections j = some t)
    (hd : s.fd = some d) : d ≠ j := by
  rintro rfl
  obtain ⟨k, hk, hne⟩ := h.fd hs hd
  rw [h.socket ht] at hk
  exact hne (Option.some.inj hk).symm

theorem Wf.other_file (h : Wf v) (hij : i ≠ j) (hs : v.connections i = some s) (ht : v.connections j = some t)
    (htu : t.uploads) {g : SFile} (hg : t.file = some g) (hst : s.state = .opUpload) :
    s.fd.bind v.world.fds ≠ some (.file (storagePath g.hash)) ∧
      ∀ f, s.file = some f → f.path ≠ some (storagePath g.hash) := by
  obtain ⟨f, d, hf, -, hp, hd, hfd, -⟩ := h.upload hs (.inl hst)
  have hne := h.paths hij hs ht (.inl hst) htu hf hg
  refine ⟨?_, fun f' hf' => ?_⟩
  · rw [hd]
    show v.world.fds d ≠ _
    rw [hfd]
    simpa using hne
  · rw [hf] at hf'
    cases hf'
    rw [hp]
    simpa using hne

theorem Wf.idle_download (h : Wf v) (hs : v.connections i = some s)
    (hst : s.state = .opUpload ∨ s.state = .opDownload) (hfd : s.fd = none) : s.state = .opDownload := by
  refine hst.resolve_left fun hup => ?_
  obtain ⟨f, d, -, -, -, hd, -⟩ := h.upload hs (.inl hup)
  rw [hfd] at hd
  cases hd

/-! ## One action -/

theorem Wf.act (h : Wf v) (hs : v.connections i = some s) {ans : Answers} {line : Option Bytes}
    {w' : World} {s' : Session} (hd : Did P ans v.world s line w' s') : Wf (v.set i w' (some s')) where
  live := by
    intro j t ht
    rcases Server.set_connections.mp ht with ⟨rfl, he⟩ | ⟨-, ht⟩
    · cases he; exact hd.live (h.live hs)
    · exact h.live ht
  sd := by
    intro j t ht
    rcases Server.set_connections.mp ht with ⟨rfl, he⟩ | ⟨-, ht⟩
    · cases he; rw [hd.sd_eq]; exact h.sd hs
    · exact h.sd ht
  socket := by
    have hkeep : ∀ {j t}, v.connections j = some t → w'.fds j = some .socket := by
      intro j t ht
      rcases hd.fds (h.socket ht) (fun e => h.fd_ne_sd hs ht e rfl) with hk | ⟨-, -, f, p, -, -, hk⟩
      · exact hk
      · cases hk
    intro j t ht
    rcases Server.set_connections.mp ht with ⟨rfl, -⟩ | ⟨-, ht⟩
    · exact hkeep hs
    · exact hkeep ht
  fd := by
    intro j t d ht hfd
    rcases Server.set_connections.mp ht with ⟨rfl, he⟩ | ⟨hne, ht⟩
    · cases he
      rcases hd.fd_cases hfd with ⟨hsd, he⟩ | ⟨-, p, hp⟩
      · rw [Server.set_world, he]; exact h.fd hs hsd
      · exact ⟨_, hp, by simp⟩
    · obtain ⟨k, hk, hks⟩ := h.fd ht hfd
      rcases hd.fds hk (fun e => h.apart (Ne.symm hne) hs ht e hfd) with hk' | ⟨hk', -⟩
      · exact ⟨k, hk', hks⟩
      · exact ⟨_, hk', by simp⟩
  apart := by
    have hother : ∀ {j t d}, j ≠ i → v.connections j = some t → t.fd = some d → s'.fd ≠ some d := by
      intro j t d hne ht hfd he
      rcases hd.fd_cases he with ⟨hsd, -⟩ | ⟨hfree, -⟩
      · exact h.apart (Ne.symm hne) hs ht hsd hfd
      · obtain ⟨k, hk, -⟩ := h.fd ht hfd
        rw [hfree] at hk; cases hk
    intro j k t u d hjk ht hu hfd
    rcases Server.set_connections.mp ht with ⟨rfl, he⟩ | ⟨hne, ht₁⟩
    · cases he
      rcases Server.set_connections.mp hu with ⟨rfl, -⟩ | ⟨hne₁, hu₁⟩
      · exact absurd rfl hjk
      · exact fun e => hother hne₁ hu₁ e hfd
    · rcases Server.set_connections.mp hu with ⟨rfl, he⟩ | ⟨-, hu₁⟩
      · cases he; exact hother hne ht₁ hfd
      · exact h.apart hjk ht₁ hu₁ hfd
  upload := by
    intro j t ht hup
    rcases Server.set_connections.mp ht with ⟨rfl, he⟩ | ⟨hne, ht⟩
    · cases he
      rcases hd.upload hup with ⟨f, d, -, -, hf, hn, hp, hfd, -, hdisk, hfds⟩ |
        ⟨hsu, f, f', hf, hf', hn, hp, hh, -, hfd, hfds, hdisk⟩
      · exact ⟨f, d, hf, hn, hp, hfd, hfds, by rw [Server.set_world, hdisk]; rfl⟩
      · obtain ⟨g, d, hg, hgn, hgp, hgd, hgf, hgdisk⟩ := h.upload hs hsu
        rw [hf] at hg
        cases hg
        refine ⟨f', d, hf', by rw [hn]; exact hgn, by rw [hp, hh]; exact hgp, by rw [hfd]; exact hgd, ?_, ?_⟩
        · rw [Server.set_world, hfds, hh]; exact hgf
        · rw [Server.set_world, hdisk, hh]; exact hgdisk
    · obtain ⟨g, d, hg, hgn, hgp, hgd, hgf, hgdisk⟩ := h.upload ht hup
      refine ⟨g, d, hg, hgn, hgp, hgd, ?_, ?_⟩
      · rcases hd.fds hgf (fun e => h.apart (Ne.symm hne) hs ht e hgd) with hk | ⟨-, hst, f, p, hf, hp, hk⟩
        · exact hk
        · cases hk
          exact absurd hp ((h.other_file (Ne.symm hne) hs ht hup hg hst).2 f hf)
      · rw [Server.set_world, hd.disk hgdisk (h.other_file (Ne.symm hne) hs ht hup hg)]
        exact hgdisk
  paths := by
    have hother : ∀ {j t f g}, j ≠ i → v.connections j = some t → s'.uploads → t.uploads → s'.file = some f →
        t.file = some g → storagePath f.hash ≠ storagePath g.hash := by
      intro j t f g hne ht hsu htu hf hg
      obtain ⟨g', d, hg', -, -, -, -, hgdisk⟩ := h.upload ht htu
      rw [hg] at hg'
      cases hg'
      rcases hd.upload hsu with ⟨f', d, -, -, hf', -, -, -, hfree, -⟩ | ⟨hsu, f', f'', hf', hf'', -, -, hh, -⟩
      · rw [hf] at hf'
        cases hf'
        intro e
        rw [e] at hfree
        rw [hfree] at hgdisk
        cases hgdisk
      · rw [hf] at hf''
        cases hf''
        rw [hh]
        exact h.paths (Ne.symm hne) hs ht hsu htu hf' hg
    intro j k t u f g hjk ht hu htu huu hf hg
    rcases Server.set_connections.mp ht with ⟨rfl, he⟩ | ⟨hne, ht₁⟩
    · cases he
      rcases Server.set_connections.mp hu with ⟨rfl, -⟩ | ⟨hne₁, hu₁⟩
      · exact absurd rfl hjk
      · exact hother hne₁ hu₁ htu huu hf hg
    · rcases Server.set_connections.mp hu with ⟨rfl, he⟩ | ⟨-, hu₁⟩
      · cases he; exact (hother hne ht₁ huu htu hg hf).symm
      · exact h.paths hjk ht₁ hu₁ htu huu hf hg

/-! ## The other changes of the table -/

theorem Wf.congr (h : Wf v) (hfds : v'.world.fds = v.world.fds) (hdisk : v'.world.disk = v.world.disk)
    (hc : ∀ {j t}, v'.connections j = some t → ∃ u b, v.connections j = some u ∧
    t = { u with buf := b }) : Wf v' := by
  constructor
  · intro j t ht; obtain ⟨x, b, hx, rfl⟩ := hc ht; exact (h.live hx :)
  · intro j t ht; obtain ⟨x, b, hx, rfl⟩ := hc ht; exact (h.sd hx :)
  · intro j t ht; obtain ⟨x, b, hx, rfl⟩ := hc ht; rw [hfds]; exact h.socket hx
  · intro j t d ht hd; obtain ⟨x, b, hx, rfl⟩ := hc ht; rw [hfds]; exact h.fd hx hd
  · intro j k t u d hjk ht hu
    obtain ⟨x, b, hx, rfl⟩ := hc ht
    obtain ⟨y, c, hy, rfl⟩ := hc hu
    exact (h.apart hjk hx hy :)
  · intro j t ht hup; obtain ⟨x, b, hx, rfl⟩ := hc ht; rw [hfds, hdisk]; exact (h.upload hx hup :)
  · intro j k t u f g hjk ht hu htu huu
    obtain ⟨x, b, hx, rfl⟩ := hc ht
    obtain ⟨y, c, hy, rfl⟩ := hc hu
    exact (h.paths hjk hx hy htu huu :)

theorem Wf.read (h : Wf v) (hs : v.connections i = some s) (a : Act) (b : Bytes) :
    Wf (v.set i (v.world.log a) (some { s with buf := b })) := by
  refine h.congr rfl rfl fun {j t} ht => ?_
  rcases Server.set_connections.mp ht with ⟨rfl, he⟩ | ⟨-, ht⟩
  · cases he; exact ⟨s, b, hs, rfl⟩
  · exact ⟨t, t.buf, ht, rfl⟩

theorem closeSession_eq (w : World) (s : Session) (i : Nat) :
    closeSession w s i = (clearFileFromSess w s).1.close (clearFileFromSess w s).2 i := rfl

theorem closeSession_fds {w : World} {x : Nat} (hx : x ≠ i) (hne : s.fd ≠ some x) :
    (closeSession w s i).fds x = w.fds x := by
  rw [closeSession_eq, World.close]
  dsimp only
  rw [update_of_ne hx]
  unfold clearFileFromSess
  split
  · rfl
  · simp [hne]

@[simp] theorem closeSession_disk (w : World) (s : Session) (i : Nat) : (closeSession w s i).disk = w.disk := by
  rw [closeSession_eq]
  exact clear_disk w s

@[simp] theorem closeSession_files (w : World) (s : Session) (i : Nat) : (closeSession w s i).files = w.files := by
  rw [closeSession_eq, World.close]
  unfold clearFileFromSess
  split <;> simp

@[simp] theorem closeSession_users (w : World) (s : Session) (i : Nat) : (closeSession w s i).users = w.users := by
  rw [closeSession_eq, World.close]
  unfold clearFileFromSess
  split <;> simp

@[simp] theorem closeSession_cwd (w : World) (s : Session) (i : Nat) : (closeSession w s i).cwd = w.cwd := by
  rw [closeSession_eq, World.close]
  unfold clearFileFromSess
  split <;> simp

theorem closeSession_congr (w : World) (s : Session) (st : SessState) (b : Bytes) (i : Nat) :
    closeSession w { s with state := st, buf := b } i = closeSession w s i := by
  simp only [closeSession_eq, clearFileFromSess]
  cases s.file <;> rfl

theorem Wf.close (h : Wf v) (hs : v.connections i = some s) : Wf (v.set i (closeSession v.world s i) none) := by
  have hkeep : ∀ {x j t}, j ≠ i → v.connections j = some t → x = j ∨ t.fd = some x →
      (closeSession v.world s i).fds x = v.world.fds x := by
    intro x j t hne ht hx
    rcases hx with rfl | hx
    · exact closeSession_fds hne fun e => h.fd_ne_sd hs ht e rfl
    · exact closeSession_fds (h.fd_ne_sd ht hs hx) fun e => h.apart (Ne.symm hne) hs ht e hx
  have hc : ∀ {j t}, (v.set i (closeSession v.world s i) none).connections j = some t →
      j ≠ i ∧ v.connections j = some t := by
    intro j t ht
    rcases Server.set_connections.mp ht with ⟨-, he⟩ | ht
    · cases he
    · exact ht
  constructor
  · intro j t ht; exact h.live (hc ht).2
  · intro j t ht; exact h.sd (hc ht).2
  · intro j t ht
    obtain ⟨hne, ht⟩ := hc ht
    rw [Server.set_world, hkeep hne ht (.inl rfl)]; exact h.socket ht
  · intro j t d ht hd
    obtain ⟨hne, ht⟩ := hc ht
    rw [Server.set_world, hkeep hne ht (.inr hd)]; exact h.fd ht hd
  · intro j k t u d hjk ht hu; exact h.apart hjk (hc ht).2 (hc hu).2
  · intro j t ht hup
    obtain ⟨hne, ht⟩ := hc ht
    obtain ⟨g, d, hg, hn, hp, hd, hfd, hdisk⟩ := h.upload ht hup
    exact ⟨g, d, hg, hn, hp, hd, by rw [Server.set_world, hkeep hne ht (.inr hd)]; exact hfd, by simpa using hdisk⟩
  · intro j k t u f g hjk ht hu; exact h.paths hjk (hc ht).2 (hc hu).2

theorem Wf.accept (h : Wf v) {sd : Nat} {w' : World} {a : Act} (hfree : v.world.fds sd = none)
    (ht : Talks { v.world with fds := update v.world.fds sd (some .socket), trace := a :: v.world.trace } w')
    {s : Session} (hsd : s.sd = sd) (hst : s.state = .opLoginUsr) (hfd : s.fd = none) : Wf (v.set sd w' (some s)) := by
  have hkeep : ∀ {x k}, v.world.fds x = some k → w'.fds x = some k := by
    intro x k hx
    rw [ht.fds]
    show update v.world.fds sd _ x = _
    rw [update_of_ne (by rintro rfl; rw [hfree] at hx; cases hx), hx]
  have hup : ¬ s.uploads := by simp [Session.uploads, hst]
  constructor
  · intro j t hj
    rcases Server.set_connections.mp hj with ⟨rfl, he⟩ | ⟨-, hj⟩
    · cases he; rw [hst]; decide
    · exact h.live hj
  · intro j t hj
    rcases Server.set_connections.mp hj with ⟨rfl, he⟩ | ⟨-, hj⟩
    · cases he; exact hsd
    · exact h.sd hj
  · intro j t hj
    rcases Server.set_connections.mp hj with ⟨rfl, -⟩ | ⟨-, hj⟩
    · rw [Server.set_world, ht.fds]; exact update_self ..
    · exact hkeep (h.socket hj)
  · intro j t d hj hd
    rcases Server.set_connections.mp hj with ⟨rfl, he⟩ | ⟨-, hj⟩
    · cases he; rw [hfd] at hd; cases hd
    · obtain ⟨k, hk, hne⟩ := h.fd hj hd
      exact ⟨k, hkeep hk, hne⟩
  · intro j k t u d hjk hj hk hd
    rcases Server.set_connections.mp hj with ⟨rfl, he⟩ | ⟨-, hj⟩
    · cases he; rw [hfd] at hd; cases hd
    · rcases Server.set_connections.mp hk with ⟨rfl, he⟩ | ⟨-, hk⟩
      · cases he; rw [hfd]; simp
      · exact h.apart hjk hj hk hd
  · intro j t hj hju
    rcases Server.set_connections.mp hj with ⟨rfl, he⟩ | ⟨-, hj⟩
    · cases he; exact absurd hju hup
    · obtain ⟨g, d, hg, hn, hp, hd, hgf, hdisk⟩ := h.upload hj hju
      exact ⟨g, d, hg, hn, hp, hd, hkeep hgf, by rw [Server.set_world, ht.disk]; exact hdisk⟩
  · intro j k t u f g hjk hj hk hju hku
    rcases Server.set_connections.mp hj with ⟨rfl, he⟩ | ⟨-, hj⟩
    · cases he; exact absurd hju hup
    · rcases Server.set_connections.mp hk with ⟨rfl, he⟩ | ⟨-, hk⟩
      · cases he; exact absurd hku hup
      · exact h.paths hjk hj hk hju hku

theorem Server.set_set (v : Server) (i : Nat) (w w' : World) (x y : Option Session) :
    (v.set i w x).set i w' y = v.set i w' y := by
  simp [Server.set]

theorem Wf.step (h : Wf v) {e : Event} (hs : Steps P v e v') : Wf v' := by
  cases step_stepped hs with
  | accepted hfree _ ht => exact h.accept hfree ht rfl rfl rfl
  | idle => exact h
  | @transfer i ans s w' s' hc _ _ hd =>
    have := (h.read hc (.handled s.sd s.state none) s.buf).act (Server.set_connections.mpr (.inl ⟨rfl, rfl⟩))
      (performSessionAction_did hd)
    rwa [Server.set_set] at this
  | @line i ans s bs l b w' s' hc _ _ _ _ _ _ hd =>
    have := (h.read hc (.handled s.sd s.state (some l)) b).act (Server.set_connections.mpr (.inl ⟨rfl, rfl⟩))
      (performSessionAction_did hd)
    rw [Server.set_set] at this
    split
    · have := this.close (Server.set_connections.mpr (.inl ⟨rfl, rfl⟩))
      rwa [Server.set_set] at this
    · exact this
  | closed hc => rw [closeSession_congr]; exact h.close hc

/-! ## One session over an event -/

def Session.fresh (sd : Nat) (uid privileges : Int) : Session :=
  { buf := [], state := .opLoginUsr, reason := .noReason, privileges, uname := none, uid, fd := none, sd, file := none }

/-- `w'` comes after `w`, in the life of the session in slot `i`. -/
structure Grows (i : Nat) (w w' : World) : Prop where
  log : Logs (· ≠ .accepted i) w w'
  users : ∀ ⦃r⦄, r ∈ w.users.rows → r ∈ w'.users.rows
  files : ∀ ⦃r⦄, r ∈ w.files.rows → r ∈ w'.files.rows

theorem Grows.trans {w w₁ w₂ : World} (h : Grows i w w₁) (h' : Grows i w₁ w₂) : Grows i w w₂ where
  log := h.log.trans h'.log
  users := fun _ hr => h'.users (h.users hr)
  files := fun _ hr => h'.files (h.files hr)

theorem Grows.plain {w w' : World} (hl : Logs (·.isPlain) w w') (hu : w'.users = w.users) (hf : w'.files = w.files) :
    Grows i w w' where
  log := hl.mono fun a ha he => by subst he; cases ha
  users := fun _ hr => by rwa [hu]
  files := fun _ hr => by rwa [hf]

theorem Grows.handled (w : World) (sd : Nat) (st : SessState) (line : Option Bytes) :
    Grows i w (w.log (.handled sd st line)) where
  log := .cons rfl (by simp)
  users := fun _ hr => hr
  files := fun _ hr => hr

theorem Did.grows {ans : Answers} {w w' : World} {s' : Session} {line : Option Bytes} (h : Did P ans w s line w' s') :
    Grows i w w' where
  log := h.logs.mono fun a ha he => by subst he; exact ha
  users := fun _ hr => h.users_subset hr
  files := fun _ hr => h.files_subset hr

theorem Grows.closeSession (w : World) (s : Session) (j : Nat) : Grows i w (closeSession w s j) := by
  refine .plain (.closeSession w s j) ?_ (closeSession_files ..)
  rw [closeSession_eq, World.close]
  unfold clearFileFromSess
  split <;> simp

/-- A new client does not take the slot of a session. -/
theorem Steps.grows (h : Wf v) {e : Event} (hs : Steps P v e v') (hj : v.connections j = some t) :
    Grows j v.world v'.world := by
  cases step_stepped hs with
  | @accepted sd uid privileges w' hfree _ ht =>
    have hne : sd ≠ j := by
      rintro rfl
      rw [h.socket hj] at hfree
      cases hfree
    refine .trans ⟨.cons rfl ?_, fun _ hr => ?_, fun _ hr => ?_⟩ (.plain (.talks ht) ht.users ht.files)
    · simpa using hne
    · exact hr
    · exact hr
  | idle => exact ⟨.refl _, fun _ hr => hr, fun _ hr => hr⟩
  | transfer _ _ _ hx => exact (Grows.handled ..).trans (performSessionAction_did hx).grows
  | line _ _ _ _ _ _ _ hx =>
    have := (Grows.handled (i := j) ..).trans (performSessionAction_did hx).grows
    split
    · exact this.trans (.closeSession ..)
    · exact this
  | closed => exact .closeSession ..

def Event.At (j : Nat) : Event → Prop
  | .accept sd _ _ => sd = j
  | .acceptFailed => False
  | .ready i _ => i = j

instance (j : Nat) : DecidablePred (Event.At j)
  | .accept sd _ _ => inferInstanceAs (Decidable (sd = j))
  | .acceptFailed => inferInstanceAs (Decidable False)
  | .ready i _ => inferInstanceAs (Decidable (i = j))

theorem Steps.elsewhere {e : Event} (hs : Steps P v e v') (he : ¬ e.At j) : v'.connections j = v.connections j := by
  have hset : ∀ {i w x}, i ≠ j → (v.set i w x).connections j = v.connections j := fun h => update_of_ne (Ne.symm h) ..
  cases step_stepped hs with
  | accepted => exact hset he
  | idle => rfl
  | transfer => exact hset he
  | line => split <;> exact hset he
  | closed => exact hset he

theorem steps_ready_iff {ans : Answers} (hc : v.connections j = some s) :
    Steps P v (.ready j ans) v' ↔ serveSession P ans v j s = .ok v' := by
  unfold Steps Server.step Server.stepWith
  simp only [hc]

theorem Steps.empty {ans : Answers} (hs : Steps P v (.ready j ans) v') (hc : v.connections j = none) : v' = v := by
  unfold Steps Server.step Server.stepWith at hs
  simp only [hc] at hs
  cases hs
  rfl

theorem Steps.users {e : Event} (hs : Steps P v e v') :
    v'.world.users = v.world.users ∨ ∃ row, v.world.users.insert row = some v'.world.users := by
  cases step_stepped hs with
  | accepted _ _ ht => exact .inl (by rw [Server.set_world, ht.users])
  | idle => exact .inl rfl
  | transfer _ _ _ hx => exact (performSessionAction_did hx).users
  | line _ _ _ _ _ _ _ hx =>
    have h := (performSessionAction_did hx).users
    split
    · rwa [Server.set_world, closeSession_users]
    · exact h
  | closed => exact .inl (by rw [Server.set_world, closeSession_users])

theorem Steps.users_prefix {e : Event} (hs : Steps P v e v') : v.world.users.rows <+: v'.world.users.rows := by
  rcases hs.users with hu | ⟨row, hins⟩
  · exact hu ▸ List.prefix_rfl
  · rw [(UserTable.insert_rows hins).1]
    exact List.prefix_append ..

theorem Steps.users_subset {e : Event} (hs : Steps P v e v') {r : UserRow} (hr : r ∈ v.world.users.rows) :
    r ∈ v'.world.users.rows :=
  hs.users_prefix.subset hr

theorem Steps.line {ans : Answers} {l b : Bytes} (hs : Steps P v (.ready i ans) v') (hc : v.connections i = some s)
    (h1 : s.state ≠ .opUpload) (h2 : s.state ≠ .opDownload) (h3 : s.state ≠ .fin) (hl : lineOf ans s = some (l, b)) :
    ∃ w' s', performSessionAction P ans v.world { s with buf := b } (some l) = .ok (w', s') ∧
      v' = if s'.state = .err then v.set i (closeSession w' s' i) none else v.set i w' (some s') := by
  cases step_stepped hs with
  | idle hi => exact ((hi i ans s rfl hc).1.elim h1 h2).elim
  | transfer hc' hst =>
    obtain rfl := Option.some.inj (hc.symm.trans hc')
    exact (hst.elim h1 h2).elim
  | line hc' _ _ hread hne _ hq hx =>
    obtain rfl := Option.some.inj (hc.symm.trans hc')
    rw [← lineOf_eq hread hne, hl] at hq
    cases hq
    exact ⟨_, _, hx, rfl⟩
  | closed hc' _ _ hend =>
    obtain rfl := Option.some.inj (hc.symm.trans hc')
    rw [lineOf_end (hend.imp_right fun h => h.resolve_right h3)] at hl
    cases hl

/-- A session after an event is new, or as it was, or has acted. -/
theorem Steps.session {e : Event} {t' : Session} (hs : Steps P v e v') (hj : v'.connections j = some t') :
    (∃ uid privileges, e = .accept j uid privileges ∧ t' = .fresh j uid privileges) ∨ v.connections j = some t' ∨
    ∃ ans t line b, e = .ready j ans ∧ v.connections j = some t ∧
      Did P ans (v.world.log (.handled t.sd t.state line)) { t with buf := b } line v'.world t' := by
  cases step_stepped hs with
  | accepted =>
    rcases Server.set_connections.mp hj with ⟨rfl, he⟩ | ⟨-, hj⟩
    · cases he; exact .inl ⟨_, _, rfl, rfl⟩
    · exact .inr (.inl hj)
  | idle => exact .inr (.inl hj)
  | @transfer i ans s w' s' hc _ _ hx =>
    rcases Server.set_connections.mp hj with ⟨rfl, he⟩ | ⟨-, hj⟩
    · cases he; exact .inr (.inr ⟨ans, s, none, s.buf, rfl, hc, performSessionAction_did hx⟩)
    · exact .inr (.inl hj)
  | @line i ans s bs l b w' s' hc _ _ _ _ _ _ hx =>
    split at hj
    · rcases Server.set_connections.mp hj with ⟨-, he⟩ | ⟨-, hj⟩
      · cases he
      · exact .inr (.inl hj)
    · rename_i hst
      rcases Server.set_connections.mp hj with ⟨rfl, he⟩ | ⟨-, hj⟩
      · cases he
        refine .inr (.inr ⟨ans, s, some l, b, rfl, hc, ?_⟩)
        rw [if_neg hst]
        exact performSessionAction_did hx
      · exact .inr (.inl hj)
  | closed =>
    rcases Server.set_connections.mp hj with ⟨-, he⟩ | ⟨-, hj⟩
    · cases he
    · exact .inr (.inl hj)

end

theorem start_wf (disk : Bytes → Option Bytes) (users : UserTable) (files : FileTable) :
    Wf (Server.start disk users files) := by
  constructor
  · intro i s h; cases h
  · intro i s h; cases h
  · intro i s h; cases h
  · intro i s d h; cases h
  · intro i j s t d _ h; cases h
  · intro i s h; cases h
  · intro i j s t f g _ h; cases h

/-- The states of a server that has been started with any storage folder and tables. -/
def Reachable (P : Platform) (v : Server) : Prop :=
  ∃ disk users files es, Run (Steps P) (.start disk users files) es v

theorem connected_step {P : Platform} {v v' : Server} {e : Event} {j : Nat} {s : Session} (hs : Steps P v e v')
    (hj : v'.connections j = some s) : (∃ t, v.connections j = some t) ∨
      ∃ uid privileges, e = .accept j uid privileges := by
  cases step_stepped hs with
  | accepted =>
    rcases Server.set_connections.mp hj with ⟨rfl, -⟩ | ⟨-, hj⟩
    · exact .inr ⟨_, _, rfl⟩
    · exact .inl ⟨s, hj⟩
  | idle => exact .inl ⟨s, hj⟩
  | transfer hc =>
    rcases Server.set_connections.mp hj with ⟨rfl, -⟩ | ⟨-, hj⟩
    · exact .inl ⟨_, hc⟩
    · exact .inl ⟨s, hj⟩
  | line hc =>
    split at hj
    · rcases Server.set_connections.mp hj with ⟨rfl, -⟩ | ⟨-, hj⟩
      · exact .inl ⟨_, hc⟩
      · exact .inl ⟨s, hj⟩
    · rcases Server.set_connections.mp hj with ⟨rfl, -⟩ | ⟨-, hj⟩
      · exact .inl ⟨_, hc⟩
      · exact .inl ⟨s, hj⟩
  | closed hc =>
    rcases Server.set_connections.mp hj with ⟨rfl, -⟩ | ⟨-, hj⟩
    · exact .inl ⟨_, hc⟩
    · exact .inl ⟨s, hj⟩

theorem connected {P : Platform} {v v' : Server} {es : List Event} {j : Nat} {s : Session} (r : Run (Steps P) v es v')
    (hv : v.connections j = none) (hj : v'.connections j = some s) : ∃ uid privileges,
      Event.accept j uid privileges ∈ es := by
  induction r generalizing s with
  | nil => rw [hv] at hj; cases hj
  | snoc _ hs ih =>
    rcases connected_step hs hj with ⟨t, ht⟩ | ⟨uid, privileges, rfl⟩
    · obtain ⟨uid, privileges, h⟩ := ih ht
      exact ⟨uid, privileges, List.mem_append_left _ h⟩
    · exact ⟨uid, privileges, by simp⟩

theorem Reachable.exec {P : Platform} {ok : Server → Event → Prop} [∀ v e, Decidable (ok v e)] {v : Server}
    {es : List Event} (h : Server.exec ok P .fresh es = some v) : Reachable P v :=
  ⟨_, _, _, es, (Server.exec_run h).unguard⟩

theorem Reachable.wf {P : Platform} {v : Server} (h : Reachable P v) : Wf v := by
  obtain ⟨disk, users, files, es, r⟩ := h
  exact r.inv Wf (fun _ _ _ h hs => h.step hs) (start_wf disk users files)

def Fits (v : Server) : Prop := ∀ ⦃i s⦄, v.connections i = some s → i < maxConnections

theorem Fits.step {P : Platform} {v v' : Server} {e : Event} (h : Fits v) (hs : Steps P v e v') : Fits v' := by
  intro j t hj
  rcases hs.session hj with ⟨uid, privileges, rfl, -⟩ | hc | ⟨ans, s, line, b, -, hc, -⟩
  · cases step_stepped hs with
    | accepted _ hlt => exact hlt
    | idle => exact h hj
  · exact h hc
  · exact h hc

theorem Reachable.fits {P : Platform} {v : Server} (h : Reachable P v) : Fits v := by
  obtain ⟨disk, users, files, es, r⟩ := h
  exact r.inv Fits (fun _ _ _ h hs => h.step hs) fun _ _ h => by cases h

end BbsServer
