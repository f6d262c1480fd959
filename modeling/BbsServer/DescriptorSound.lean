import BbsServer.WellFormed

/-!
# Descriptors

The open descriptors should be the sockets and the files of the live sessions, each closed
once and by its owner. Four exits break this: a failed `write` of `file_upload` closes
twice, a damaged file stays open, a new file takes the place of one that is still open, and
a session without a file is closed with its descriptor. A run keeps the descriptors owned
exactly if it takes none of them (`owned_iff`).
-/

namespace BbsServer

open CStr Function Runs

def Server.Owns (v : Server) (d : Nat) : Prop := ∃ i s, v.connections i = some s ∧ (s.sd = d ∨ s.fd = some d)

/-- A `close` by the owner of an open descriptor. -/
def Act.GoodClose : Act → Prop
  | .closed _ _ owned wasOpen => owned = true ∧ wasOpen = true
  | _ => True

/-- **Ownership** of the open descriptors, and of those that have been closed. -/
structure Owned (v : Server) : Prop where
  isOpen : ∀ d, (v.world.fds d).isSome ↔ v.Owns d
  socket : ∀ {i j s t}, i ≠ j → v.connections i = some s → v.connections j = some t → s.sd ≠ t.sd
  file : ∀ {i j s t d}, i ≠ j → v.connections i = some s → v.connections j = some t → s.fd = some d → t.fd ≠ some d
  apart : ∀ {i j s t}, v.connections i = some s → v.connections j = some t → s.fd ≠ some t.sd
  closes : ∀ a ∈ v.world.trace, a.GoodClose

def Damages (ans : Answers) (w : World) (line : Bytes) : Prop :=
  ∃ sf ∈ sendRow ans w line, ans.opened ≠ none ∧ sf.size ≠ ((w.disk (storagePath sf.hash)).getD []).length

def Opens (ans : Answers) (w : World) (line : Bytes) : Prop :=
  AcceptsUpload ans line ∨
    ∃ sf ∈ sendRow ans w line, ans.opened ≠ none ∧ sf.size = ((w.disk (storagePath sf.hash)).getD []).length

/-- The client is gone, has said `exit`, or its session is in `ERR`. -/
def Closes (ans : Answers) (s : Session) : Prop :=
  s.state ≠ .opUpload ∧ s.state ≠ .opDownload ∧ (ans.read = none ∨ ans.read = some [] ∨
    ∃ r ∈ lineOf ans s, s.state = .err ∨ (s.state = .opLoginUsr ∨ s.state = .opWait) ∧ isExit r.1)

/-- The event takes none of the four exits. -/
def KeepsOwned (v : Server) : Event → Prop
  | .ready i ans => ∀ s ∈ v.connections i,
      (s.state = .opUpload → ∀ f ∈ s.file, ¬ UploadWriteFails ans f) ∧
      (s.state = .opWait → ∀ r ∈ lineOf ans s,
        ¬ Damages ans v.world r.1 ∧ (s.fd ≠ none → ¬ Opens ans v.world r.1)) ∧
      (Closes ans s → s.file = none → s.fd = none)
  | _ => True

section
variable {P : Platform} {ans : Answers} {w w' : World} {s s' : Session} {line : Option Bytes} {p : Bytes}

/-! ## What an action does to descriptors -/

inductive FdChange (w : World) (s : Session) (w' : World) (s' : Session) : Prop
  | kept : s'.fd = s.fd → (∀ d, (w'.fds d).isSome = (w.fds d).isSome) → FdChange w s w' s'
  | closed : s'.fd = none → (∀ d, (w'.fds d).isSome ↔ s.fd ≠ some d ∧ (w.fds d).isSome) → FdChange w s w' s'

def Adds (w w' : World) (e : Nat) : Prop := w.fds e = none ∧ ∀ d, (w'.fds d).isSome ↔ d = e ∨ (w.fds d).isSome

theorem closeFd_change (w : World) (s : Session) (d : Nat) :
    ((w.closeFd s).fds d).isSome ↔ s.fd ≠ some d ∧ (w.fds d).isSome := by
  rw [World.closeFd_fds]
  by_cases h : s.fd = some d <;> simp [h]

theorem unlink_isSome (w : World) (p : Bytes) (d : Nat) : ((w.unlink p).fds d).isSome = (w.fds d).isSome := by
  rw [World.unlink_fds]
  split
  · rename_i h; simp [h.2]
  · rfl

theorem adds_create {size e : Nat} (h : w.create s p e size = .ok w') : Adds w w' e := by
  obtain ⟨⟨-, -, hfree⟩, rfl⟩ := World.create_ok h
  refine ⟨hfree, fun d => ?_⟩
  by_cases hd : d = e
  · subst hd; simp
  · simp [hd]

theorem adds_openRead {e : Nat} (h : w.openRead s p e = .ok w') : Adds w w' e := by
  obtain ⟨⟨-, -, hfree⟩, rfl⟩ := World.openRead_ok h
  refine ⟨hfree, fun d => ?_⟩
  by_cases hd : d = e
  · subst hd; simp
  · simp [hd]

theorem Adds.talks {w₁ : World} {e : Nat} (h : Adds w w₁ e) (ht : Talks w₁ w') : Adds w w' e := by
  unfold Adds
  rw [ht.fds]
  exact h

def Idles (ans : Answers) (w : World) (s : Session) (line : Option Bytes) : Prop :=
  s.state = .opWait → ∀ l, line = some l → ¬ Damages ans w l ∧ ¬ Opens ans w l

theorem idles_of_none {l : Bytes} (hr : sendRow ans w l = none) (ha : ¬ AcceptsUpload ans l) :
    ¬ Damages ans w l ∧ ¬ Opens ans w l := by
  simp [Damages, Opens, hr, ha]

theorem Quiet.idles (h : Quiet ans w s line) : Idles ans w s line := fun hst l hl =>
  idles_of_none ((h l hl).2 hst).1 ((h l hl).2 hst).2

theorem idles_of_state (h : s.state ≠ .opWait) : Idles ans w s line := fun hst => absurd hst h

theorem sendRow_accepts {l : Bytes} {sf : SFile} (h : sendRow ans w l = some sf) :
    ¬ AcceptsUpload ans l := fun ha => by
  rw [ha.sendRow] at h
  cases h

theorem Did.fdChange (h : Did P ans w s line w' s') :
    (Idles ans w s line ∧ FdChange w s w' s') ∨
    (s.state = .opWait ∧ s'.fd = s.fd ∧ (∀ l, line = some l → Damages ans w l) ∧ ∃ e, Adds w w' e) ∨
    (s.state = .opWait ∧ (∀ l, line = some l → Opens ans w l) ∧ ∃ e, s'.fd = some e ∧ Adds w w' e) := by
  have kept : ∀ {t : Session} {w₁ : World}, Idles ans w s line → t.fd = s.fd → Talks w w₁ →
      Idles ans w s line ∧ FdChange w s w₁ t :=
    fun hi he ht => ⟨hi, .kept he fun d => by rw [ht.fds]⟩
  have closed : ∀ {st b} {w₁ : World}, (∀ d, (w₁.fds d).isSome = (w.fds d).isSome) →
      FdChange w s (w₁.closeFd s) { s.cleared st with buf := b } :=
    fun he => .closed rfl fun d => by rw [closeFd_change, he]
  cases h with
  | talked _ _ _ hq ht => exact .inl (kept hq.idles rfl ht)
  | left _ hl hx ht =>
    refine .inl (kept (fun _ l' hl' => ?_) rfl ht)
    rw [hl] at hl'
    cases hl'
    exact idles_of_none (isExit_sendRow hx) (isExit_accepts hx)
  | registered hst _ _ _ ht => exact .inl ⟨idles_of_state (by simp [hst]), .kept rfl fun d => by rw [ht.fds]⟩
  | rolledBack hst _ _ _ _ ht | anonymous hst _ _ _ _ ht => exact .inl (kept (idles_of_state (by simp [hst])) rfl ht)
  | named hst _ _ ht => exact .inl (kept (idles_of_state (by simp [hst])) rfl ht)
  | welcomed hst _ _ _ ht => exact .inl (kept (idles_of_state (by simp [hst])) rfl ht)
  | loginAgain hst ht => exact .inl (kept (idles_of_state (by simp [hst])) rfl ht)
  | dropped _ hq ht =>
    refine .inl ⟨hq.idles, ?_⟩
    unfold clearFileFromSess
    split
    · exact .kept rfl fun d => by rw [ht.fds]
    · exact .closed rfl fun d => by rw [closeFd_change, ht.fds]
  | refused _ hq hw ht =>
    refine .inl ⟨hq.idles, closed fun d => ?_⟩
    rw [ht.fds]
    rcases hw with rfl | rfl | ⟨rfl, -⟩ <;> rfl
  | accepted hst ha _ hc ht =>
    exact .inr (.inr ⟨hst, fun l hl => .inl (ha l hl).1, _, rfl,
      Adds.talks (adds_create (w := { w with cwd := .work }) hc) ht⟩)
  | notFound _ hq => exact .inl ⟨hq.idles, .kept rfl fun d => rfl⟩
  | notOpened hst hl hr ho ht =>
    refine .inl (kept (fun _ l' hl' => ?_) rfl ht)
    rw [hl] at hl'
    cases hl'
    simp [Damages, Opens, ho, sendRow_accepts hr]
  | damaged hst hl hr ho hop hs ht =>
    refine .inr (.inl ⟨hst, rfl, fun l' hl' => ?_, _, (adds_openRead hop).talks ht⟩)
    rw [hl] at hl'
    cases hl'
    exact ⟨_, hr, by simp [ho], hs⟩
  | sending hst hl hr ho hop hs =>
    refine .inr (.inr ⟨hst, fun l' hl' => ?_, _, rfl, adds_openRead hop⟩)
    rw [hl] at hl'
    cases hl'
    exact .inr ⟨_, hr, by simp [ho], hs⟩
  | moved hst _ _ ht => exact .inl (kept (idles_of_state (by rcases hst with h | h <;> simp [h])) rfl ht)
  | released hst _ _ ht =>
    exact .inl ⟨idles_of_state (by rcases hst with h | h <;> simp [h]), closed fun d => by rw [ht.fds]⟩
  | ended hst => exact .inl ⟨idles_of_state (by rcases hst with h | h <;> simp [h]), .kept rfl fun d => rfl⟩
  | removed hst _ _ _ hw =>
    refine .inl ⟨idles_of_state (by simp [hst]), closed fun d => ?_⟩
    rw [unlink_isSome]
    rcases hw with ⟨-, rfl⟩ | ⟨-, out, -, rfl⟩ <;> simp
  | writeFailed hst _ _ _ ht =>
    refine .inl ⟨idles_of_state (by simp [hst]), .closed rfl fun d => ?_⟩
    rw [closeFd_change, unlink_isSome, closeFd_change, ht.fds, World.uploaded_fds]
    tauto
  | stored hst _ _ _ _ _ _ ht =>
    exact .inl ⟨idles_of_state (by simp [hst]), .kept rfl fun d => by rw [ht.fds, World.uploaded_fds]⟩
  | described hst => exact .inl ⟨idles_of_state (by simp [hst]), .kept rfl fun d => rfl⟩
  | saved hst => exact .inl ⟨idles_of_state (by simp [hst]), closed fun d => rfl⟩
  | notSaved hst => exact .inl ⟨idles_of_state (by simp [hst]), closed fun d => rfl⟩

/-! ## What an action closes -/

theorem goodClose_talks (ht : Talks w w') : Logs Act.GoodClose w w' := by
  obtain ⟨acts, ha, rfl⟩ := ht
  refine ⟨acts, rfl, fun a h => ?_⟩
  have := ha a h
  cases a <;> simp_all [Act.isTalk, Act.GoodClose]

theorem goodClose_closeFd (hfd : ∀ d, s.fd = some d → (w.fds d).isSome) : Logs Act.GoodClose w (w.closeFd s) := by
  unfold World.closeFd
  split
  · rename_i d hd
    exact .cons rfl (by exact ⟨by simp [hd], hfd d hd⟩)
  · exact .refl w

theorem goodClose_unlink (w : World) (p : Bytes) : Logs Act.GoodClose w (w.unlink p) :=
  .cons (World.unlink_trace w p) trivial

theorem goodClose_uploaded (w : World) (s : Session) (bs out : Bytes) : Logs Act.GoodClose w (w.uploaded s bs out) :=
  .cons (World.append_trace ..) trivial

theorem goodClose_clear (hfd : ∀ d, s.fd = some d → (w.fds d).isSome) :
    Logs Act.GoodClose w (clearFileFromSess w s).1 := by
  unfold clearFileFromSess
  split
  · exact .refl w
  · exact goodClose_closeFd hfd

theorem Did.goodCloses (h : Did P ans w s line w' s') (hfd : ∀ d, s.fd = some d → (w.fds d).isSome)
    (hw : s.state = .opUpload → ∀ f ∈ s.file, ¬ UploadWriteFails ans f) : Logs Act.GoodClose w w' := by
  cases h with
  | registered _ _ _ _ ht => exact .trans (.cons rfl (by trivial)) (goodClose_talks ht)
  | dropped _ _ ht => exact .trans (goodClose_talks ht) (goodClose_clear (by rw [ht.fds]; exact hfd))
  | refused _ _ hw ht =>
    refine .trans ?_ (.trans (goodClose_talks ht) (goodClose_closeFd ?_))
    · rcases hw with rfl | rfl | ⟨rfl, -⟩ <;> exact ⟨[], rfl, by simp⟩
    · rw [ht.fds]
      rcases hw with rfl | rfl | ⟨rfl, -⟩ <;> exact hfd
  | accepted _ _ _ hc ht =>
    obtain ⟨-, rfl⟩ := World.create_ok hc
    exact .trans (.cons rfl (by trivial)) (goodClose_talks ht)
  | damaged _ _ _ _ ho _ ht =>
    obtain ⟨-, rfl⟩ := World.openRead_ok ho
    exact .trans (.cons rfl (by trivial)) (goodClose_talks ht)
  | sending _ _ _ _ ho =>
    obtain ⟨-, rfl⟩ := World.openRead_ok ho
    exact .cons rfl (by trivial)
  | released _ _ _ ht => exact .trans (goodClose_talks ht) (goodClose_closeFd (by rw [ht.fds]; exact hfd))
  | notFound | ended | described => exact .refl w
  | removed _ _ _ _ hw =>
    refine .trans ?_ (.trans (goodClose_unlink _ _) (goodClose_closeFd fun d hd => ?_))
    · rcases hw with ⟨-, rfl⟩ | ⟨-, out, -, rfl⟩
      · exact .refl _
      · exact goodClose_uploaded w s _ out
    · rw [unlink_isSome]
      rcases hw with ⟨-, rfl⟩ | ⟨-, out, -, rfl⟩ <;> simpa using hfd d hd
  | writeFailed hst hf _ hc => exact absurd hc (hw hst _ hf)
  | stored _ _ _ _ _ _ _ ht => exact .trans (goodClose_uploaded w s _ _) (goodClose_talks ht)
  | saved => exact .trans (.cons rfl (by trivial)) (.trans (.cons rfl (by trivial)) (goodClose_closeFd hfd))
  | notSaved => exact .trans (.cons rfl (by trivial)) (goodClose_closeFd hfd)
  | _ => exact goodClose_talks ‹_›

/-- A failed `write` of `file_upload` closes its descriptor again. -/
theorem Did.badClose (h : Did P ans w s line w' s') (hst : s.state = .opUpload) (hfd : s.fd ≠ none) {f : SFile}
    (hf : s.file = some f) (hw : UploadWriteFails ans f) : ∃ a ∈ w'.trace, ¬ a.GoodClose := by
  cases h with
  | @writeFailed _ p out w₁ =>
    obtain ⟨d, hd⟩ := Option.ne_none_iff_exists'.mp hfd
    refine ⟨.closed s.sd d (s.sd == d || s.fd == some d) false, ?_, by simp [Act.GoodClose]⟩
    have hclosed : ((w₁.closeFd s).unlink p).fds d = none := by simp [hd]
    have hclose : ∀ w : World, w.closeFd s = w.close s d := fun w => by rw [World.closeFd, hd]
    rw [hclose ((w₁.closeFd s).unlink p)]
    show _ ∈ Act.closed _ _ _ _ :: _
    rw [hclosed]
    exact List.mem_cons_self ..
  | removed _ hf' _ hc =>
    rw [hf] at hf'
    cases hf'
    rcases hc with ⟨hr, -⟩ | ⟨-, h1, -, h2⟩
    · exact absurd hr hw.1
    · rcases hw.2 with h3 | ⟨-, h3, -⟩
      · exact absurd h3 h1
      · rw [h2] at h3; cases h3
  | stored _ hf' _ hn =>
    rw [hf] at hf'
    cases hf'
    exact absurd hw hn
  | ended _ _ hr => exact absurd hr hw.1
  | _ => simp_all

theorem Did.err_iff {l : Bytes} (h : Did P ans w s (some l) w' s') (hdl : s.state ≠ .opDownload) :
    s'.state = .err ↔ s.state = .err ∨ (s.state = .opLoginUsr ∨ s.state = .opWait) ∧ isExit l := by
  cases h with
  | talked _ _ _ hq =>
    have := (hq l rfl).1
    constructor
    · exact .inl
    · rintro (h | ⟨h, hx⟩)
      · exact h
      · rw [this h] at hx; cases hx
  | left hst hl hx => cases hl; simp [hst, hx]
  | registered hst hl hx => cases hl; simp [hst, hx]
  | rolledBack hst hl hx => cases hl; simp [hst, hx]
  | anonymous hst hl hx => cases hl; simp [hst, hx]
  | named hst hl hx => cases hl; simp [hst, hx]
  | dropped hst hq => simp [hst, (hq l rfl).1 (.inr hst)]
  | refused hst hq => simp [Session.cleared, hst, (hq l rfl).1 (.inr hst)]
  | notFound hst hq => simp [hst, (hq l rfl).1 (.inr hst)]
  | accepted hst ha =>
    have hx : isExit l = false := Bool.eq_false_iff.mpr fun hx => isExit_accepts hx (ha l rfl).1
    simp [hst, hx]
  | notOpened hst hl hr =>
    cases hl
    have hx : isExit l = false := Bool.eq_false_iff.mpr fun hx => by rw [isExit_sendRow hx] at hr; cases hr
    simp [hst, hx]
  | damaged hst hl hr =>
    cases hl
    have hx : isExit l = false := Bool.eq_false_iff.mpr fun hx => by rw [isExit_sendRow hx] at hr; cases hr
    simp [hst, hx]
  | sending hst hl hr =>
    cases hl
    have hx : isExit l = false := Bool.eq_false_iff.mpr fun hx => by rw [isExit_sendRow hx] at hr; cases hr
    simp [hst, hx]
  | moved hst _ hst' => rcases hst with hst | hst <;> rcases hst' with rfl | rfl <;> simp [hst]
  | released hst _ hst' =>
    have hst := hst.resolve_left hdl
    rcases hst' with rfl | ⟨-, h⟩
    · simp [hst, Session.cleared]
    · exact absurd h hdl
  | stored hst _ _ _ _ _ hst' => rcases hst' with rfl | ⟨rfl, -⟩ <;> simp [hst]
  | ended hst => rcases hst with ⟨hst, -⟩ | hst <;> simp [hst]
  | welcomed hst | loginAgain hst | removed hst | writeFailed hst | described hst | saved hst | notSaved hst =>
    simp [hst, Session.cleared]

theorem Did.err_same (h : Did P ans w s line w' s') (hdl : s.state ≠ .opDownload) (he : s'.state = .err) :
    s'.file = s.file ∧ s'.fd = s.fd := by
  cases h with
  | talked | left => exact ⟨rfl, rfl⟩
  | dropped hst => rw [clearFileFromSess_state, hst] at he; cases he
  | moved _ _ hst => rcases hst with rfl | rfl <;> cases he
  | released _ _ hst =>
    rcases hst with rfl | ⟨-, h⟩
    · cases he
    · exact absurd h hdl
  | stored _ _ _ _ _ _ hst => rcases hst with rfl | ⟨rfl, -⟩ <;> cases he
  | _ => simp_all [Session.cleared]

/-! ## One event -/

variable {v v' : Server} {e : Event} {es : List Event} {i : Nat}

theorem Wf.owns_iff (h : Wf v) :
    Owned v ↔ (∀ d, (v.world.fds d).isSome ↔ v.Owns d) ∧ ∀ a ∈ v.world.trace, a.GoodClose := by
  refine ⟨fun ho => ⟨ho.isOpen, ho.closes⟩, fun ⟨h1, h2⟩ => ⟨h1, ?_, h.apart, ?_, h2⟩⟩
  · intro i j s t hij hs ht
    rw [h.sd hs, h.sd ht]
    exact hij
  · intro i j s t hs ht hd
    rw [h.sd ht] at hd
    exact h.fd_ne_sd hs ht hd rfl

def OtherOwns (v : Server) (i d : Nat) : Prop :=
  ∃ j t, j ≠ i ∧ v.connections j = some t ∧ (t.sd = d ∨ t.fd = some d)

theorem owns_set {x : Option Session} {d : Nat} :
    (v.set i w x).Owns d ↔ OtherOwns v i d ∨ ∃ t, x = some t ∧ (t.sd = d ∨ t.fd = some d) := by
  constructor
  · rintro ⟨j, t, ht, hd⟩
    rcases Server.set_connections.mp ht with ⟨-, he⟩ | ⟨hj, ht⟩
    · exact .inr ⟨t, he, hd⟩
    · exact .inl ⟨j, t, hj, ht, hd⟩
  · rintro (⟨j, t, hj, ht, hd⟩ | ⟨t, he, hd⟩)
    · exact ⟨j, t, Server.set_connections.mpr (.inr ⟨hj, ht⟩), hd⟩
    · exact ⟨i, t, Server.set_connections.mpr (.inl ⟨rfl, he⟩), hd⟩

theorem Owned.split (h : Wf v) (ho : Owned v) (hs : v.connections i = some s) (d : Nat) :
    (v.world.fds d).isSome ↔ OtherOwns v i d ∨ d = i ∨ s.fd = some d := by
  rw [ho.isOpen]
  constructor
  · rintro ⟨j, t, ht, hd⟩
    by_cases hj : j = i
    · subst hj
      obtain rfl : s = t := Option.some.inj (hs.symm.trans ht)
      rw [h.sd hs] at hd
      exact .inr (hd.imp_left Eq.symm)
    · exact .inl ⟨j, t, hj, ht, hd⟩
  · rintro (⟨j, t, -, ht, hd⟩ | hd)
    · exact ⟨j, t, ht, hd⟩
    · exact ⟨i, s, hs, by rw [h.sd hs]; exact hd.imp_left Eq.symm⟩

theorem Wf.not_otherOwns (h : Wf v) (hs : v.connections i = some s) {d : Nat} (hd : d = i ∨ s.fd = some d) :
    ¬ OtherOwns v i d := by
  rintro ⟨j, t, hj, ht, ho⟩
  rw [h.sd ht] at ho
  rcases hd with rfl | hd
  · rcases ho with rfl | ho
    · exact hj rfl
    · exact h.fd_ne_sd ht hs ho rfl
  · rcases ho with rfl | ho
    · exact h.fd_ne_sd hs ht hd rfl
    · exact h.apart hj ht hs ho hd

theorem opens_not_damages {l : Bytes} (ho : Opens ans w l) : ¬ Damages ans w l := by
  rintro ⟨sf, hr, -, hne⟩
  rcases ho with ha | ⟨sf', hr', -, he⟩
  · rw [Option.mem_def, ha.sendRow] at hr
    cases hr
  · obtain rfl := Option.some.inj ((Option.mem_def.mp hr).symm.trans hr')
    exact hne he

theorem owned_act {b : Bytes} (h : Wf v) (ho : Owned v) (hs : v.connections i = some s)
    (hline : s.state = .opWait → ∃ l, line = some l)
    (hd : Did P ans (v.world.log (.handled s.sd s.state line)) { s with buf := b } line w' s') :
    Owned (v.set i w' (some s')) ↔ (s.state = .opUpload → ∀ f ∈ s.file, ¬ UploadWriteFails ans f) ∧
      (s.state = .opWait → ∀ l, line = some l → ¬ Damages ans v.world l ∧ (s.fd ≠ none → ¬ Opens ans v.world l)) := by
  have hwf : Wf (v.set i w' (some s')) := by
    have := (h.read hs (.handled s.sd s.state line) b).act (Server.set_self ..) hd
    rwa [Server.set_set] at this
  have hsplit := ho.split h hs
  have hfd : ∀ d, s.fd = some d → (v.world.fds d).isSome := fun d hd => (hsplit d).mpr (.inr (.inr hd))
  rw [hwf.owns_iff]
  by_cases hw : s.state = .opUpload → ∀ f ∈ s.file, ¬ UploadWriteFails ans f
  swap
  · refine iff_of_false (fun hg => ?_) fun hg => hw hg.1
    push Not at hw
    obtain ⟨hst, f, hf, hw⟩ := hw
    obtain ⟨g, d, -, -, -, hsd, -⟩ := h.upload hs (.inl hst)
    obtain ⟨a, ha, hbad⟩ := hd.badClose hst (by simp [hsd]) hf hw
    exact hbad (hg.2 a ha)
  have hcloses : ∀ a ∈ w'.trace, a.GoodClose := by
    intro a ha
    rcases (hd.goodCloses hfd hw).old ha with ha | ha
    · rcases List.mem_cons.mp ha with rfl | ha
      · trivial
      · exact ho.closes a ha
    · exact ha
  have hsd : s'.sd = i := (show s'.sd = s.sd from hd.sd_eq).trans (h.sd hs)
  -- what the descriptors should be afterwards
  have hopen : (∀ d, (w'.fds d).isSome ↔ (v.set i w' (some s')).Owns d) ↔
      ∀ d, (w'.fds d).isSome ↔ OtherOwns v i d ∨ d = i ∨ s'.fd = some d := by
    refine forall_congr' fun d => ?_
    rw [owns_set]
    simp only [Option.some.injEq, exists_eq_left', hsd, @eq_comm _ i d]
  rw [Server.set_world, hopen, and_iff_left hcloses, and_iff_right hw]
  rcases hd.fdChange with ⟨hi, hc⟩ | ⟨hst, he, hdam, e, hfree, hadd⟩ | ⟨hst, hop, e, he, hfree, hadd⟩
  · refine iff_of_true (fun d => ?_) fun hst l hl => ⟨(hi hst l hl).1, fun _ => (hi hst l hl).2⟩
    rcases hc with ⟨he, hc⟩ | ⟨he, hc⟩
    · rw [hc, he]; exact hsplit d
    · rw [hc, he, World.log_fds, hsplit d]
      constructor
      · rintro ⟨hne, ho | hi | hd⟩
        · exact .inl ho
        · exact .inr (.inl hi)
        · exact absurd hd hne
      · rintro (ho | rfl | hd)
        · exact ⟨fun hd => h.not_otherOwns hs (.inr hd) ho, .inl ho⟩
        · exact ⟨fun hd => h.fd_ne_sd hs hs hd rfl, .inr (.inl rfl)⟩
        · cases hd
  · -- the damaged file stays open
    obtain ⟨l, hl⟩ := hline hst
    refine iff_of_false (fun hg => ?_) fun hg => (hg hst l hl).1 (hdam l hl)
    have hnot : ¬ (OtherOwns v i e ∨ e = i ∨ s.fd = some e) := by
      rw [← hsplit e, show v.world.fds e = none from hfree]
      simp
    have := (hg e).mp ((hadd e).mpr (.inl rfl))
    rw [he] at this
    exact hnot this
  · -- a new file takes the place of the old one
    obtain ⟨l, hl⟩ := hline hst
    constructor
    · intro hg _ l' hl'
      refine ⟨opens_not_damages (hop l' hl'), fun hne => absurd ?_ hne⟩
      by_contra hne
      obtain ⟨d, hd⟩ := Option.ne_none_iff_exists'.mp hne
      have hopen := (hadd d).mpr (.inr (hfd d hd))
      rcases (hg d).mp hopen with hoth | hdi | hde
      · exact h.not_otherOwns hs (.inr hd) hoth
      · exact h.fd_ne_sd hs hs hd hdi
      · rw [he] at hde
        cases hde
        have := hfd _ hd
        rw [show v.world.fds _ = none from hfree] at this
        cases this
    · intro hg d
      have hnone : s.fd = none := by
        by_contra hne
        exact (hg hst l hl).2 hne (hop l hl)
      rw [hadd, he, World.log_fds, hsplit d, hnone, Option.some.injEq]
      constructor
      · rintro (rfl | ho | hi | hd)
        · exact .inr (.inr rfl)
        · exact .inl ho
        · exact .inr (.inl hi)
        · cases hd
      · rintro (ho | hi | rfl)
        · exact .inr (.inl ho)
        · exact .inr (.inr (.inl hi))
        · exact .inl rfl

theorem closeSession_isSome (w : World) (s : Session) (i d : Nat) :
    ((closeSession w s i).fds d).isSome ↔ d ≠ i ∧ (w.fds d).isSome ∧ (s.file ≠ none → s.fd ≠ some d) := by
  rw [closeSession_eq, World.close]
  dsimp only
  by_cases hd : d = i
  · simp [hd]
  · rw [update_of_ne hd]
    unfold clearFileFromSess
    split
    · rename_i hf; simp [hd, hf]
    · rename_i f hf
      rw [closeFd_change]
      simp [hd, hf, and_comm]

theorem owned_close (h : Wf v) (ho : Owned v) (hs : v.connections i = some s) :
    Owned (v.set i (closeSession v.world s i) none) ↔ (s.file = none → s.fd = none) := by
  have hsplit := ho.split h hs
  have hfd : ∀ d, s.fd = some d → (v.world.fds d).isSome := fun d hd => (hsplit d).mpr (.inr (.inr hd))
  have hcloses : ∀ a ∈ (closeSession v.world s i).trace, a.GoodClose := by
    have hi : ((clearFileFromSess v.world s).1.fds i).isSome := by
      rw [clear_fds (h.socket hs) (fun hd => h.fd_ne_sd hs hs hd rfl)]
      rfl
    have hown : ((clearFileFromSess v.world s).2.sd == i || (clearFileFromSess v.world s).2.fd == some i) = true := by
      rw [clearFileFromSess_sd, h.sd hs]
      simp
    have hlogs : Logs Act.GoodClose v.world (closeSession v.world s i) :=
      (goodClose_clear hfd).trans (.cons rfl (by exact ⟨hown, hi⟩))
    intro a ha
    exact (hlogs.old ha).elim (ho.closes a) id
  rw [(h.close hs).owns_iff, Server.set_world, and_iff_left hcloses]
  constructor
  · intro hg hfile
    by_contra hne
    obtain ⟨d, hd⟩ := Option.ne_none_iff_exists'.mp hne
    have := (hg d).mp ((closeSession_isSome ..).mpr ⟨h.fd_ne_sd hs hs hd, hfd d hd, by simp [hfile]⟩)
    rw [owns_set] at this
    rcases this with hoth | ⟨t, ht, -⟩
    · exact h.not_otherOwns hs (.inr hd) hoth
    · cases ht
  · intro hfile d
    rw [closeSession_isSome, owns_set, hsplit]
    simp only [reduceCtorEq, false_and, exists_false, or_false]
    constructor
    · rintro ⟨hdi, ho | hi | hd, hne⟩
      · exact ho
      · exact absurd hi hdi
      · by_cases hf : s.file = none
        · rw [hfile hf] at hd; cases hd
        · exact absurd hd (hne hf)
    · intro ho
      exact ⟨fun hi => h.not_otherOwns hs (.inl hi) ho, .inl ho, fun _ hd => h.not_otherOwns hs (.inr hd) ho⟩

/-- **One event** keeps the descriptors owned exactly if it takes none of the four exits. -/
theorem owned_step (h : Wf v) (ho : Owned v) (hs : Steps P v e v') : Owned v' ↔ KeepsOwned v e := by
  have hwf := h.step hs
  cases step_stepped hs with
  | @accepted sd uid privileges w' hfree _ ht =>
    refine iff_of_true (hwf.owns_iff.mpr ⟨fun d => ?_, fun a ha => ?_⟩) trivial
    · rw [Server.set_world, ht.fds]
      show (update v.world.fds sd _ d).isSome ↔ _
      have hother : OtherOwns v sd d ↔ v.Owns d := by
        constructor
        · exact fun ⟨j, t, _, ht, hd⟩ => ⟨j, t, ht, hd⟩
        · rintro ⟨j, t, hj, hd⟩
          refine ⟨j, t, ?_, hj, hd⟩
          rintro rfl
          rw [h.socket hj] at hfree
          cases hfree
      rw [owns_set, hother, ← ho.isOpen]
      by_cases hd : d = sd
      · subst hd; simp
      · simp [update_of_ne hd, Ne.symm hd]
    · rw [Server.set_world] at ha
      rcases (goodClose_talks ht).old ha with ha | ha
      · rcases List.mem_cons.mp ha with rfl | ha
        · trivial
        · exact ho.closes a ha
      · exact ha
  | idle hi =>
    refine iff_of_true ho ?_
    cases e with
    | ready i ans =>
      intro s hs
      obtain ⟨hst, hfd⟩ := hi i ans s rfl hs
      have hdl := h.idle_download hs hst hfd
      exact ⟨fun hup => by simp [hdl] at hup, fun hw => by simp [hdl] at hw, fun _ _ => hfd⟩
    | _ => trivial
  | @transfer i ans s w' s' hc hst hfd hx =>
    have hw : s.state ≠ .opWait := by rcases hst with h | h <;> simp [h]
    rw [owned_act (b := s.buf) h ho hc (fun h => absurd h hw) (performSessionAction_did hx)]
    simp only [KeepsOwned, hc, Option.mem_some_iff, forall_eq']
    constructor
    · exact fun ⟨hk, _⟩ => ⟨hk, fun h => absurd h hw, fun ⟨h1, h2, _⟩ => (hst.elim h1 h2).elim⟩
    · exact fun ⟨hk, _⟩ => ⟨hk, fun h => absurd h hw⟩
  | @line i ans s bs l b w' s' hc hup hdl hread hne _ hq hx =>
    have hd := performSessionAction_did hx
    rw [← lineOf_eq hread hne] at hq
    have hact := owned_act (s := s) (b := b) h ho hc (fun _ => ⟨l, rfl⟩) hd
    have herr := hd.err_iff hdl
    have hcl : Closes ans s ↔ s'.state = .err := by
      rw [herr]
      constructor
      · rintro ⟨-, -, hr | hr | ⟨r, hr, hx⟩⟩
        · rw [hread] at hr; cases hr
        · rw [hread] at hr; cases hr; exact absurd rfl hne
        · rw [hq, Option.mem_some_iff] at hr
          subst hr
          exact hx
      · exact fun hx => ⟨hup, hdl, .inr (.inr ⟨(l, b), hq, hx⟩)⟩
    have hk : KeepsOwned v (.ready i ans) ↔ (s.state = .opWait → ¬ Damages ans v.world l ∧
        (s.fd ≠ none → ¬ Opens ans v.world l)) ∧ (s'.state = .err → s.file = none → s.fd = none) := by
      simp only [KeepsOwned, hc, hq, Option.mem_some_iff, forall_eq', hcl]
      exact and_iff_right fun h => absurd h hup
    have hopen : (s.state = .opUpload → ∀ f ∈ s.file, ¬ UploadWriteFails ans f) := fun h => absurd h hup
    rw [and_iff_right hopen] at hact
    rw [hk]
    split
    · rename_i he
      have hset : Wf (v.set i w' (some s')) := by
        have := (h.read hc (.handled s.sd s.state (some l)) b).act (Server.set_self ..) hd
        rwa [Server.set_set] at this
      have hquiet : s.state = .opWait → ¬ Damages ans v.world l ∧ ¬ Opens ans v.world l := by
        intro hw
        rcases herr.mp he with hst | ⟨-, hx⟩
        · rw [show s.state = .err from hst] at hw; cases hw
        · exact idles_of_none (isExit_sendRow hx) (isExit_accepts hx)
      have howned : Owned (v.set i w' (some s')) := by
        refine hact.mpr fun hw l' hl => ?_
        cases hl
        exact ⟨(hquiet hw).1, fun _ => (hquiet hw).2⟩
      obtain ⟨hfile, hfd⟩ := hd.err_same hdl he
      have := owned_close hset howned (Server.set_self ..)
      rw [Server.set_set, Server.set_world, hfile, hfd] at this
      rw [this]
      exact ⟨fun hf => ⟨fun hw => ⟨(hquiet hw).1, fun _ => (hquiet hw).2⟩, fun _ => hf⟩, fun hf => hf.2 he⟩
    · rename_i he
      rw [hact]
      constructor
      · exact fun hk => ⟨fun hw => hk hw l rfl, fun h => absurd h he⟩
      · rintro ⟨hk, -⟩ hw l' hl
        cases hl
        exact hk hw
  | @closed i ans s st b hc hup hdl hend =>
    rw [closeSession_congr, owned_close h ho hc]
    have hread : ans.read = none ∨ ans.read = some [] := hend.imp_right fun hend => hend.resolve_right (h.live hc)
    have hcl : Closes ans s := ⟨hup, hdl, hread.imp_right .inl⟩
    simp only [KeepsOwned, hc, lineOf_end hread, Option.mem_some_iff, forall_eq', Option.not_mem_none, false_imp_iff,
      forall_const, implies_true, true_and, hcl]
    exact (and_iff_right fun h => absurd h hup).symm

/-- **Descriptors.** In every state of a run the open descriptors are owned and have been
closed by their owners, exactly if no event of the run takes one of the four exits. -/
theorem owned_iff {disk : Bytes → Option Bytes} {users : UserTable} {files : FileTable}
    (r : Run (Steps P) (.start disk users files) es v) :
    Always (Steps P) (.start disk users files) es Owned ↔
      Run (Guarded KeepsOwned (Steps P)) (.start disk users files) es v := by
  refine always_iff_guarded Steps.det Wf Owned (fun _ _ _ h hs => h.step hs)
    (fun _ _ _ h ho hs => owned_step h ho hs) r
    (start_wf disk users files) ((start_wf disk users files).owns_iff.mpr ⟨fun d => ?_, fun a ha => by cases ha⟩)
  refine iff_of_false (by simp [Server.start, World.start]) ?_
  rintro ⟨i, s, hs, -⟩
  cases hs

end

/-! ### A write that fails -/

def failedWrite : List Event :=
  [.accept 4 0 0, .ready 4 { read := some (ascii "anonymous") },
    .ready 4 { read := some (ascii "file upload \"a\" 1 0\n"), availableSpace := 1, probes := [{ opened := .fd 5 }] },
    .ready 4 { read := some (leBytes 8 0 ++ leBytes 8 1 ++ ascii "x"), write2 := .failed }]

theorem owned_failed_write : ∃ v, Run (Steps default) .fresh failedWrite v ∧ ¬ Owned v := by
  have h : (Server.exec (fun _ _ => True) default .fresh failedWrite).map
      (fun v => v.world.trace.any (· == .closed 4 5 true false)) = some true := by
    decide +kernel
  obtain ⟨v, hv, h⟩ := Option.map_eq_some_iff.mp h
  simp only [List.any_eq_true, beq_iff_eq] at h
  obtain ⟨a, ha, rfl⟩ := h
  refine ⟨v, (Server.exec_run hv).unguard, fun ho => ?_⟩
  exact absurd (ho.closes _ ha).2 (by decide)

theorem owned_iff_failed_write : ∃ v, Always (Steps default) .fresh failedWrite Owned ↔
    Run (Guarded KeepsOwned (Steps default)) .fresh failedWrite v := by
  have h : (Server.exec (fun _ _ => True) default .fresh failedWrite).isSome := by decide +kernel
  obtain ⟨v, hv⟩ := Option.isSome_iff_exists.mp h
  exact ⟨v, owned_iff (Server.exec_run hv).unguard⟩

end BbsServer
