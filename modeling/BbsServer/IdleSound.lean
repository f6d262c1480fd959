import BbsServer.WellFormed

/-!
# Idle sessions

A session that waits for a name, a password or a command should own no file and no
descriptor. Three exits leave them behind: a transfer whose file ends with nothing left
to send or receive, and `file_send_prepare` after it has found the row. A run is safe
exactly if none of them is taken (`idle_iff`).
-/

namespace BbsServer

open CStr Function Runs

def Session.idle (s : Session) : Prop := s.state = .opLoginUsr ∨ s.state = .opLoginPss ∨ s.state = .opWait

def Session.bare (s : Session) : Prop := s.file = none ∧ s.fd = none

def IdleBare (v : Server) : Prop := ∀ ⦃i s⦄, v.connections i = some s → s.idle → s.bare

/-- The file of a transfer ends when nothing is left: `file_download` and `file_upload`
go to `OP_WAIT` without `clear_file_from_sess`. -/
def EndsUncleared (ans : Answers) (s : Session) : Prop :=
  ans.read = some [] ∧ s.fd.isSome ∧ ∃ f ∈ s.file, f.rest = 0 ∧
    (s.state = .opUpload ∨ s.state = .opDownload ∧ f.packageRest ≠ 0)

/-- `file_send_prepare` fails with the row's file in `sess->file`. -/
def SendFails (ans : Answers) (w : World) (line : Bytes) : Prop :=
  ∃ sf ∈ sendRow ans w line, ans.opened = none ∨ sf.size ≠ ((w.disk (storagePath sf.hash)).getD []).length

/-- The event takes none of the exits that leave a file in an idle session. -/
def KeepsIdle (v : Server) : Event → Prop
  | .ready i ans => ∀ s ∈ v.connections i,
      ¬ EndsUncleared ans s ∧ (s.state = .opWait → ∀ r ∈ lineOf ans s, ¬ SendFails ans v.world r.1)
  | _ => True

section
variable {P : Platform} {ans : Answers} {w w' : World} {s s' : Session} {line : Option Bytes} {l : Bytes}

theorem clear_bare (w : World) (hs : s.bare) : (clearFileFromSess w s).2.bare := by
  unfold clearFileFromSess
  split
  · exact hs
  · exact ⟨rfl, rfl⟩

theorem Did.bare (h : Did P ans w s line w' s') (hs : s.idle → s.bare)
    (hend : ∀ f, s.file = some f → ans.read = some [] → f.rest = 0 →
      s.state ≠ .opUpload ∧ (s.state = .opDownload → f.packageRest = 0))
    (hsend : s.state = .opWait → ∀ l, line = some l → ¬ SendFails ans w l) (hi : s'.idle) : s'.bare := by
  cases h with
  | talked => exact hs hi
  | registered hst => exact hs (.inl hst)
  | rolledBack hst => exact hs (.inl hst)
  | anonymous hst => exact hs (.inl hst)
  | named hst => exact hs (.inl hst)
  | welcomed hst => exact hs (.inr (.inl hst))
  | loginAgain hst => exact hs (.inr (.inl hst))
  | dropped hst => exact clear_bare _ (hs (.inr (.inr hst)))
  | refused | removed | writeFailed | released | saved | notSaved => exact ⟨rfl, rfl⟩
  | notFound hst => exact ⟨rfl, (hs (.inr (.inr hst))).2⟩
  | notOpened hst hl hr ho => exact absurd ⟨_, hr, .inl ho⟩ (hsend hst _ hl)
  | damaged hst hl hr _ _ hd => exact absurd ⟨_, hr, .inr hd⟩ (hsend hst _ hl)
  | ended hst hf hread h0 =>
    obtain ⟨h1, h2⟩ := hend _ hf hread h0
    rcases hst with ⟨hst, hp⟩ | hst
    · exact absurd (h2 hst) hp
    · exact absurd hst h1
  | moved _ _ hst => rcases hst with rfl | rfl <;> simp [Session.idle] at hi
  | stored _ _ _ _ _ _ hst => rcases hst with rfl | ⟨rfl, -⟩ <;> simp [Session.idle] at hi
  | described hst => simp [Session.idle, hst] at hi
  | left | accepted | sending => simp [Session.idle] at hi

/-! ## The exits that do not clear -/

theorem fileUpload_ended {f : SFile} (hf : s.file = some f) (hread : ans.read = some []) (h0 : f.rest = 0) :
    fileUpload ans w s = .ok (w, { s with state := .opWait }) := by
  simp [fileUpload, fileUploadWith, hf, deref, hread, readLength, h0]

theorem transfer_uncleared (he : EndsUncleared ans s) (h : performSessionAction P ans w s none = .ok (w', s')) :
    s' = { s with state := .opWait } ∧ s.file ≠ none := by
  obtain ⟨hread, -, f, hf, h0, hst⟩ := he
  rw [Option.mem_def] at hf
  refine ⟨?_, by simp [hf]⟩
  rcases hst with hst | ⟨hst, hp⟩
  · rw [performSessionAction_upload hst, fileUpload_ended hf hread h0] at h
    cases h
    rfl
  · rw [performSessionAction_download hst, fileDownload_ended hf hread h0 hp] at h
    cases h
    rfl

theorem Did.send_uncleared (h : Did P ans w s (some l) w' s') (hst : s.state = .opWait) (hf : SendFails ans w l) :
    s'.state = .opWait ∧ s'.file ≠ none := by
  obtain ⟨sf, hr, hbad⟩ := hf
  have hquiet : ¬ Quiet ans w s (some l) := fun hq => by
    rw [Option.mem_def, ((hq l rfl).2 hst).1] at hr
    cases hr
  cases h with
  | talked _ _ _ hq => exact absurd hq hquiet
  | dropped _ hq => exact absurd hq hquiet
  | refused _ hq => exact absurd hq hquiet
  | notFound _ hq => exact absurd hq hquiet
  | notOpened | damaged => exact ⟨hst, by simp⟩
  | left _ hl hx =>
    cases hl
    rw [Option.mem_def, isExit_sendRow hx] at hr
    cases hr
  | accepted _ ha =>
    rw [Option.mem_def, (ha l rfl).1.sendRow] at hr
    cases hr
  | sending _ hl hr' ho _ hs =>
    cases hl
    obtain rfl := Option.some.inj ((Option.mem_def.mp hr).symm.trans hr')
    rcases hbad with hbad | hbad
    · rw [ho] at hbad
      cases hbad
    · exact absurd hs hbad
  | _ => simp_all

/-! ## One event, and runs -/

variable {v v' : Server} {e : Event} {es : List Event} {i : Nat}

theorem idleBare_set (h : IdleBare v) (i : Nat) (w : World) (x : Option Session) :
    IdleBare (v.set i w x) ↔ ∀ s, x = some s → s.idle → s.bare := by
  constructor
  · intro hb s hs
    exact hb (Server.set_connections.mpr (.inl ⟨rfl, hs⟩))
  · intro hx j t ht
    rcases Server.set_connections.mp ht with ⟨-, he⟩ | ⟨-, ht⟩
    · exact hx t he
    · exact h ht

/-- **One event** keeps idle sessions bare exactly if it takes none of the three exits. -/
theorem idle_step (h : IdleBare v) (hs : Steps P v e v') : IdleBare v' ↔ KeepsIdle v e := by
  cases step_stepped hs with
  | accepted =>
    refine iff_of_true ((idleBare_set h ..).mpr fun s hs _ => ?_) trivial
    cases hs
    exact ⟨rfl, rfl⟩
  | idle hi =>
    refine iff_of_true h ?_
    cases e with
    | ready i ans =>
      intro s hs
      obtain ⟨hst, hfd⟩ := hi i ans s rfl hs
      refine ⟨fun ⟨_, hs, _⟩ => by simp [hfd] at hs, fun hw => ?_⟩
      rw [hw] at hst
      simp at hst
    | _ => trivial
  | @transfer i ans s w' s' hc hst hfd hx =>
    rw [idleBare_set h]
    constructor
    · intro hb t ht
      obtain rfl : s = t := Option.some.inj (hc.symm.trans ht)
      refine ⟨fun he => ?_, fun hw => by rw [hw] at hst; simp at hst⟩
      obtain ⟨rfl, hf⟩ := transfer_uncleared he hx
      exact hf (hb _ rfl (.inr (.inr rfl))).1
    · intro hk t he
      cases he
      obtain ⟨hk, -⟩ := hk s hc
      refine (performSessionAction_did hx).bare (h hc) (fun f hf hread h0 =>
        ⟨fun hup => ?_, fun hdl => ?_⟩) fun hw => ?_
      · exact hk ⟨hread, hfd, f, hf, h0, .inl hup⟩
      · by_contra hp
        exact hk ⟨hread, hfd, f, hf, h0, .inr ⟨hdl, hp⟩⟩
      · rw [hw] at hst
        simp at hst
  | @line i ans s bs l b w' s' hc hup hdl hread hne _ hq hx =>
    rw [← lineOf_eq hread hne] at hq
    have hk : KeepsIdle v (.ready i ans) ↔ (s.state = .opWait → ¬ SendFails ans v.world l) := by
      simp only [KeepsIdle, hc, hq, Option.mem_some_iff, forall_eq']
      exact and_iff_right fun ⟨_, _, f, _, _, hst⟩ => hst.elim hup fun h => hdl h.1
    have hbad : s.state = .opWait → SendFails ans v.world l → s'.state = .opWait ∧ s'.file ≠ none := fun hw hf =>
      (performSessionAction_did hx).send_uncleared hw hf
    rw [hk]
    split
    · rename_i herr
      refine iff_of_true ((idleBare_set h ..).mpr fun s hs => by cases hs) fun hw hf => ?_
      have := (hbad hw hf).1
      rw [herr] at this
      cases this
    · rw [idleBare_set h]
      constructor
      · intro hb hw hf
        obtain ⟨hst, hfile⟩ := hbad hw hf
        exact hfile (hb _ rfl (.inr (.inr hst))).1
      · intro hk t he
        cases he
        refine (performSessionAction_did hx).bare (h hc :) (fun _ _ _ _ =>
          ⟨hup, fun h => absurd h hdl⟩) fun hw l' hl => ?_
        cases hl
        exact hk hw
  | @closed i ans s st b hc hup hdl hend =>
    refine iff_of_true ((idleBare_set h ..).mpr fun s hs => by cases hs) fun t ht => ?_
    obtain rfl : s = t := Option.some.inj (hc.symm.trans ht)
    refine ⟨fun ⟨_, _, f, _, _, hst⟩ => hst.elim hup fun h => hdl h.1, fun hw r hr => ?_⟩
    rcases hend with hend | hend | hend
    · rw [lineOf_end (.inl hend)] at hr; cases hr
    · rw [lineOf_end (.inr hend)] at hr; cases hr
    · rw [hw] at hend; cases hend

/-- **Idle sessions.** In every state of a run the idle sessions own no transfer, exactly
if no event of the run takes one of the three exits. -/
theorem idle_iff {disk : Bytes → Option Bytes} {users : UserTable} {files : FileTable}
    (r : Run (Steps P) (.start disk users files) es v) :
    Always (Steps P) (.start disk users files) es IdleBare ↔
      Run (Guarded KeepsIdle (Steps P)) (.start disk users files) es v :=
  always_iff_guarded Steps.det (fun _ => True) IdleBare (fun _ _ _ _ _ => trivial) (fun _ _ _ _ h hs => idle_step h hs) r
    trivial (fun _ _ h => by cases h)

end

/-! ### An empty upload

The client announces no byte and closes its side. -/

def emptyUpload : List Event :=
  [.accept 4 0 0, .ready 4 { read := some (ascii "anonymous") },
    .ready 4 { read := some (ascii "file upload \"a\" 0 0\n"), probes := [{ opened := .fd 5 }] },
      .ready 4 { read := some [] }]

theorem idle_empty_upload : ∃ v, Run (Steps default) .fresh emptyUpload v ∧ ¬ IdleBare v := by
  have h : (Server.exec (fun _ _ => True) default .fresh emptyUpload).map
      (fun v => (v.connections 4).map fun s => (s.state, s.file.isSome)) = some (some (.opWait, true)) := by
    decide +kernel
  obtain ⟨v, hv, hs⟩ := Option.map_eq_some_iff.mp h
  obtain ⟨s, hs, he⟩ := Option.map_eq_some_iff.mp hs
  simp only [Prod.mk.injEq] at he
  refine ⟨v, (Server.exec_run hv).unguard, fun hb => ?_⟩
  have := (hb hs (.inr (.inr he.1))).1
  rw [this] at he
  cases he.2

theorem idle_iff_empty_upload : ∃ v, Always (Steps default) .fresh emptyUpload IdleBare ↔
    Run (Guarded KeepsIdle (Steps default)) .fresh emptyUpload v := by
  have h : (Server.exec (fun _ _ => True) default .fresh emptyUpload).isSome := by decide +kernel
  obtain ⟨v, hv⟩ := Option.isSome_iff_exists.mp h
  exact ⟨v, idle_iff (Server.exec_run hv).unguard⟩

end BbsServer
