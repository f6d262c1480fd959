import BbsServer.WellFormed
import BbsServer.UploadSound

/-!
# Two readers of one socket

The line reader leaves in `sess->buf` what follows a line; `file_upload` reads the socket
past that buffer and keeps nothing of what follows the content. The bytes are read once
and in order exactly if the `file upload` line ends its read and no read of `file_upload`
goes beyond the content (`handover_iff`).
-/

namespace BbsServer

open CStr Packages Runs

/-- The upload of session `i`, as far as its bytes have been read: the decoder since the file
was created. -/
def uploadRead (i : Nat) : List Act → Dec UInt8
  | [] => .start 0
  | .created j _ _ size :: t => if j = i then .start size else uploadRead i t
  | .received j bs :: t => if j = i then feedAll filePd (uploadRead i t) bs else uploadRead i t
  | _ :: t => uploadRead i t

def BuffersEmpty (v : Server) : Prop := ∀ ⦃i s⦄, v.connections i = some s → s.state = .opUpload → s.buf = []

def KeepsExtra (v : Server) (e : Event) (v' : Server) : Prop :=
  ∀ ⦃i ans s⦄, e = .ready i ans → v.connections i = some s → s.state = .opUpload →
    ∃ x t, v'.connections i = some t ∧ t.buf = s.buf ++ x ∧
      (uploadRead i v'.world.trace).extra = (uploadRead i v.world.trace).extra ++ x

/-- Nothing follows the line that begins an upload, and a read of `file_upload` brings nothing
from beyond the content. -/
def HandsOver (v : Server) : Event → Prop
  | .ready i ans => ∀ s ∈ v.connections i,
      (s.state = .opWait → ∀ r ∈ lineOf ans s, AcceptsUpload ans r.1 → r.2 = []) ∧
      (s.state = .opUpload → (feedAll filePd (uploadRead i v.world.trace) (ans.read.getD [])).extra =
        (uploadRead i v.world.trace).extra)
  | _ => True

/-! ## What a read of the upload logs -/

section
variable {P : Platform} {ans : Answers} {w w' : World} {s s' : Session} {line : Option Bytes} {l : Bytes} {i : Nat}

theorem uploadRead_talks (h : Talks w w') : uploadRead i w'.trace = uploadRead i w.trace := by
  obtain ⟨acts, ha, rfl⟩ := h
  induction acts with
  | nil => rfl
  | cons a acts ih =>
    rw [← ih fun b hb => ha b (List.mem_cons_of_mem _ hb)]
    have := ha a (List.mem_cons_self ..)
    cases a with
    | said | wrote => rfl
    | _ => cases this

@[simp] theorem uploadRead_closeFd : uploadRead i (w.closeFd s).trace = uploadRead i w.trace := by
  unfold World.closeFd
  split <;> rfl

@[simp] theorem uploadRead_unlink (p : Bytes) : uploadRead i (w.unlink p).trace = uploadRead i w.trace := by
  rw [World.unlink_trace]
  rfl

@[simp] theorem uploadRead_uploaded (bs out : Bytes) :
    uploadRead s.sd (w.uploaded s bs out).trace = feedAll filePd (uploadRead s.sd w.trace) bs := by
  simp [World.uploaded, uploadRead]

/-- `file_upload` gives every byte of its read to the decoder. -/
theorem Did.uploadRead (h : Did P ans w s line w' s') (hst : s.state = .opUpload) :
    uploadRead s.sd w'.trace = feedAll filePd (uploadRead s.sd w.trace) (ans.read.getD []) := by
  cases h with
  | talked h => exact absurd hst h
  | ended _ _ hread => rw [hread]; rfl
  | removed _ _ _ _ hw =>
    rw [uploadRead_closeFd, uploadRead_unlink]
    rcases hw with ⟨hread, rfl⟩ | ⟨-, out, -, rfl⟩
    · rw [hread]; rfl
    · exact uploadRead_uploaded ..
  | writeFailed _ _ _ _ ht =>
    rw [uploadRead_closeFd, uploadRead_unlink, uploadRead_closeFd, uploadRead_talks ht, uploadRead_uploaded]
  | stored _ _ _ _ _ _ _ ht => rw [uploadRead_talks ht, uploadRead_uploaded]
  | _ => simp_all

/-- A line brings a session to `OP_UPLOAD` exactly if `file_receive_prepare` accepts it. -/
theorem Did.begins (h : Did P ans w s (some l) w' s') (hup : s.state ≠ .opUpload) :
    s'.state = .opUpload ↔ s.state = .opWait ∧ AcceptsUpload ans l := by
  constructor
  · intro hst'
    cases h with
    | talked => exact absurd hst' hup
    | accepted hst ha => exact ⟨hst, (ha l rfl).1⟩
    | dropped => rw [clearFileFromSess_state] at hst'; exact absurd hst' hup
    | moved _ _ hst => rcases hst with rfl | rfl <;> cases hst'
    | released _ _ hst => rcases hst with rfl | ⟨rfl, -⟩ <;> cases hst'
    | stored hst => exact absurd hst hup
    | notFound | notOpened | damaged | described => exact absurd hst' hup
    | _ => cases hst'
  · rintro ⟨hst, ha⟩
    have hquiet : ¬ Quiet ans w s (some l) := fun hq => ((hq l rfl).2 hst).2 ha
    cases h with
    | accepted => rfl
    | talked _ _ _ hq => exact absurd hq hquiet
    | dropped _ hq => exact absurd hq hquiet
    | refused _ hq => exact absurd hq hquiet
    | notFound _ hq => exact absurd hq hquiet
    | left _ hl hx => cases hl; exact absurd ha (isExit_accepts hx)
    | notOpened _ hl hr => cases hl; rw [ha.sendRow] at hr; cases hr
    | damaged _ hl hr => cases hl; rw [ha.sendRow] at hr; cases hr
    | sending _ hl hr => cases hl; rw [ha.sendRow] at hr; cases hr
    | _ => simp_all

/-! ## One event, and runs -/

variable {v v' : Server} {e : Event} {es : List Event}

theorem buffersEmpty_set (h : BuffersEmpty v) (i : Nat) (w : World) (x : Option Session) :
    BuffersEmpty (v.set i w x) ↔ ∀ s, x = some s → s.state = .opUpload → s.buf = [] := by
  constructor
  · intro hb s hs
    exact hb (Server.set_connections.mpr (.inl ⟨rfl, hs⟩))
  · intro hx j t ht
    rcases Server.set_connections.mp ht with ⟨-, he⟩ | ⟨-, ht⟩
    · exact hx t he
    · exact h ht

theorem keepsExtra_other {ans : Answers} (hc : v.connections i = some s) (hup : s.state ≠ .opUpload) :
    KeepsExtra v (.ready i ans) v' := by
  intro j _ t he ht hst
  cases he
  rw [hc] at ht
  cases ht
  exact absurd hst hup

/-- **One event** keeps the bytes in order exactly if it hands over. -/
theorem handover_step (h : Wf v) (hb : BuffersEmpty v) (hs : Steps P v e v') :
    BuffersEmpty v' ∧ KeepsExtra v e v' ↔ HandsOver v e := by
  cases step_stepped hs with
  | accepted =>
    refine iff_of_true ⟨(buffersEmpty_set hb ..).mpr fun s hs hst => ?_, fun _ _ _ he => by cases he⟩ trivial
    cases hs
    rfl
  | idle hi =>
    have hno : ∀ i ans s, e = .ready i ans → v.connections i = some s → s.state ≠ .opUpload ∧ s.state ≠ .opWait := by
      intro i ans s he hc
      obtain ⟨hst, hfd⟩ := hi i ans s he hc
      simp [h.idle_download hc hst hfd]
    refine iff_of_true ⟨hb, fun i ans s he hc hup => absurd hup (hno i ans s he hc).1⟩ ?_
    cases e with
    | ready i ans =>
      exact fun s hc => ⟨fun hw => absurd hw (hno i ans s rfl hc).2, fun hup => absurd hup (hno i ans s rfl hc).1⟩
    | _ => trivial
  | @transfer i ans s w' s' hc hst hfd hx =>
    have hd := performSessionAction_did hx
    have hbuf : s'.buf = s.buf := hd.buf_eq fun h => by simp [h] at hst
    have hup' : s'.state = .opUpload → s.state = .opUpload := by
      intro hst'
      rcases hd.upload (.inl hst') with ⟨f, d, hw, -⟩ | ⟨hup, -⟩
      · rw [hw] at hst
        simp at hst
      · exact hup.resolve_right fun h => by simp [h] at hst
    have hbs : BuffersEmpty (v.set i w' (some s')) := by
      refine (buffersEmpty_set hb ..).mpr fun t ht hst' => ?_
      cases ht
      rw [hbuf]
      exact hb hc (hup' hst')
    rw [and_iff_right hbs]
    constructor
    · intro hk t ht
      obtain rfl : s = t := Option.some.inj (hc.symm.trans ht)
      refine ⟨fun hw => by simp [hw] at hst, fun hup => ?_⟩
      obtain ⟨x, t, ht, htb, hx⟩ := hk rfl hc hup
      rw [Server.set_self] at ht
      cases ht
      rw [hbuf, List.self_eq_append_right] at htb
      rw [Server.set_world, htb, List.append_nil, ← h.sd hc, hd.uploadRead hup] at hx
      rw [← h.sd hc]
      exact hx
    · intro hk j _ t he ht hup
      cases he
      obtain rfl : s = t := Option.some.inj (hc.symm.trans ht)
      refine ⟨[], s', Server.set_self .., by rw [hbuf, List.append_nil], ?_⟩
      rw [Server.set_world, List.append_nil, ← (hk s hc).2 hup, ← h.sd hc, hd.uploadRead hup]
      rfl
  | @line i ans s bs l b w' s' hc hup hdl hread hne _ hq hx =>
    have hd := performSessionAction_did hx
    rw [← lineOf_eq hread hne] at hq
    have hk : HandsOver v (.ready i ans) ↔ (s.state = .opWait → AcceptsUpload ans l → b = []) := by
      simp only [HandsOver, hc, hq, Option.mem_some_iff, forall_eq']
      exact and_iff_left fun h => absurd h hup
    have hbegins := hd.begins (s := { s with buf := b }) hup
    rw [hk, and_iff_left (keepsExtra_other hc hup)]
    split
    · rename_i herr
      refine iff_of_true ((buffersEmpty_set hb ..).mpr fun s hs => by cases hs) fun hw ha => ?_
      have := hbegins.mpr ⟨hw, ha⟩
      rw [herr] at this
      cases this
    · rw [buffersEmpty_set hb]
      have hbuf : s.state = .opWait → s'.buf = b := fun hw => hd.buf_eq fun h => by
        rw [show s.state = .opUploadDescription from h] at hw
        cases hw
      constructor
      · intro hb' hw ha
        rw [← hbuf hw]
        exact hb' _ rfl (hbegins.mpr ⟨hw, ha⟩)
      · intro hk t he hst'
        cases he
        obtain ⟨hw, ha⟩ := hbegins.mp hst'
        rw [hbuf hw]
        exact hk hw ha
  | @closed i ans s st b hc hup hdl hend =>
    refine iff_of_true ⟨(buffersEmpty_set hb ..).mpr (fun s hs => by cases hs),
      keepsExtra_other hc hup⟩ fun t ht => ?_
    obtain rfl : s = t := Option.some.inj (hc.symm.trans ht)
    refine ⟨fun hw r hr => ?_, fun h => absurd h hup⟩
    rw [Option.mem_def, lineOf_end (hend.imp_right fun hend => hend.resolve_right (h.live hc))] at hr
    cases hr

/-- **Two readers.** In a run the buffer is empty whenever `file_upload` reads, and what it reads
beyond the content is kept, exactly if every event hands over. -/
theorem handover_iff {disk : Bytes → Option Bytes} {users : UserTable} {files : FileTable}
    (r : Run (Steps P) (.start disk users files) es v) :
    Always (Steps P) (.start disk users files) es BuffersEmpty ∧
      AlwaysStep (Steps P) (.start disk users files) es KeepsExtra ↔
      Run (Guarded HandsOver (Steps P)) (.start disk users files) es v :=
  always_step_iff_guarded Steps.det Wf BuffersEmpty KeepsExtra (fun _ _ _ h hs => h.step hs)
    (fun _ _ _ h hb hs => handover_step h hb hs) r (start_wf disk users files) fun _ _ h => by cases h

end

/-! ### A package behind the command

The client does not wait for `accept`. -/

def pipelinedUpload : List Event :=
  [.accept 4 0 0, .ready 4 { read := some (ascii "anonymous") },
    .ready 4 {
      read := some (ascii "file upload \"a\" 1 0\n" ++ fpdHeader 1 ++ ascii "x")
      availableSpace := 1
      probes := [{ opened := .fd 5 }] }]

theorem handover_pipelined_upload : ∃ v, Run (Steps default) .fresh pipelinedUpload v ∧ ¬ BuffersEmpty v := by
  have h : (Server.exec (fun _ _ => True) default .fresh pipelinedUpload).map
      (fun v => (v.connections 4).map fun s => (s.state, s.buf)) = some (some (.opUpload, fpdHeader 1 ++ ascii "x")) := by
    decide +kernel
  obtain ⟨v, hv, hs⟩ := Option.map_eq_some_iff.mp h
  obtain ⟨s, hs, he⟩ := Option.map_eq_some_iff.mp hs
  simp only [Prod.mk.injEq] at he
  refine ⟨v, (Server.exec_run hv).unguard, fun hb => ?_⟩
  have := hb hs he.1
  rw [he.2] at this
  exact absurd this (by decide)

theorem handover_iff_pipelined_upload : ∃ v,
    (Always (Steps default) .fresh pipelinedUpload BuffersEmpty ∧
      AlwaysStep (Steps default) .fresh pipelinedUpload KeepsExtra ↔
        Run (Guarded HandsOver (Steps default)) .fresh pipelinedUpload v) := by
  have h : (Server.exec (fun _ _ => True) default .fresh pipelinedUpload).isSome := by decide +kernel
  obtain ⟨v, hv⟩ := Option.isSome_iff_exists.mp h
  exact ⟨v, handover_iff (Server.exec_run hv).unguard⟩

end BbsServer
