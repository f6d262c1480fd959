import Mathlib.Data.Nat.ModEq
import BbsServer.TransferSound

/-!
# The accounts of a transfer

What the destination of a transfer has accepted and what is left of it, over runs of the server. In steps that stay
within the counters, an upload never stores more than it has announced (`upload_bounded_iff`) and a download never
sends more than the size of its file (`download_bounded_iff`). Without short writes the accounts of both are right
(`transfers_accounted`).
-/

namespace BbsServer

open CStr Function Runs

def UploadBooks (R : Nat → Nat → Prop) (i : Nat) (v : Server) : Prop :=
  ∀ ⦃s⦄, v.connections i = some s → s.uploads → ∃ f c, s.file = some f ∧ v.world.disk (storagePath f.hash) = some c ∧
    R (c.length + f.rest) f.size ∧ f.size < 2 ^ 64 ∧ (s.state = .opUploadDescription → f.rest = 0)

def DownloadBooks (R : Nat → Nat → Prop) (i : Nat) (v : Server) : Prop :=
  ∀ ⦃s⦄, v.connections i = some s → s.downloads → s.fd.isSome ∧ ∃ f, s.file = some f ∧
    R ((deliveryAt i v).bytes.length + f.rest) f.size

def Answered (st : SessState) (C : Answers → SFile → Prop) (i : Nat) (v : Server) : Event → Prop
  | .ready j ans => j = i → ∀ s ∈ v.connections i, s.state = st → ∀ f ∈ s.file, C ans f
  | _ => True

instance (st : SessState) (C : Answers → SFile → Prop) [∀ ans f, Decidable (C ans f)] (i : Nat) (v : Server) :
    ∀ e, Decidable (Answered st C i v e)
  | .accept .. => .isTrue trivial
  | .acceptFailed => .isTrue trivial
  | .ready .. => by unfold Answered; infer_instance

def UploadKeeps (R : Nat → Nat → Prop) (ans : Answers) (f : SFile) : Prop :=
  UploadGoesOn ans f → UploadWhole ans f ∧ ∀ n l, l ≤ subSize f.rest (firstLength ans f) → f.size < 2 ^ 64 →
    R (n + f.rest) f.size → R (n + (firstLength ans f + l) + (subSize f.rest (firstLength ans f) - l)) f.size

def DownloadKeeps (R : Nat → Nat → Prop) (ans : Answers) (f : SFile) : Prop :=
  f.packageRest ≠ 0 → ans.read ≠ some [] → ∀ n ∈ ans.write1.accepted (sizeT (readLength ans.read)), ∀ m,
    R (m + f.rest) f.size → R (m + n + subSize f.rest (sizeT (readLength ans.read))) f.size

def DownloadWhole (ans : Answers) (f : SFile) : Prop :=
  f.packageRest = 0 ∨ ans.read = some [] ∨ ans.write1.Whole (sizeT (readLength ans.read))

instance (ans : Answers) (f : SFile) : Decidable (DownloadWhole ans f) := by unfold DownloadWhole; infer_instance

/-- A call of `file_upload` takes no counter below zero, passes only what `read` returned, and the file of the upload
stays within its size. -/
def UploadSafe (i : Nat) (v : Server) (e : Event) (v' : Server) : Prop :=
  ∀ ans s f, e = .ready i ans → v.connections i = some s → s.state = .opUpload → s.file = some f →
    (∃ s', v'.connections i = some s' ∧
      fileUploadCalc (.checked ans) ans (v.world.log (.handled i s.state none)) s = .ok (v'.world, s')) ∧
    ∀ c ∈ v'.world.disk (storagePath f.hash), c.length ≤ f.size

def DownloadSafe (i : Nat) (v : Server) (e : Event) (v' : Server) : Prop :=
  ∀ ans s f, e = .ready i ans → v.connections i = some s → s.file = some f →
    (s.state = .opDownload → (∃ s', v'.connections i = some s' ∧
        fileDownloadCalc (.checked ans) ans (v.world.log (.handled i s.state none)) s = .ok (v'.world, s')) ∧
      (deliveryAt i v').bytes.length ≤ f.size) ∧
    (s.state = .opDownloadWaitConfirmPackage → ∀ r ∈ lineOf ans s, ∃ s', v'.connections i = some s' ∧
      downloadConfirmCalc (.checked ans) (v.world.log (.handled i s.state (some r.1))) { s with buf := r.2 } r.1 =
        .ok (v'.world, s'))

def ConfirmsNat (i : Nat) (v : Server) : Event → Prop
  | .ready j ans => j = i → ∀ s ∈ v.connections i, s.state = .opDownloadWaitConfirmPackage → ∀ r ∈ lineOf ans s,
      isContinue r.1 → 0 ≤ scanContinue r.1
  | _ => True

def DownloadWithin (i : Nat) (v : Server) (e : Event) : Prop :=
  Answered .opDownload DownloadCounts i v e ∧ ConfirmsNat i v e

def WholeSteps (P : Platform) (i : Nat) : Server → Event → Server → Prop :=
  Guarded (Answered .opUpload (fun ans _ => WholeWrites ans) i) (Steps P)

def WritesWhole (i : Nat) (v : Server) (e : Event) : Prop :=
  Answered .opUpload (fun ans f => UploadGoesOn ans f → UploadWhole ans f) i v e ∧
    Answered .opDownload DownloadWhole i v e

instance (i : Nat) (v : Server) (e : Event) : Decidable (WritesWhole i v e) := by unfold WritesWhole; infer_instance

/-- After a step the transfer in slot `i` has delivered `size - rest` bytes, and all of them if it is finished. -/
structure Accounted (i : Nat) (v : Server) (e : Event) (v' : Server) : Prop where
  download : ∀ {s'}, v'.connections i = some s' → s'.downloads → ∃ f, s'.file = some f ∧
    sizeT (deliveryAt i v').bytes.length = subSize f.size f.rest
  upload : ∀ {s'}, v'.connections i = some s' → s'.uploads → ∃ f c, s'.file = some f ∧
    v'.world.disk (storagePath f.hash) = some c ∧ sizeT c.length = subSize f.size f.rest
  uploaded : ∀ {s'}, v'.connections i = some s' → s'.state = .opUploadDescription → ∃ f c, s'.file = some f ∧
    v'.world.disk (storagePath f.hash) = some c ∧ f.size ≤ c.length
  downloaded : ∀ {ans s s' f}, e = .ready i ans → v.connections i = some s → s.state = .opDownload → s.file = some f →
    f.size < 2 ^ 64 → v'.connections i = some s' → s'.state = .opWait →
    ans.read = some [] ∧ f.rest ≠ 0 ∨ f.size ≤ (deliveryAt i v').bytes.length

section
variable {P : Platform} {ans : Answers} {w w' : World} {s s' t : Session} {line : Option Bytes} {v v' : Server}
  {e : Event} {i j : Nat} {f : SFile} {R : Nat → Nat → Prop}

/-! ## Uploads -/

theorem Steps.upload_disk (h : Wf v) (hs : Steps P v e v') (he : ¬ e.At i) (hc : v.connections i = some t)
    (hup : t.uploads) (hf : t.file = some f) : v'.world.disk (storagePath f.hash) =
    v.world.disk (storagePath f.hash) := by
  obtain ⟨g, -, hg, hp, -, -, -, hdisk⟩ := h.upload_path hc hup
  obtain rfl : g = f := Option.some.inj (hg.symm.trans hf)
  have other : ∀ {j ans s b line w' s'}, j ≠ i → v.connections j = some s →
      performSessionAction P ans v.world { s with buf := b } line = .ok (w', s') →
      w'.disk (storagePath g.hash) = v.world.disk (storagePath g.hash) := by
    intro j ans s b line w' s' hji hs hx
    refine Did.kept_disk h hs (performSessionAction_did hx) hdisk fun hst => ?_
    rw [← hp]
    exact h.path_ne hji hs hc (.inl hst) hup
  cases step_stepped hs with
  | accepted _ _ ht => rw [Server.set_world, ht.disk]
  | idle => rfl
  | @transfer j ans s w' s' hc' _ _ hx => exact other (b := s.buf) he hc' hx
  | line hc' _ _ _ _ _ _ hx =>
    have := other he hc' hx
    split
    · rwa [Server.set_world, closeSession_disk]
    · exact this
  | closed => rw [Server.set_world, closeSession_disk]

theorem Did.upload_line (h : Did P ans w s line w' s') (hst : s.state ≠ .opUpload) (hup : s'.uploads) :
    (s.state = .opWait ∧ ∃ f, s'.file = some f ∧ s'.state = .opUpload ∧ f.rest = f.size ∧ f.size < 2 ^ 64 ∧
      w'.disk (storagePath f.hash) = some []) ∨
    s.state = .opUploadDescription ∧ w'.disk = w.disk ∧ ∃ f g, s.file = some f ∧ s'.file = some g ∧ g.hash = f.hash ∧
      g.size = f.size ∧ g.rest = f.rest := by
  cases h with
  | accepted hst' _ hsize hc ht =>
    exact .inl ⟨hst', _, rfl, rfl, rfl, hsize, by rw [ht.disk, World.create_content hc]⟩
  | described hst' _ _ hf => exact .inr ⟨hst', rfl, _, _, hf, rfl, rfl, rfl, rfl⟩
  | stored h => exact absurd h hst
  | moved _ _ hst => rcases hst with rfl | rfl <;> simp [Session.uploads] at hup
  | released _ _ hst => rcases hst with rfl | ⟨rfl, -⟩ <;> simp [Session.uploads, Session.cleared] at hup
  | _ => simp_all [Session.uploads, Session.cleared]

theorem whole_of_wholeWrites (hw : WholeWrites ans) : UploadWhole ans f :=
  (em _).imp id fun _ => ⟨fun _ => accepted_whole hw.1, fun _ _ => accepted_whole hw.2⟩

theorem UploadCounts.first_le (h : UploadCounts ans f) (hfail : ans.write1 = .failed → ans.read = some []) :
    firstLength ans f ≤ f.rest := by
  by_cases hread : ans.read = some []
  · refine (Nat.min_le_right _ _).trans ?_
    rw [hread]
    exact Nat.zero_le _
  · rcases h.resolve_left hread with h | ⟨-, h, -⟩
    · exact absurd (hfail h) hread
    · exact h

theorem uploadKeeps_eq (hw : WholeWrites ans) (h : UploadCounts ans f) : UploadKeeps (· = ·) ans f := by
  intro hon
  refine ⟨whole_of_wholeWrites hw, fun n l hl hsize he => ?_⟩
  have hle := h.first_le fun hw1 => not_not.mp fun hread => hon.1 ⟨hread, .inl hw1⟩
  have hsub : subSize f.rest (firstLength ans f) = f.rest - firstLength ans f := subSize_of_le (by omega) hle
  rw [hsub] at hl ⊢
  omega

theorem subSize_mod (a b : Nat) : b + subSize a b ≡ a [MOD 2 ^ 64] := by
  unfold Nat.ModEq subSize sizeT
  omega

theorem subSize_le {a b : Nat} (h : b ≤ a) : subSize a b ≤ a - b := by
  unfold subSize sizeT
  omega

theorem uploadKeeps_mod (h : UploadGoesOn ans f → UploadWhole ans f) : UploadKeeps (· ≡ · [MOD 2 ^ 64]) ans f := by
  refine fun hon => ⟨h hon, fun n l hl _ he => ?_⟩
  have hsum : n + (firstLength ans f + l) + (subSize f.rest (firstLength ans f) - l) =
      n + (firstLength ans f + subSize f.rest (firstLength ans f)) := by omega
  rw [hsum]
  exact ((subSize_mod _ _).add_left n).trans he

theorem Did.goesOn (h : Did P ans w s line w' s') (hst : s.state = .opUpload) (hf : s.file = some f)
    (hup : s'.uploads) :
    UploadGoesOn ans f := by
  cases h with
  | stored _ hf' _ hnw hnc =>
    obtain rfl := Option.some.inj (hf.symm.trans hf')
    exact ⟨hnw, hnc⟩
  | talked h => exact absurd hst h
  | ended => rcases hup with h | h <;> cases h
  | removed | writeFailed => rcases hup with h | h <;> cases h
  | _ => simp_all

theorem uploadBooks_read {a : Act} (h : Wf v) (hc : v.connections i = some s) (hb : UploadBooks R i v)
    (hst : s.state = .opUpload)
    (hk : ∀ f ∈ s.file, UploadKeeps R ans f) (hx : fileUpload ans (v.world.log a) s = .ok (w', s')) :
    UploadBooks R i (v.set i w' (some s')) := by
  intro t ht hup
  obtain rfl : s' = t := by simpa using ht
  obtain ⟨f, c, hf, hdisk, hR, hsize, -⟩ := hb hc (.inl hst)
  have hdid : Did default ans (v.world.log a) s none w' s' := fileUpload_did hst hx
  obtain ⟨hwhole, hkeeps⟩ := hk f hf (hdid.goesOn hst hf hup)
  obtain ⟨out, l, hcount⟩ := upload_counted hst hf hwhole hx
  obtain ⟨g, hg, hhash, hgs, hlen, hrest, hdone⟩ := hcount.goesOn hup
  obtain ⟨f', d, hf', -, -, hfd, hfds, -⟩ := h.upload_path hc (.inl hst)
  obtain rfl : f' = f := Option.some.inj (hf'.symm.trans hf)
  refine ⟨g, c ++ out, hg, ?_, ?_, by rwa [hgs], hdone⟩
  · rw [hhash, Server.set_world]
    have hsome : (w'.disk (storagePath f'.hash)).isSome := by
      rcases hdid.upload hup with ⟨_, _, hw, -⟩ | ⟨-, _, _, -, -, -, -, -, -, -, -, he⟩
      · rw [hst] at hw
        cases hw
      · rw [he, World.log_disk, hdisk]
        rfl
    rcases hcount.disk (storagePath f'.hash) with hnone | he
    · rw [hnone] at hsome
      cases hsome
    · rw [he, World.uploaded_disk, if_pos (by simp [hfd, hfds]), World.log_disk, hdisk]
      rfl
  · rw [List.length_append, hlen, hrest, hgs]
    exact hkeeps _ _ hcount.within hsize hR

theorem UploadBooks.step (hR : ∀ n, R n n) (h : Wf v) (hb : UploadBooks R i v)
    (hok : Answered .opUpload (UploadKeeps R) i v e) (hs : Steps P v e v') : UploadBooks R i v' := by
  by_cases he : e.At i
  case neg =>
    intro t ht hup
    rw [hs.elsewhere he] at ht
    obtain ⟨f, c, hf, hdisk, hbooks⟩ := hb ht hup
    exact ⟨f, c, hf, by rw [hs.upload_disk h he ht hup hf, hdisk], hbooks⟩
  cases step_stepped hs with
  | @accepted sd =>
    obtain rfl : sd = i := he
    intro t ht hup
    obtain rfl := Option.some.inj ((Server.set_self ..).symm.trans ht)
    rcases hup with h | h <;> cases h
  | idle => exact hb
  | @transfer j ans s w' s' hc hst _ hx =>
    obtain rfl : j = i := he
    rcases hst with hst | hst
    · refine uploadBooks_read h hc hb hst (hok rfl s hc hst) (a := .handled s.sd s.state none) ?_
      rwa [performSessionAction_upload hst] at hx
    · intro t ht hup
      obtain rfl := Option.some.inj ((Server.set_self ..).symm.trans ht)
      rcases (performSessionAction_did hx).upload_line (by simp [hst]) hup with ⟨hst', -⟩
        | ⟨hst', -⟩ <;> simp [hst] at hst'
  | @line j ans s bs l b w' s' hc hst _ _ _ _ _ hx =>
    obtain rfl : j = i := he
    intro t ht hup
    split at ht
    · cases (Server.set_self ..).symm.trans ht
    rename_i herr
    rw [if_neg herr, Server.set_world]
    obtain rfl := Option.some.inj ((Server.set_self ..).symm.trans ht)
    rcases (performSessionAction_did hx).upload_line hst hup with ⟨-, f, hf, hst', hrest, hsize, hdisk⟩
      | ⟨hst', hdisk, f, g, hf, hg, hhash, hgs, hrest⟩
    · refine ⟨f, [], hf, hdisk, ?_, hsize, fun h => ?_⟩
      · rw [List.length_nil, Nat.zero_add, hrest]
        exact hR _
      · rw [hst'] at h
        cases h
    · obtain ⟨f', c, hf', hc', hR', hsize, hdone⟩ := hb hc (.inr hst')
      obtain rfl : f' = f := Option.some.inj (hf'.symm.trans hf)
      exact ⟨g, c, hg, by rw [hdisk, hhash]; exact hc', by rwa [hrest, hgs], by rwa [hgs],
        fun _ => by rw [hrest]; exact hdone hst'⟩
  | @closed j ans s st b hc =>
    obtain rfl : j = i := he
    intro t ht
    cases (Server.set_self ..).symm.trans ht

/-! ## Downloads -/

theorem Did.download_begins (h : Did P ans w s line w' s') (hst : ¬ s.downloads) (hst' : s'.downloads) :
    s.state = .opWait ∧ s'.state = .opDownload := by
  cases h with
  | sending h => exact ⟨h, rfl⟩
  | talked => exact absurd hst' hst
  | moved h => exact absurd h hst
  | released h => exact absurd h hst
  | dropped =>
    unfold Session.downloads at hst'
    rw [clearFileFromSess_state] at hst'
    exact absurd hst' hst
  | notFound | notOpened | damaged | described => exact absurd hst' hst
  | stored _ _ _ _ _ _ h => rcases h with rfl | ⟨rfl, -⟩ <;> rcases hst' with h | h <;> cases h
  | _ => rcases hst' with h | h <;> cases h

theorem downloadConfirm_counted {l : Bytes} (hf : s.file = some f) (h : downloadConfirm w s l = .ok (w', s')) :
    delivery (logOf s.sd w'.trace) = delivery (logOf s.sd w.trace) ∧
    (s'.downloads → s'.fd = s.fd ∧ ∃ g, s'.file = some g ∧ g.size = f.size ∧ g.rest = f.rest) := by
  unfold downloadConfirm at h
  split at h
  · obtain ⟨g, hg, h⟩ := bind_ok.mp h
    obtain rfl : f = g := Option.some.inj (hf.symm.trans (deref_ok.mp hg))
    cases h
    exact ⟨rfl, fun _ => ⟨rfl, _, rfl, rfl, rfl⟩⟩
  split at h
  · obtain ⟨g, hg, h⟩ := bind_ok.mp h
    rw [clearFileFromSess_some w hf] at h
    cases h
    exact ⟨delivery_closeFd, fun hd => by rcases hd with h | h <;> cases h⟩
  · cases h
    exact ⟨rfl, fun _ => ⟨rfl, f, hf, rfl, rfl⟩⟩

theorem downloadBooks_read (st : SessState) (line : Option Bytes) (h : Wf v) (hc : v.connections i = some s)
    (hb : DownloadBooks R i v) (hst : s.state = .opDownload) (hk : ∀ f ∈ s.file, DownloadKeeps R ans f)
    (hx : fileDownload ans (v.world.log (.handled s.sd st line)) s = .ok (w', s')) :
    DownloadBooks R i (v.set i w' (some s')) := by
  intro t ht hd
  obtain rfl : s' = t := by simpa using ht
  obtain rfl : s.sd = i := h.sd hc
  obtain ⟨hfd, f, hf, hR⟩ := hb hc (.inl hst)
  unfold deliveryAt
  rw [Server.set_world]
  rcases download_counted hst hf hx with ⟨he, hsame, -⟩ | ⟨n, hp, hread, hacc, hlen, hsame, -⟩
  · obtain ⟨hfd', hf'⟩ := hsame hd
    refine ⟨by rwa [hfd'], f, hf', ?_⟩
    rw [he]
    exact hR
  · obtain ⟨hfd', g, hg, hsize, hrest⟩ := hsame hd
    refine ⟨by rwa [hfd'], g, hg, ?_⟩
    rw [hlen, hrest, hsize]
    exact hk f hf hp hread n hacc _ hR

theorem downloadBooks_confirm {l b : Bytes} (h : Wf v) (hc : v.connections i = some s) (hb : DownloadBooks R i v)
    (hst : s.state = .opDownloadWaitConfirmPackage)
    (hx : downloadConfirm (v.world.log (.handled s.sd s.state (some l))) { s with buf := b } l = .ok (w', s')) :
    DownloadBooks R i (v.set i w' (some s')) := by
  intro t ht hd
  obtain rfl : s' = t := by simpa using ht
  obtain rfl : s.sd = i := h.sd hc
  obtain ⟨hfd, f, hf, hR⟩ := hb hc (.inr hst)
  obtain ⟨he, hsame⟩ := downloadConfirm_counted (s := { s with buf := b }) hf hx
  obtain ⟨hfd', g, hg, hsize, hrest⟩ := hsame hd
  refine ⟨by rwa [hfd'], g, hg, ?_⟩
  unfold deliveryAt
  rw [Server.set_world, show delivery (logOf s.sd w'.trace) = _ from he, delivery_handled, hrest, hsize]
  exact hR

theorem DownloadBooks.step (hR : ∀ n, R n n) (h : Wf v) (hb : DownloadBooks R i v)
    (hok : Answered .opDownload (DownloadKeeps R) i v e) (hs : Steps P v e v') : DownloadBooks R i v' := by
  by_cases he : e.At i
  case neg =>
    intro t ht hd
    rw [hs.elsewhere he] at ht
    unfold deliveryAt
    rw [hs.logOf_eq h he]
    exact hb ht hd
  intro t ht hd
  have hcases := step_stepped hs
  cases hcases with
  | @accepted sd =>
    obtain rfl : sd = i := he
    obtain rfl := Option.some.inj ((Server.set_self ..).symm.trans ht)
    rcases hd with h | h <;> cases h
  | idle => exact hb ht hd
  | @transfer j ans s w' s' hc hst _ hx =>
    obtain rfl : j = i := he
    rcases hst with hst | hst
    · obtain rfl := Option.some.inj ((Server.set_self ..).symm.trans ht)
      have := ((performSessionAction_did hx).download_begins (fun h => by rcases h with h | h <;> simp [hst] at h) hd).1
      rw [hst] at this
      cases this
    · refine downloadBooks_read s.state none h hc hb hst (hok rfl s hc hst) ?_ ht hd
      rwa [performSessionAction_download hst] at hx
  | @line j ans s bs l b w' s' hc _ hdl _ _ _ _ hx =>
    obtain rfl : j = i := he
    have herr : s'.state ≠ .err := by
      intro herr
      rw [if_pos herr] at ht
      cases (Server.set_self ..).symm.trans ht
    rw [if_neg herr] at ht ⊢
    by_cases hst : s.state = .opDownloadWaitConfirmPackage
    · refine downloadBooks_confirm h hc hb hst (l := l) (b := b) ?_ ht hd
      rwa [performSessionAction_confirm (s := { s with buf := b }) hst] at hx
    · have hnew : ¬ ({ s with buf := b } : Session).downloads := fun h => h.elim hdl hst
      obtain rfl := Option.some.inj ((Server.set_self ..).symm.trans ht)
      obtain ⟨hw, hst'⟩ := (performSessionAction_did hx).download_begins hnew hd
      rw [if_neg herr] at hs
      obtain ⟨path, content, d, f, hfd, -, -, hf, hsize, hrest, -, hstart⟩ := download_begins h hs hc hw ht hst'
      refine ⟨by rw [hfd]; rfl, f, hf, ?_⟩
      rw [hstart, hrest, hsize]
      exact (Nat.zero_add content.length).symm ▸ hR content.length
  | @closed j ans s st b hc =>
    obtain rfl : j = i := he
    cases (Server.set_self ..).symm.trans ht

/-! ## Steps within the counters -/

theorem Steps.transfer (hs : Steps P v (.ready i ans) v') (hc : v.connections i = some s)
    (hst : s.state = .opUpload ∨ s.state = .opDownload) (hfd : s.fd.isSome) :
    ∃ s', v'.connections i = some s' ∧ performSessionAction P ans v.world s none = .ok (v'.world, s') := by
  cases step_stepped hs with
  | idle hi =>
    have := (hi i ans s rfl hc).2
    rw [this] at hfd
    cases hfd
  | transfer hc' _ _ hx =>
    obtain rfl := Option.some.inj (hc.symm.trans hc')
    exact ⟨_, Server.set_self .., hx⟩
  | line hc' h1 h2 =>
    obtain rfl := Option.some.inj (hc.symm.trans hc')
    exact (hst.elim h1 h2).elim
  | closed hc' h1 h2 =>
    obtain rfl := Option.some.inj (hc.symm.trans hc')
    exact (hst.elim h1 h2).elim

theorem Steps.upload (hs : Steps P v (.ready i ans) v') (h : Wf v) (hc : v.connections i = some s)
    (hst : s.state = .opUpload) :
    ∃ s', v'.connections i = some s' ∧ fileUpload ans (v.world.log (.handled i s.state none)) s =
    .ok (v'.world, s') := by
  obtain ⟨-, d, -, -, -, hfd, -⟩ := h.upload_path hc (.inl hst)
  obtain ⟨s', hc', hx⟩ := hs.transfer hc (.inl hst) (by rw [hfd]; rfl)
  obtain rfl : s.sd = i := h.sd hc
  exact ⟨s', hc', by rwa [performSessionAction_upload hst] at hx⟩

theorem Steps.download (hs : Steps P v (.ready i ans) v') (h : Wf v) (hc : v.connections i = some s)
    (hst : s.state = .opDownload) (hfd : s.fd.isSome) : ∃ s', v'.connections i = some s' ∧
      fileDownload ans (v.world.log (.handled i s.state none)) s = .ok (v'.world, s') := by
  obtain ⟨s', hc', hx⟩ := hs.transfer hc (.inr hst) hfd
  obtain rfl : s.sd = i := h.sd hc
  exact ⟨s', hc', by rwa [performSessionAction_download hst] at hx⟩

theorem upload_safe_iff (h : Wf v) (hb : UploadBooks (· = ·) i v)
    (hw : Answered .opUpload (fun ans _ => WholeWrites ans) i v e)
    (hs : Steps P v e v') : UploadSafe i v e v' ↔ Answered .opUpload UploadCounts i v e := by
  cases e with
  | accept | acceptFailed => exact iff_of_true (fun _ _ _ he => by cases he) trivial
  | ready j ans =>
    by_cases hj : j = i
    case neg => exact iff_of_true (fun _ _ _ he => absurd (Event.ready.inj he).1 hj) fun he => absurd he hj
    subst hj
    constructor
    · intro hsafe _ s hc hst f hf
      obtain ⟨⟨s', hc', hx⟩, -⟩ := hsafe ans s f rfl hc hst hf
      obtain ⟨s'', hc'', hx'⟩ := hs.upload h hc hst
      obtain rfl : s' = s'' := Option.some.inj (hc'.symm.trans hc'')
      exact (upload_checked_iff hf (hw rfl s hc hst f hf) hx').mp hx
    · intro hok ans' s f he hc hst hf
      cases he
      obtain ⟨s', hc', hx⟩ := hs.upload h hc hst
      refine ⟨⟨s', hc', (upload_checked_iff hf (hw rfl s hc hst f hf) hx).mpr (hok rfl s hc hst f hf)⟩,
        fun c hdisk => ?_⟩
      obtain ⟨g, c₀, hg, hc₀, hbooks, hsize, -⟩ := hb hc (.inl hst)
      obtain rfl : g = f := Option.some.inj (hg.symm.trans hf)
      obtain ⟨out, l, hcount⟩ := upload_counted hst hf (whole_of_wholeWrites (hw rfl s hc hst g hf)) hx
      have hlen : out.length ≤ g.rest := by
        by_cases hfail : ans.write1 = .failed
        · rw [hcount.failed hfail]
          exact Nat.zero_le _
        · have hle := UploadCounts.first_le (hok rfl s hc hst g hf) (absurd · hfail)
          have hl := hcount.within
          have := hcount.length
          rw [subSize_of_le (by omega) hle] at hl
          omega
      rcases hcount.disk (storagePath g.hash) with hnone | he
      · rw [Option.mem_def.mp hdisk] at hnone
        cases hnone
      · rw [Option.mem_def.mp hdisk, World.uploaded_disk, World.log_disk, hc₀] at he
        split at he
        · cases he
          rw [List.length_append]
          omega
        · cases he
          omega

theorem downloadKeeps_le (h : DownloadCounts ans f) : DownloadKeeps (· ≤ ·) ans f := by
  intro hp hread n hacc m hR
  obtain ⟨bs, hbs, h⟩ := (h.resolve_left hp).resolve_left hread
  have hle : sizeT (readLength ans.read) ≤ f.rest := by
    rcases h with h | h
    · rw [h] at hacc
      cases hacc
    · refine Nat.le_trans ?_ h
      rw [readLength_some hbs]
      unfold sizeT
      omega
  have hn : n ≤ sizeT (readLength ans.read) := by
    cases hw : ans.write1 with
    | failed => rw [hw] at hacc; cases hacc
    | short k => rw [hw] at hacc; cases hacc; exact Nat.min_le_right ..
    | full => rw [hw] at hacc; cases hacc; exact Nat.le_refl _
  have hsub := subSize_le hle
  show m + n + _ ≤ f.size
  have : m + f.rest ≤ f.size := hR
  omega

theorem downloadKeeps_mod (h : DownloadWhole ans f) : DownloadKeeps (· ≡ · [MOD 2 ^ 64]) ans f := by
  intro hp hread n hacc m hR
  obtain rfl := (h.resolve_left hp).resolve_left hread n hacc
  rw [Nat.add_assoc]
  exact ((subSize_mod _ _).add_left m).trans hR

theorem confirm_checked_iff {l : Bytes} {r : World × Session} (h : downloadConfirm w s l = .ok r) :
    downloadConfirmCalc (.checked ans) w s l = .ok r ↔ (isContinue l → 0 ≤ scanContinue l) := by
  rw [← downloadConfirmCalc_machine] at h
  unfold downloadConfirmCalc at h ⊢
  by_cases hc : isContinue l = true
  · rw [if_pos (show strncmpZero l (ascii "continue") 8 = true from hc)] at h ⊢
    obtain ⟨f, hf, h⟩ := bind_ok.mp h
    rw [hf, ok_bind]
    by_cases h0 : 0 ≤ scanContinue l
    · rw [checked_size_nonneg h0]
      exact iff_of_true h fun _ => h0
    · rw [checked_size_neg (by omega), error_bind]
      exact iff_of_false (by simp) fun h => h0 (h hc)
  · rw [if_neg (show ¬ strncmpZero l (ascii "continue") 8 = true from hc)] at h ⊢
    exact iff_of_true h fun h => absurd h hc

theorem downloadConfirm_state {l : Bytes} (h : downloadConfirm w s l = .ok (w', s')) (hst : s.state ≠ .err) :
    s'.state ≠ .err := by
  unfold downloadConfirm at h
  split at h
  · obtain ⟨f, -, h⟩ := bind_ok.mp h
    cases h
    simp
  split at h
  · obtain ⟨f, -, h⟩ := bind_ok.mp h
    cases h
    simp
  · cases h
    exact hst

theorem Steps.confirm {l b : Bytes} (hs : Steps P v (.ready i ans) v') (h : Wf v) (hc : v.connections i = some s)
    (hst : s.state = .opDownloadWaitConfirmPackage)
    (hl : lineOf ans s = some (l, b)) : ∃ s', v'.connections i = some s' ∧
      downloadConfirm (v.world.log (.handled i s.state (some l))) { s with buf := b } l = .ok (v'.world, s') := by
  obtain ⟨w', s', hx, rfl⟩ := hs.line hc (by simp [hst]) (by simp [hst]) (by simp [hst]) hl
  obtain rfl : s.sd = i := h.sd hc
  rw [performSessionAction_confirm (s := { s with buf := b }) hst] at hx
  have herr : s'.state ≠ .err := downloadConfirm_state hx (by simp [hst])
  rw [if_neg herr]
  exact ⟨s', Server.set_self .., hx⟩

theorem download_safe_iff (h : Wf v) (hb : DownloadBooks (· ≤ ·) i v) (hs : Steps P v e v') :
    DownloadSafe i v e v' ↔ DownloadWithin i v e := by
  cases e with
  | accept | acceptFailed => exact iff_of_true (fun _ _ _ he => by cases he) ⟨trivial, trivial⟩
  | ready j ans =>
    by_cases hj : j = i
    case neg =>
      exact iff_of_true (fun _ _ _ he => absurd (Event.ready.inj he).1 hj) ⟨fun he => absurd he hj,
        fun he => absurd he hj⟩
    subst hj
    constructor
    · intro hsafe
      refine ⟨fun _ s hc hst f hf => ?_, fun _ s hc hst r hr => ?_⟩
      · obtain ⟨⟨s', hc', hx⟩, -⟩ := (hsafe ans s f rfl hc hf).1 hst
        obtain ⟨s'', hc'', hx'⟩ := hs.download h hc hst (hb hc (.inl hst)).1
        obtain rfl : s' = s'' := Option.some.inj (hc'.symm.trans hc'')
        exact (download_checked_iff hf hx').mp hx
      · obtain ⟨-, f, hf, -⟩ := hb hc (.inr hst)
        obtain ⟨s', hc', hx⟩ := (hsafe ans s f rfl hc hf).2 hst r hr
        obtain ⟨s'', hc'', hx'⟩ := hs.confirm h hc hst hr
        obtain rfl : s' = s'' := Option.some.inj (hc'.symm.trans hc'')
        exact (confirm_checked_iff hx').mp hx
    · rintro ⟨hread, hline⟩ ans' s f he hc hf
      cases he
      refine ⟨fun hst => ?_, fun hst r hr => ?_⟩
      · obtain ⟨s', hc', hx⟩ := hs.download h hc hst (hb hc (.inl hst)).1
        refine ⟨⟨s', hc', (download_checked_iff hf hx).mpr (hread rfl s hc hst f hf)⟩, ?_⟩
        obtain ⟨-, g, hg, hR⟩ := hb hc (.inl hst)
        obtain rfl : g = f := Option.some.inj (hg.symm.trans hf)
        obtain rfl : s.sd = j := h.sd hc
        have hkeeps := downloadKeeps_le (hread rfl s hc hst g hf)
        have hR : (delivery (logOf s.sd v.world.trace)).bytes.length + g.rest ≤ g.size := hR
        unfold deliveryAt
        rcases download_counted hst hf hx with ⟨he, -⟩ | ⟨n, hp, hread, hacc, hlen, -⟩
        · rw [he]
          omega
        · have := hkeeps hp hread n hacc _ hR
          rw [hlen]
          omega
      · obtain ⟨s', hc', hx⟩ := hs.confirm h hc hst hr
        exact ⟨s', hc', (confirm_checked_iff hx).mpr (hline rfl s hc hst r hr)⟩

/-! ## Accounts in `size_t` -/

theorem sizeT_eq_subSize {n r k : Nat} (h : n + r ≡ k [MOD 2 ^ 64]) : sizeT n = subSize k r := by
  unfold Nat.ModEq at h
  unfold subSize sizeT
  omega

theorem le_of_modEq {n k : Nat} (h : n ≡ k [MOD 2 ^ 64]) (hk : k < 2 ^ 64) : k ≤ n := by
  unfold Nat.ModEq at h
  omega

theorem accounted_step (h : Wf v) (hu : UploadBooks (· ≡ · [MOD 2 ^ 64]) i v)
    (hd : DownloadBooks (· ≡ · [MOD 2 ^ 64]) i v) (hok : WritesWhole i v e) (hs : Steps P v e v') :
    (UploadBooks (· ≡ · [MOD 2 ^ 64]) i v' ∧ DownloadBooks (· ≡ · [MOD 2 ^ 64]) i v') ∧ Accounted i v e v' := by
  have hup : Answered .opUpload (UploadKeeps (· ≡ · [MOD 2 ^ 64])) i v e := by
    cases e with
    | accept | acceptFailed => trivial
    | ready j ans => exact fun hj s hc hst f hf => uploadKeeps_mod (hok.1 hj s hc hst f hf)
  have hdown : Answered .opDownload (DownloadKeeps (· ≡ · [MOD 2 ^ 64])) i v e := by
    cases e with
    | accept | acceptFailed => trivial
    | ready j ans => exact fun hj s hc hst f hf => downloadKeeps_mod (hok.2 hj s hc hst f hf)
  have hu' := hu.step Nat.ModEq.refl h hup hs
  have hd' := hd.step Nat.ModEq.refl h hdown hs
  refine ⟨⟨hu', hd'⟩, fun hc hst => ?_, fun hc hst => ?_, fun hc hst => ?_, ?_⟩
  · obtain ⟨-, f, hf, hR⟩ := hd' hc hst
    exact ⟨f, hf, sizeT_eq_subSize hR⟩
  · obtain ⟨f, c, hf, hdisk, hR, -⟩ := hu' hc hst
    exact ⟨f, c, hf, hdisk, sizeT_eq_subSize hR⟩
  · obtain ⟨f, c, hf, hdisk, hR, hsize, hdone⟩ := hu' hc (.inr hst)
    rw [hdone hst, Nat.add_zero] at hR
    exact ⟨f, c, hf, hdisk, le_of_modEq hR hsize⟩
  · rintro ans s s' f rfl hc hst hf hsize hc' hst'
    obtain ⟨s'', hc'', hx⟩ := hs.download h hc hst (hd hc (.inl hst)).1
    obtain rfl : s' = s'' := Option.some.inj (hc'.symm.trans hc'')
    obtain ⟨-, g, hg, hR⟩ := hd hc (.inl hst)
    obtain rfl : g = f := Option.some.inj (hg.symm.trans hf)
    obtain rfl : s.sd = i := h.sd hc
    rcases download_counted hst hf hx with ⟨he, -, hread⟩ | ⟨n, hp, hread, hacc, hlen, -, hrest⟩
    · by_cases h0 : g.rest = 0
      · right
        rw [h0, Nat.add_zero] at hR
        unfold deliveryAt
        rw [he]
        exact le_of_modEq hR hsize
      · exact .inl ⟨hread hst', h0⟩
    · right
      have := hdown rfl s hc hst g hf hp hread n hacc _ hR
      rw [hrest hst', Nat.add_zero] at this
      unfold deliveryAt
      rw [hlen]
      exact le_of_modEq this hsize

end

/-- **Uploads within their size.** Where writes are whole, no counter of an upload gets below zero, no byte is written
that was not read, and no file outgrows what was announced, exactly if no payload is outstanding at a failed read,
every read is within what is left, and every header announces the payload behind it. -/
theorem upload_bounded_iff {P : Platform} {disk : Bytes → Option Bytes} {users : UserTable} {files : FileTable}
    {es : List Event} {v : Server} {i : Nat} (r : Run (WholeSteps P i) (.start disk users files) es v) :
    AlwaysStep (WholeSteps P i) (.start disk users files) es (UploadSafe i) ↔
      Run (Guarded (Answered .opUpload UploadCounts i) (WholeSteps P i)) (.start disk users files) es v := by
  refine alwaysStep_iff_guarded (fun v e v₁ v₂ h h' => Steps.det v e v₁ v₂ h.2 h'.2) Wf (UploadBooks (· = ·) i)
    (UploadSafe i)
    (fun _ _ _ h hs => h.step hs.2) (fun _ _ _ h hb hs => upload_safe_iff h hb hs.1 hs.2) (fun a e b h hb hs hok => ?_) r
    (start_wf ..) fun _ h => by cases h
  refine hb.step (fun _ => rfl) h ?_ hs.2
  cases e with
  | accept | acceptFailed => trivial
  | ready j ans => exact fun hj s hc hst f hf => uploadKeeps_eq (hs.1 hj s hc hst f hf) (hok hj s hc hst f hf)

/-! ### A header that announces too much -/

def overlongUpload : List Event :=
  [.accept 4 0 0, .ready 4 { read := some (ascii "anonymous") },
    .ready 4 { read := some (ascii "file upload \"a\" 1 0\n"), availableSpace := 1, probes := [{ opened := .fd 5 }] },
    .ready 4 { read := some (fpdHeader 5) }]

def overlongRead : Event := .ready 4 { read := some (ascii "abcde") }

/-- The file of one byte holds five. -/
theorem overlongUpload_unsafe : ¬ AlwaysStep (WholeSteps default 4) .fresh (overlongUpload ++ [overlongRead])
    (UploadSafe 4) := by
  have h : (Server.exec (Answered .opUpload (fun ans _ => WholeWrites ans) 4) default .fresh overlongUpload).any (fun v =>
      (v.connections 4).any (fun s => s.state == .opUpload && s.file.any fun f => f.size == 1 &&
        (v.step default overlongRead).toOption.any fun v' =>
          (v'.world.disk (storagePath f.hash)).any fun c => c.length == 5)) = true := by
    decide +kernel
  simp only [Option.any_eq_true, Bool.and_eq_true, beq_iff_eq] at h
  obtain ⟨v, hv, s, hc, hst, f, hf, hsize, v', hv', c, hdisk, hlen⟩ := h
  intro hsafe
  have hs : WholeSteps default 4 v overlongRead v' := ⟨fun _ _ _ _ _ _ => ⟨.inr rfl, .inr rfl⟩, .of_toOption hv'⟩
  have := (hsafe overlongUpload overlongRead [] v v' rfl (Server.exec_run hv) hs _ s f rfl hc hst hf).2 c hdisk
  omega

theorem upload_bounded_iff_one_byte : ∃ v, AlwaysStep (WholeSteps default 4) .fresh anonymousUpload (UploadSafe 4) ↔
    Run (Guarded (Answered .opUpload UploadCounts 4) (WholeSteps default 4)) .fresh anonymousUpload v := by
  have h : (Server.exec (Answered .opUpload (fun ans _ => WholeWrites ans) 4) default .fresh anonymousUpload).isSome := by
    decide +kernel
  obtain ⟨v, hv⟩ := Option.isSome_iff_exists.mp h
  exact ⟨v, upload_bounded_iff (Server.exec_run hv)⟩

/-- **Downloads within their size.** No counter of a download gets below zero, only bytes that were read are passed to
`write`, and never more than the size of the file is sent, exactly if every read succeeds and is within what is left,
and no negative number is confirmed. -/
theorem download_bounded_iff {P : Platform} {disk : Bytes → Option Bytes} {users : UserTable} {files : FileTable}
    {es : List Event} {v : Server} {i : Nat} (r : Run (Steps P) (.start disk users files) es v) :
    AlwaysStep (Steps P) (.start disk users files) es (DownloadSafe i) ↔
      Run (Guarded (DownloadWithin i) (Steps P)) (.start disk users files) es v := by
  refine alwaysStep_iff_guarded Steps.det Wf (DownloadBooks (· ≤ ·) i) (DownloadSafe i) (fun _ _ _ h hs => h.step hs)
    (fun _ _ _ h hb hs => download_safe_iff h hb hs) (fun a e b h hb hs hok => ?_) r (start_wf ..) fun _ h => by cases h
  refine hb.step Nat.le_refl h ?_ hs
  cases e with
  | accept | acceptFailed => trivial
  | ready j ans => exact fun hj s hc hst f hf => downloadKeeps_le (hok.1 hj s hc hst f hf)

/-! ### A read of the file that fails -/

def bobUploads : List Event := bobUpload ++ [.ready 4 bobEnd]

def bobAsks : Event := .ready 4 { read := some (ascii "file download [a]\n"), opened := some 6 }

def failedRead : Answers := { read := none, write1 := .failed }

/-- Bytes are passed to `write` that were not read. -/
theorem failedRead_unsafe : ¬ AlwaysStep (Steps default) .fresh ((bobUploads ++ [bobAsks]) ++ [.ready 4 failedRead])
    (DownloadSafe 4) := by
  have h : (Server.exec (fun _ _ => True) default .fresh (bobUploads ++ [bobAsks])).any (fun v =>
      (v.connections 4).any (fun s => s.state == .opDownload && s.file.isSome &&
        (fileDownloadCalc (.checked failedRead) failedRead (v.world.log (.handled 4 s.state none)) s).toOption.isNone &&
        (v.step default (.ready 4 failedRead)).toOption.isSome)) = true := by
    decide +kernel
  simp only [Option.any_eq_true, Bool.and_eq_true, beq_iff_eq, Option.isSome_iff_exists] at h
  obtain ⟨v, hv, s, hc, ⟨⟨hst, f, hf⟩, hnone⟩, v', hv'⟩ := h
  intro hsafe
  obtain ⟨⟨s', -, hx⟩, -⟩ := (hsafe (bobUploads ++ [bobAsks]) (.ready 4 failedRead) [] v v' rfl (Server.exec_run hv).unguard
    (.of_toOption hv') failedRead s f rfl hc hf).1 hst
  rw [hx] at hnone
  cases hnone

theorem download_bounded_iff_bob : ∃ v, AlwaysStep (Steps default) .fresh (bobUploads ++ [bobAsks]) (DownloadSafe 4) ↔
    Run (Guarded (DownloadWithin 4) (Steps default)) .fresh (bobUploads ++ [bobAsks]) v := by
  have h : (Server.exec (fun _ _ => True) default .fresh (bobUploads ++ [bobAsks])).isSome := by decide +kernel
  obtain ⟨v, hv⟩ := Option.isSome_iff_exists.mp h
  exact ⟨v, download_bounded_iff (Server.exec_run hv).unguard⟩

/-- **Accounts.** In a run without short writes the accounts of every transfer are right after every step. -/
theorem transfers_accounted {P : Platform} {disk : Bytes → Option Bytes} {users : UserTable} {files : FileTable}
    {es : List Event} {v : Server} {i : Nat} (r : Run (Guarded (WritesWhole i) (Steps P)) (.start disk users files) es v) :
    AlwaysStep (Steps P) (.start disk users files) es (Accounted i) := by
  let I := fun v => UploadBooks (· ≡ · [MOD 2 ^ 64]) i v ∧ DownloadBooks (· ≡ · [MOD 2 ^ 64]) i v
  have hstart : I (.start disk users files) := ⟨fun _ h => (by cases h), fun _ h => by cases h⟩
  exact alwaysStep_of_guarded Steps.det Wf I (Accounted i) (fun _ _ _ h hs => h.step hs)
    (fun _ _ _ h hb hs hok => accounted_step h hb.1 hb.2 hok hs) r (start_wf ..) hstart

/-! ### A write that stores one byte of two -/

def shortUpload : List Event :=
  [.accept 4 0 0, .ready 4 { read := some (ascii "anonymous") },
    .ready 4 { read := some (ascii "file upload \"a\" 2 0\n"), availableSpace := 2, probes := [{ opened := .fd 5 }] }]

def shortWrite : Event := .ready 4 { read := some (fpdHeader 2 ++ ascii "xy"), write2 := .short 1 }

/-- The upload is finished, and its file holds one byte. -/
theorem shortWrite_unaccounted : ¬ AlwaysStep (Steps default) .fresh (shortUpload ++ [shortWrite]) (Accounted 4) := by
  have h : (Server.exec (fun _ _ => True) default .fresh shortUpload).any (fun v =>
      (v.step default shortWrite).toOption.any fun v' => (v'.connections 4).any fun s =>
        s.state == .opUploadDescription &&
        s.file.any fun f => f.size == 2 && (v'.world.disk (storagePath f.hash)).any fun c =>
          c.length == 1) = true := by
    decide +kernel
  simp only [Option.any_eq_true, Bool.and_eq_true, beq_iff_eq] at h
  obtain ⟨v, hv, v', hv', s, hc, hst, f, hf, hsize, c, hdisk, hlen⟩ := h
  intro hacc
  obtain ⟨g, c', hg, hdisk', hle⟩ := (hacc shortUpload shortWrite [] v v' rfl (Server.exec_run hv).unguard
    (.of_toOption hv')).uploaded hc hst
  obtain rfl : f = g := Option.some.inj (hf.symm.trans hg)
  obtain rfl : c = c' := Option.some.inj (hdisk.symm.trans hdisk')
  omega

theorem transfers_accounted_bob :
    AlwaysStep (Steps default) .fresh (bobUploads ++ [bobAsks, .ready 4 { read := some (ascii "x") }]) (Accounted 4) := by
  have h : (Server.exec (WritesWhole 4) default .fresh
      (bobUploads ++ [bobAsks, .ready 4 { read := some (ascii "x") }])).isSome := by
    decide +kernel
  obtain ⟨v, hv⟩ := Option.isSome_iff_exists.mp h
  exact transfers_accounted (Server.exec_run hv)

end BbsServer
