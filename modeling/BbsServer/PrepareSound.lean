import BbsServer.IdleSound

/-!
# Failed preparations

A `file_receive_prepare` or `file_send_prepare` that does not return 0 should leave no trace but its answer.
`file_receive_prepare` forgets the way back from `STORAGE_FOLDER` when `mkdir` fails (`receive_atomic_iff`), and
`file_send_prepare` keeps what it has when `open` fails or the size is another one (`send_atomic_iff`).
-/

namespace BbsServer

open CStr Function

/-- The session owns nothing of a transfer, and the open descriptors are those from before. -/
structure Released (w w' : World) (s' : Session) : Prop where
  file : s'.file = none
  fd : s'.fd = none
  state : s'.state = .opWait
  fds : w'.fds = w.fds

/-- Nor have the storage files and the working directory changed. -/
structure Undone (w w' : World) (s' : Session) : Prop extends Released w w' s' where
  disk : w'.disk = w.disk
  cwd : w'.cwd = w.cwd

def Probe.noDir (p : Probe) : Bool := !p.dirExists && !p.mkdir

def lastProbe : List Probe → Option Probe
  | [] => none
  | p :: probes => if !p.noDir && p.opened = .eexist then lastProbe probes else some p

/-- The line gets `file_receive_prepare` to the name loop. -/
def EntersLoop (ans : Answers) (line : Bytes) : Prop :=
  ∃ a ∈ receiveArgs ans line, a.1.length ≤ ans.nameMax ∧ a.2.1 ≤ ans.availableSpace

/-- The name loop ends in the directory in which it was entered: `mkdir` fails in `STORAGE_FOLDER`, `open` in
`<work_dir>`. -/
def KeepsDir (ans : Answers) (w : World) (line : Bytes) : Prop :=
  EntersLoop ans line → ∀ p ∈ lastProbe ans.probes,
    (p.noDir → w.cwd = .storage) ∧ (¬ p.noDir → p.opened = .failed → w.cwd = .work)

section
variable {ans : Answers} {w w' : World} {s s' : Session} {l : Bytes} {ret : Int}

theorem Undone.of_talks (hst : s.state = .opWait) (hb : s.bare) (ht : Talks w w') : Undone w w' s :=
  ⟨⟨hb.1, hb.2, hst, ht.fds⟩, ht.disk, ht.cwd⟩

/-! ## Receiving -/

theorem probeNames_last {name : Bytes} {size : Nat} {r : Probed} : ∀ {probes : List Probe} {seed : Int} {w : World},
    probeNames w s name size seed probes = .ok (r, w') → ∃ p ∈ lastProbe probes,
      (p.noDir ∧ r = .noDir ∧ w' = { w with cwd := .storage }) ∨
      (¬ p.noDir ∧ p.opened = .failed ∧ r = .noFile ∧ w' = { w with cwd := .work }) ∨
      ¬ p.noDir ∧ p.opened ≠ .failed ∧ ∃ hash path d, r = .created hash path d
  | [], _, _, h => by cases h
  | p :: probes, seed, w, h => by
    unfold probeNames at h
    unfold lastProbe
    by_cases hd : p.noDir
    · rw [if_pos (show (!p.dirExists && !p.mkdir) = true from hd)] at h
      cases h
      exact ⟨p, by simp [hd], .inl ⟨hd, rfl, rfl⟩⟩
    rw [if_neg (show ¬ (!p.dirExists && !p.mkdir) = true from hd)] at h
    cases ho : p.opened with
    | eexist =>
      simp only [ho] at h
      split at h
      · obtain ⟨q, hq, hcases⟩ := probeNames_last h
        exact ⟨q, by simpa [hd] using hq, hcases⟩
      · cases h
    | failed =>
      simp only [ho] at h
      cases h
      exact ⟨p, by simp, .inr (.inl ⟨hd, ho, rfl, rfl⟩)⟩
    | fd d =>
      simp only [ho] at h
      obtain ⟨w₁, -, h⟩ := bind_ok.mp h
      cases h
      exact ⟨p, by simp, .inr (.inr ⟨hd, by simp [ho], _, _, d, rfl⟩)⟩

theorem closeFd_bare (hb : s.bare) (w : World) : w.closeFd s = w := by
  unfold World.closeFd
  rw [hb.2]

theorem cleared_bare {st : SessState} (hb : s.bare) (hst : s.state = st) : s.cleared st = s := by
  obtain ⟨buf, state, reason, privileges, uname, uid, fd, sd, file⟩ := s
  obtain ⟨rfl, rfl⟩ := hb
  cases hst
  rfl

/-- What `file_receive_prepare` returns to a session without a transfer. -/
theorem fileReceivePrepare_cases (hst : s.state = .opWait) (hb : s.bare)
    (h : fileReceivePrepare ans w s l = .ok (ret, w', s')) :
    (ret ≠ 0 ∧ s' = s ∧ ¬ EntersLoop ans l ∧ Talks w w') ∨ EntersLoop ans l ∧ ∃ p ∈ lastProbe ans.probes,
      (ret ≠ 0 ∧ s' = s ∧ p.noDir ∧ Talks { w with cwd := .storage } w') ∨
      (ret ≠ 0 ∧ s' = s ∧ ¬ p.noDir ∧ p.opened = .failed ∧ Talks { w with cwd := .work } w') ∨
      ret = 0 ∧ ¬ p.noDir ∧ p.opened ≠ .failed := by
  have hloop : ∀ {a}, receiveArgs ans l = some a →
      (EntersLoop ans l ↔ a.1.length ≤ ans.nameMax ∧ a.2.1 ≤ ans.availableSpace) := by
    intro a ha
    unfold EntersLoop
    rw [ha]
    simp
  cases fileReceivePrepare_prepared h with
  | unread hr hargs ht =>
    rw [clearFileFromSess, hb.1]
    exact .inl ⟨hr, rfl, by simp [EntersLoop, hargs], ht⟩
  | tooLong hargs h1 ht =>
    refine .inl ⟨by decide, cleared_bare hb hst, ?_, closeFd_bare hb _ ▸ ht⟩
    rw [hloop hargs]
    exact fun h => absurd h.1 (Nat.not_le.mpr h1)
  | noSpace hargs h2 ht =>
    refine .inl ⟨by decide, cleared_bare hb rfl, ?_, closeFd_bare hb _ ▸ ht⟩
    rw [hloop hargs]
    exact fun h => absurd h.2 (Nat.not_le.mpr h2)
  | noFile hargs h1 h2 hprobe hno hr ht =>
    obtain ⟨p, hp, ⟨hd, -, rfl⟩ | ⟨hd, ho, -, rfl⟩ | ⟨-, -, hash, path, d, rfl⟩⟩ := probeNames_last hprobe
    · exact .inr ⟨(hloop hargs).mpr ⟨h1, h2⟩, p, hp, .inl ⟨hr, cleared_bare hb rfl, hd, closeFd_bare hb _ ▸ ht⟩⟩
    · exact .inr ⟨(hloop hargs).mpr ⟨h1, h2⟩, p, hp,
        .inr (.inl ⟨hr, cleared_bare hb rfl, hd, ho, closeFd_bare hb _ ▸ ht⟩)⟩
    · rcases hno with hno | hno <;> cases hno
  | created hargs h1 h2 hprobe =>
    obtain ⟨p, hp, ⟨-, hr, -⟩ | ⟨-, -, hr, -⟩ | ⟨hd, ho, -⟩⟩ := probeNames_last hprobe
    · cases hr
    · cases hr
    · exact .inr ⟨(hloop hargs).mpr ⟨h1, h2⟩, p, hp, .inr (.inr ⟨rfl, hd, ho⟩)⟩

end

/-- **Receiving.** A `file_receive_prepare` that fails undoes what it did exactly if the name loop, when it is
entered, ends in the directory in which it was entered. -/
theorem receive_atomic_iff {ans : Answers} {w w' : World} {s s' : Session} {line : Bytes} {ret : Int}
    (hst : s.state = .opWait) (hb : s.bare) (h : fileReceivePrepare ans w s line = .ok (ret, w', s')) :
    (ret ≠ 0 → Undone w w' s') ↔ KeepsDir ans w line := by
  have moved : ∀ {d : Dir}, Talks { w with cwd := d } w' → (Undone w w' s ↔ w.cwd = d) := by
    refine fun {d} ht => ⟨fun hu => hu.cwd.symm.trans ht.cwd, fun hd => ?_⟩
    subst hd
    exact .of_talks hst hb ht
  rcases fileReceivePrepare_cases hst hb h with ⟨hr, rfl, hno, ht⟩ | ⟨hloop, p, hp, hcases⟩
  · exact ⟨fun _ he => absurd he hno, fun _ _ => .of_talks hst hb ht⟩
  have hkeeps : KeepsDir ans w line ↔
      (p.noDir → w.cwd = .storage) ∧ (¬ p.noDir → p.opened = .failed → w.cwd = .work) := by
    refine ⟨fun hk => hk hloop p hp, fun hk _ q hq => ?_⟩
    cases hp.symm.trans hq
    exact hk
  rw [hkeeps]
  rcases hcases with ⟨hr, rfl, hd, ht⟩ | ⟨hr, rfl, hd, ho, ht⟩ | ⟨rfl, hd, ho⟩
  · rw [← moved ht]
    exact ⟨fun hu => ⟨fun _ => hu hr, fun hno => absurd hd hno⟩, fun hk _ => hk.1 hd⟩
  · rw [← moved ht]
    exact ⟨fun hu => ⟨fun hd' => absurd hd' hd, fun _ _ => hu hr⟩, fun hk _ => hk.2 hd ho⟩
  · exact ⟨fun _ => ⟨fun hd' => absurd hd' hd, fun _ h => absurd h ho⟩, fun _ h => absurd rfl h⟩

def noDirectory : Answers := { availableSpace := 1, probes := [{ dirExists := false, mkdir := false, opened := .failed }] }

def uploadA : Bytes := ascii "file upload \"a\" 1 0\n"

/-- `mkdir` fails, and every other session is in `STORAGE_FOLDER` from then on. -/
theorem receive_leaves_dir : ¬ ∀ ret w' s',
    fileReceivePrepare noDirectory (.start (fun _ => none) .empty .empty) (.waiting 4 (ascii "bob") 1) uploadA =
      .ok (ret, w', s') →
      ret ≠ 0 → Undone (.start (fun _ => none) .empty .empty) w' s' := by
  intro hall
  have h : (fileReceivePrepare noDirectory (.start (fun _ => none) .empty .empty) (.waiting 4 (ascii "bob") 1)
      uploadA).toOption.any (fun r => r.1 ≠ 0 && r.2.1.cwd == .storage) = true := by
    decide +kernel
  obtain ⟨⟨ret, w', s'⟩, hr, h⟩ := any_ok h
  simp only [Bool.and_eq_true, decide_eq_true_eq, beq_iff_eq] at h
  have := (hall ret w' s' hr h.1).cwd
  rw [h.2] at this
  cases this

/-- The same request, where the directory can be made and `open` fails. -/
theorem receive_atomic_iff_open : ∃ w' s', fileReceivePrepare { noDirectory with probes := [{ opened := .failed }] }
      (.start (fun _ => none) .empty .empty) (.waiting 4 (ascii "bob") 1) uploadA = .ok (-3, w', s') ∧
    Undone (.start (fun _ => none) .empty .empty) w' s' := by
  have h : (fileReceivePrepare { noDirectory with probes := [{ opened := .failed }] } (.start (fun _ => none) .empty .empty)
      (.waiting 4 (ascii "bob") 1) uploadA).toOption.any (·.1 = -3) = true := by
    decide +kernel
  obtain ⟨⟨ret, w', s'⟩, hr, h⟩ := any_ok h
  obtain rfl : ret = -3 := of_decide_eq_true h
  refine ⟨w', s', hr, (receive_atomic_iff rfl ⟨rfl, rfl⟩ hr).mpr ?_ (by decide)⟩
  intro _ p hp
  obtain rfl := Option.some.inj hp
  exact ⟨fun hd => absurd hd (by decide), fun _ _ => rfl⟩

/-! ## Sending -/

/-- `file_send_prepare`, where `lseek` returns `fsize`. -/
def fileSendPrepareAt (fsize : Nat) (ans : Answers) (w : World) (s : Session)
    (line : Bytes) : M (Int × World × Session) :=
  fileSendPrepareWith sessionSendString (fun arg => .ok (dbGetFile ans w arg))
    (sendFoundWith (fun _ _ => fsize) ans w s) w s line

section
variable {ans : Answers} {w w' : World} {s s' : Session} {line : Bytes} {ret : Int}

theorem fileSendPrepareAt_length {n : Bytes} {sf : SFile} (hn : sendName line = some n)
    (hg : dbGetFile ans w { id := 0, userId := 0, name := n } = some sf) :
    fileSendPrepareAt ((w.disk (storagePath sf.hash)).getD []).length ans w s line =
    fileSendPrepare ans w s line := by
  have hfound : sendFoundWith (fun _ _ => ((w.disk (storagePath sf.hash)).getD []).length) ans w s sf =
    sendFound ans w s sf := by
    unfold sendFound sendFoundWith
    cases ans.opened with
    | none => rfl
    | some d =>
      cases ho : w.openRead s (storagePath sf.hash) d with
      | error => simp [ho, bind, Except.bind]
      | ok w₁ => simp [ho, World.openRead_disk ho]
  unfold sendName at hn
  split at hn
  · rename_i b e hb he
    split at hn
    · cases hn
      unfold fileSendPrepareAt fileSendPrepare fileSendPrepareWith
      simp only [hb, he, ok_bind, hg, hfound]
    · cases hn
  · cases hn

theorem fileSendPrepareWith_cases {found : SFile → M (Int × World × Session)} (hb : s.bare)
    (h : fileSendPrepareWith sessionSendString (fun arg => .ok (dbGetFile ans w arg)) found w s line = .ok (ret, w', s')) :
    (ret ≠ 0 ∧ s' = s ∧ Talks w w' ∧ ∀ n ∈ sendName line, dbGetFile ans w { id := 0, userId := 0, name := n } = none) ∨
      ∃ n sf, sendName line = some n ∧ dbGetFile ans w { id := 0, userId := 0, name := n } = some sf ∧
        found sf = .ok (ret, w', s') := by
  have hclear : ∀ w : World, clearFileFromSess w s = (w, s) := fun w => by simp [clearFileFromSess, hb.1]
  have early : ∀ {text : Bytes} {n : Int}, n ≠ 0 → sendName line = none → (do
      let w ← sessionSendString w s text
      .ok (n, w, s)) = .ok (ret, w', s') →
      ret ≠ 0 ∧ s' = s ∧ Talks w w' ∧
        ∀ n ∈ sendName line, dbGetFile ans w { id := 0, userId := 0, name := n } = none := by
    intro text n hn hno h
    obtain ⟨w₁, ht, h⟩ := bind_ok.mp h
    cases h
    exact ⟨hn, rfl, sessionSendString_talks ht, by simp [hno]⟩
  unfold fileSendPrepareWith at h
  cases hq : strchr line 91 with
  | none =>
    simp only [hq, hclear] at h
    exact .inl (early (by decide) (by simp [sendName, hq]) h)
  | some b =>
  simp only [hq] at h
  cases he : strrchr line 93 with
  | none =>
    simp only [he, hclear] at h
    exact .inl (early (by decide) (by simp [sendName, hq, he]) h)
  | some e =>
  simp only [he] at h
  by_cases h0 : e = b + 1
  · simp only [if_pos h0, hclear] at h
    exact .inl (early (by decide) (by simp [sendName, hq, he, h0]) h)
  rw [if_neg h0] at h
  by_cases hlen : e < b + 1 ∨ fileNameLen ≤ e - (b + 1)
  · rw [if_pos hlen] at h
    cases h
  rw [if_neg hlen] at h
  have hn : sendName line = some ((line.drop (b + 1)).take (e - (b + 1))) := by
    simp only [sendName, hq, he, if_pos (show b + 1 < e by omega)]
  cases hr : dbGetFile ans w { id := 0, userId := 0, name := (line.drop (b + 1)).take (e - (b + 1)) } with
  | none =>
    simp only [hr] at h
    cases h
    refine .inl ⟨by decide, ?_, .refl _, fun n hn' => ?_⟩
    · rw [← hb.1]
    · cases hn.symm.trans hn'
      exact hr
  | some sf =>
    simp only [hr] at h
    exact .inr ⟨_, sf, hn, hr, h⟩

end

/-- **Sending.** A `file_send_prepare` that fails undoes what it did exactly if it finds no row, or `open` succeeds
and `lseek` gives the size of the row. -/
theorem send_atomic_iff {fsize : Nat} {ans : Answers} {w w' : World} {s s' : Session} {line : Bytes} {ret : Int}
    (hst : s.state = .opWait) (hb : s.bare) (h : fileSendPrepareAt fsize ans w s line = .ok (ret, w', s')) :
    (ret ≠ 0 → Released w w' s') ↔ ∀ n ∈ sendName line, ∀ sf ∈ dbGetFile ans w { id := 0, userId := 0, name := n },
      ans.opened ≠ none ∧ sf.size = fsize := by
  rcases fileSendPrepareWith_cases hb h with ⟨-, rfl, ht, hnone⟩ | ⟨n, sf, hn, hr, h⟩
  · refine ⟨fun _ n hn sf hr => ?_, fun _ _ => ⟨hb.1, hb.2, hst, ht.fds⟩⟩
    rw [hnone n hn] at hr
    cases hr
  have hcond : (∀ n ∈ sendName line, ∀ sf ∈ dbGetFile ans w { id := 0, userId := 0, name := n },
      ans.opened ≠ none ∧ sf.size = fsize) ↔ ans.opened ≠ none ∧ sf.size = fsize := by
    refine ⟨fun hall => hall n hn sf hr, fun hc n' hn' sf' hr' => ?_⟩
    cases hn.symm.trans hn'
    cases hr.symm.trans hr'
    exact hc
  rw [hcond]
  unfold sendFoundWith at h
  cases ho : ans.opened with
  | none =>
    simp only [ho] at h
    cases h
    exact ⟨fun hu => absurd (hu (by decide)).file (by simp), fun hc => absurd rfl hc.1⟩
  | some d =>
    simp only [ho] at h
    obtain ⟨w₁, hop, h⟩ := bind_ok.mp h
    by_cases hs : sf.size = fsize
    · rw [if_neg (not_not.mpr hs)] at h
      cases h
      exact ⟨fun _ => ⟨by simp, hs⟩, fun _ h => absurd rfl h⟩
    · rw [if_pos hs] at h
      cases h
      exact ⟨fun hu => absurd (hu (by decide)).file (by simp), fun hc => absurd hc.2 hs⟩

def damagedFile : World :=
  .start (fun p => if p = storagePath 0 then some (ascii "xy") else none) .bob
    { rows := [{ id := 1, userId := 1, name := ascii "a", size := 1, description := [], permissions := 1, hash := 0 }]
      ids := by decide, idRange := by decide }

/-- The file is found damaged, and its descriptor stays open. -/
theorem send_leaves_fd : ¬ ∀ ret w' s', fileSendPrepareAt 2 { opened := some 7 } damagedFile (.waiting 4 (ascii "bob") 1)
    (ascii "file download [a]\n") = .ok (ret, w', s') → ret ≠ 0 → Released damagedFile w' s' := by
  intro hall
  have h : (fileSendPrepareAt 2 { opened := some 7 } damagedFile (.waiting 4 (ascii "bob") 1)
      (ascii "file download [a]\n")).toOption.any (fun r => r.1 ≠ 0 && (r.2.1.fds 7).isSome) = true := by
    decide +kernel
  obtain ⟨⟨ret, w', s'⟩, hr, h⟩ := any_ok h
  simp only [Bool.and_eq_true, decide_eq_true_eq] at h
  have := h.2
  rw [(hall ret w' s' hr h.1).fds] at this
  cases this

/-- A name without a row leaves nothing behind. -/
theorem send_atomic_iff_missing : ∃ w' s', fileSendPrepareAt 2 { opened := some 7 } damagedFile (.waiting 4 (ascii "bob") 1)
      (ascii "file download [b]\n") = .ok (-1, w', s') ∧ Released damagedFile w' s' := by
  have h : (fileSendPrepareAt 2 { opened := some 7 } damagedFile (.waiting 4 (ascii "bob") 1)
      (ascii "file download [b]\n")).toOption.any (·.1 = -1) = true := by
    decide +kernel
  obtain ⟨⟨ret, w', s'⟩, hr, h⟩ := any_ok h
  obtain rfl : ret = -1 := of_decide_eq_true h
  refine ⟨w', s', hr, (send_atomic_iff rfl ⟨rfl, rfl⟩ hr).mpr ?_ (by decide)⟩
  intro n hn sf hsf
  obtain rfl : ascii "b" = n := Option.some.inj hn
  cases hsf

end BbsServer
