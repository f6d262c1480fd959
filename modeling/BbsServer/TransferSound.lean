import BbsServer.DownloadSound
import BbsServer.RetrieveSound

/-!
# The counters of a transfer

`file_upload`, `file_download` and `download_confirm` once more, over the way in which they convert to `size_t` and
pass bytes of `buf` to `write`. Computed as the machine does, they are the functions of the model; computed with
checks, they stop where a counter gets below zero or a byte is passed that `read` has not returned. The exact
conditions for that are on the read, the counters and the client's numbers (`upload_checked_iff`,
`download_checked_iff`).
-/

namespace BbsServer

open CStr Function Runs

structure Calc where
  size : Int → M Nat
  pass : Nat → Nat → M Unit

def Calc.machine : Calc := { size := fun x => .ok (sizeT x), pass := fun _ _ => .ok () }

def Calc.checked (ans : Answers) : Calc where
  size x := if x < 0 then .error (.fault .overflow) else .ok (sizeT x)
  pass off len := if off + len ≤ (ans.read.getD []).length then .ok () else .error (.fault .overflow)

def fileUploadCalc (c : Calc) (ans : Answers) (w : World) (s : Session) : M (World × Session) := do
  let f ← deref s.file
  let bs := ans.read.getD []
  let rlen := readLength ans.read
  if inBufSize < bs.length then .error .refused
  else if rlen = 0 then
    if f.rest ≠ 0 then uploadRemoved w s f
    else .ok (w, { s with state := .opWait })
  else
    let w := w.log (.received s.sd bs)
    if f.packageRest < sizeT rlen then
      match ans.write1.accepted f.packageRest with
      | none => uploadWriteFailed ans w s f
      | some n =>
        let _ ← c.pass 0 n
        let w := w.append s.fd (bufSlice ans bs 0 n)
        let rlen := toInt (rlen - f.packageRest)
        let rest ← c.size (f.rest - f.packageRest)
        let f := { f with rest }
        if rlen = 0 then .ok (w, { s with file := some f })
        else if f.rest = 0 then uploadFin w s f
        else
          let signal := bufLE ans bs f.packageRest 4
          let fpdPackageSize := bufLE ans bs (f.packageRest + 8) 8
          if signal = sigContinue then
            let rlen := toInt (rlen - fpdSize)
            if rlen > 0 then
              let rlen := if sizeT rlen > f.rest then toInt f.rest else rlen
              match ans.write2.accepted (sizeT rlen) with
              | none => uploadWriteFailed ans w s f
              | some n =>
                let _ ← c.pass (f.packageRest + fpdSize) n
                let w := w.append s.fd (bufSlice ans bs (f.packageRest + fpdSize) n)
                let rest ← c.size (f.rest - sizeT rlen)
                let packageRest ← c.size (fpdPackageSize - rlen)
                uploadFin w s { f with rest, packageRest }
            else do
              let packageRest ← c.size (fpdPackageSize - rlen)
              uploadFin w s { f with packageRest }
          else if signal = sigCancel then uploadRemoved w s f
          else uploadFin w s f
    else
      match ans.write1.accepted (sizeT rlen) with
      | none => uploadWriteFailed ans w s f
      | some n =>
        let _ ← c.pass 0 n
        let w := w.append s.fd (bufSlice ans bs 0 n)
        let rest ← c.size (f.rest - sizeT rlen)
        let packageRest ← c.size (f.packageRest - sizeT rlen)
        uploadFin w s { f with rest, packageRest }

def fileDownloadCalc (c : Calc) (ans : Answers) (w : World) (s : Session) : M (World × Session) := do
  let f ← deref s.file
  if f.packageRest = 0 then .ok (w, { s with state := .opDownloadWaitConfirmPackage })
  else
    let readLen :=
      if f.packageRest < inBufSize then f.packageRest
      else if f.rest < inBufSize then f.rest
      else inBufSize
    let bs := ans.read.getD []
    let rlen := readLength ans.read
    if readLen < bs.length then .error .refused
    else if rlen = 0 then
      if f.rest ≠ 0 then
        let (w, s) := clearFileFromSess w s
        .ok (w, { s with state := .opWait })
      else .ok (w, { s with state := .opWait })
    else
      let _ ← c.pass 0 (sizeT rlen)
      match ans.write1.accepted (sizeT rlen) with
      | none =>
        let (w, s) := clearFileFromSess w { s with state := .err }
        .ok (w, s)
      | some n =>
        let w := w.log (.wrote s.sd (bufSlice ans bs 0 n))
        let rest ← c.size (f.rest - sizeT rlen)
        let packageRest ← c.size (f.packageRest - sizeT rlen)
        let f := { f with rest, packageRest }
        if f.rest = 0 then
          let (w, s) := clearFileFromSess w { s with file := some f }
          .ok (w, { s with state := .opWait })
        else if f.packageRest = 0 then .ok (w, { s with file := some f, state := .opDownloadWaitConfirmPackage })
        else .ok (w, { s with file := some f })

def downloadConfirmCalc (c : Calc) (w : World) (s : Session) (line : Bytes) : M (World × Session) := do
  if strncmpZero line (ascii "continue") 8 then
    let f ← deref s.file
    let packageRest ← c.size (scanContinue line)
    .ok (w, { s with state := .opDownload, file := some { f with packageRest } })
  else if strncmpZero line (ascii "cancel") 6 then
    let _ ← deref s.file
    let (w, s) := clearFileFromSess w s
    .ok (w, { s with state := .opWait })
  else .ok (w, s)

/-! ## What a step is asked for -/

def firstLength (ans : Answers) (f : SFile) : Nat := min f.packageRest (sizeT (readLength ans.read))

def behindHeader (ans : Answers) (f : SFile) : Int := toInt (toInt (readLength ans.read - f.packageRest) - fpdSize)

def secondLength (ans : Answers) (f : SFile) : Int :=
  if sizeT (behindHeader ans f) > subSize f.rest f.packageRest
    then toInt (subSize f.rest f.packageRest) else behindHeader ans f

def WritesOn (ans : Answers) (f : SFile) : Prop :=
  TakesHeader ans f ∧ signalOf ans f = sigContinue ∧ 0 < behindHeader ans f ∧ ans.write2 ≠ .failed

def WholeWrites (ans : Answers) : Prop :=
  (ans.write1 = .failed ∨ ans.write1 = .full) ∧ (ans.write2 = .failed ∨ ans.write2 = .full)

/-- `file_upload` behind its first `write`, in front of a header; `rest` is what is left of the file then. -/
def behindPayloadCalc (c : Calc) (ans : Answers) (w : World) (s : Session) (f : SFile) (rest : Nat) :
    M (World × Session) :=
  if toInt (readLength ans.read - f.packageRest) = 0 then .ok (w, { s with file := some { f with rest } })
  else if rest = 0 then uploadFin w s { f with rest }
  else if signalOf ans f = sigContinue then
    if behindHeader ans f > 0 then
      let rlen := if sizeT (behindHeader ans f) > rest then toInt rest else behindHeader ans f
      match ans.write2.accepted (sizeT rlen) with
      | none => uploadWriteFailed ans w s { f with rest }
      | some n => do
        let _ ← c.pass (f.packageRest + fpdSize) n
        let w := w.append s.fd (bufSlice ans (ans.read.getD []) (f.packageRest + fpdSize) n)
        let rest ← c.size (rest - sizeT rlen)
        let packageRest ← c.size (bufLE ans (ans.read.getD []) (f.packageRest + 8) 8 - rlen)
        uploadFin w s { f with rest, packageRest }
    else do
      let packageRest ← c.size (bufLE ans (ans.read.getD []) (f.packageRest + 8) 8 - behindHeader ans f)
      uploadFin w s { f with rest, packageRest }
  else if signalOf ans f = sigCancel then uploadRemoved w s { f with rest }
  else uploadFin w s { f with rest }

def WriteAnswer.Whole (a : WriteAnswer) (len : Nat) : Prop := ∀ n ∈ a.accepted len, n = len

def UploadWhole (ans : Answers) (f : SFile) : Prop :=
  ans.read = some [] ∨ ans.write1.Whole (firstLength ans f) ∧
    (WritesOn ans f → ans.write2.Whole (sizeT (secondLength ans f)))

def UploadGoesOn (ans : Answers) (f : SFile) : Prop := ¬ UploadWriteFails ans f ∧ ¬ UploadCancelled ans f

instance (a : WriteAnswer) (len : Nat) : Decidable (a.Whole len) := by unfold WriteAnswer.Whole; infer_instance
instance (ans : Answers) : Decidable (WholeWrites ans) := by unfold WholeWrites; infer_instance
instance (ans : Answers) (f : SFile) : Decidable (UploadWhole ans f) := by
  unfold UploadWhole WritesOn TakesHeader
  infer_instance
instance (ans : Answers) (f : SFile) : Decidable (UploadGoesOn ans f) := by
  unfold UploadGoesOn UploadWriteFails UploadCancelled TakesHeader
  infer_instance

/-- No payload is outstanding where a read fails, the payload of a read is within what is left of the file, and the
header of the next package announces the payload that follows it. -/
def UploadCounts (ans : Answers) (f : SFile) : Prop :=
  ans.read = some [] ∨ ans.write1 = .failed ∨
    ((ans.read = none → f.packageRest = 0) ∧ firstLength ans f ≤ f.rest ∧
      (WritesOn ans f → secondLength ans f ≤ bufLE ans (ans.read.getD []) (f.packageRest + 8) 8))

/-- The package is sent, or the file ends, or the read succeeds and is within what is left of the file or not sent. -/
def DownloadCounts (ans : Answers) (f : SFile) : Prop :=
  f.packageRest = 0 ∨ ans.read = some [] ∨ ∃ bs ∈ ans.read, ans.write1 = .failed ∨ bs.length ≤ f.rest

def Session.downloads (s : Session) : Prop := s.state = .opDownload ∨ s.state = .opDownloadWaitConfirmPackage

section
variable {ans : Answers} {w w' : World} {s s' : Session} {f : SFile} {l : Bytes} {r : World × Session}
  {line : Option Bytes}

theorem fileUploadCalc_machine : fileUploadCalc .machine ans w s = fileUpload ans w s := by
  simp only [fileUpload, fileUploadWith, fileUploadCalc, Calc.machine, ok_bind, subSize]
  rfl
theorem fileDownloadCalc_machine : fileDownloadCalc .machine ans w s = fileDownload ans w s := rfl
theorem downloadConfirmCalc_machine : downloadConfirmCalc .machine w s l = downloadConfirm w s l := rfl

@[simp] theorem checked_size_nonneg {x : Int} (h : 0 ≤ x) : (Calc.checked ans).size x = .ok (sizeT x) :=
  if_neg (by omega)

@[simp] theorem checked_size_neg {x : Int} (h : x < 0) :
    (Calc.checked ans).size x = .error (.fault .overflow) := if_pos h

@[simp] theorem checked_pass_inside {off len : Nat} (h : off + len ≤ (ans.read.getD []).length) :
    (Calc.checked ans).pass off len = .ok () := if_pos h

@[simp] theorem checked_pass_outside {off len : Nat} (h : ¬ off + len ≤ (ans.read.getD []).length) :
    (Calc.checked ans).pass off len = .error (.fault .overflow) := if_neg h

@[simp] theorem error_bind {α β : Type} (e : Halt) (g : α → M β) : ((Except.error e : M α) >>= g) = .error e := rfl

theorem readLength_some {bs : Bytes} (h : ans.read = some bs) : readLength ans.read = bs.length := by rw [h]; rfl

theorem download_checked_iff (hf : s.file = some f) (h : fileDownload ans w s = .ok r) :
    fileDownloadCalc (.checked ans) ans w s = .ok r ↔ DownloadCounts ans f := by
  rw [← fileDownloadCalc_machine] at h
  unfold fileDownloadCalc at h ⊢
  unfold DownloadCounts
  simp only [hf, deref, ok_bind] at h ⊢
  by_cases hp : f.packageRest = 0
  · rw [if_pos hp] at h ⊢
    exact iff_of_true h (.inl hp)
  rw [if_neg hp] at h ⊢
  by_cases hlen : (if f.packageRest < inBufSize then f.packageRest else if f.rest < inBufSize then f.rest else inBufSize) <
      (ans.read.getD []).length
  · rw [if_pos hlen] at h
    cases h
  rw [if_neg hlen] at h ⊢
  by_cases hr : readLength ans.read = 0
  · rw [if_pos hr] at h ⊢
    exact iff_of_true h (.inr (.inl (readLength_eq_zero.mp hr)))
  rw [if_neg hr] at h ⊢
  rw [readLength_eq_zero] at hr
  by_cases hnone : ans.read = none
  · rw [checked_pass_outside (by rw [hnone]; decide), error_bind]
    simp [hp, hnone]
  obtain ⟨bs, hread⟩ := Option.ne_none_iff_exists'.mp hnone
  rw [hread, Option.getD_some] at hlen
  have hne : bs ≠ [] := fun e => hr (by rw [hread, e])
  have hfit : bs.length ≤ f.packageRest ∧ bs.length < 2 ^ 64 := by
    split at hlen
    · simp only [inBufSize] at *; omega
    · split at hlen <;> simp only [inBufSize] at * <;> omega
  have hpass : (Calc.checked ans).pass 0 bs.length = .ok () := checked_pass_inside (by rw [hread]; simp)
  have hmachine : Calc.machine.pass 0 bs.length = .ok () := rfl
  have hcond : (f.packageRest = 0 ∨ ans.read = some [] ∨ ∃ bs ∈ ans.read, ans.write1 = .failed ∨ bs.length ≤ f.rest) ↔
      (ans.write1 = .failed ∨ bs.length ≤ f.rest) := by
    simp [hp, hread, hne]
  rw [hcond]
  simp only [readLength_some hread, sizeT_of_lt hfit.2, hpass, hmachine, ok_bind] at h ⊢
  cases hw : ans.write1.accepted bs.length with
  | none =>
    simp only [hw] at h ⊢
    exact iff_of_true h (.inl (accepted_eq_none.mp hw))
  | some n =>
    have hfail : ans.write1 ≠ .failed := fun e => by simp [accepted_eq_none.mpr e] at hw
    simp only [hw, hfail, false_or] at h ⊢
    by_cases hle : bs.length ≤ f.rest
    · rw [checked_size_nonneg (by omega), checked_size_nonneg (by omega)]
      exact iff_of_true h hle
    · rw [checked_size_neg (by omega), error_bind]
      exact iff_of_false (by simp) hle

theorem accepted_whole {a : WriteAnswer} {len n : Nat} (h : a = .failed ∨ a = .full) (hn : a.accepted len = some n) :
    n = len := by
  rcases h with rfl | rfl
  · cases hn
  · exact (Option.some.inj hn).symm

theorem secondLength_le (h : 0 < behindHeader ans f) :
    0 ≤ secondLength ans f ∧ secondLength ans f ≤ behindHeader ans f ∧
      sizeT (secondLength ans f) ≤ subSize f.rest f.packageRest := by
  have hlt : behindHeader ans f < 2 ^ 31 := by
    unfold behindHeader toInt wrap
    exact Int.bmod_lt (by decide)
  unfold secondLength
  generalize behindHeader ans f = b at *
  generalize subSize f.rest f.packageRest = k
  have hb : (sizeT b : Int) = b := by unfold sizeT; omega
  split
  · rw [toInt_of_lt (by omega) (by omega), sizeT_of_lt (by omega)]
    omega
  · omega

theorem behindHeader_eq (hlen : (ans.read.getD []).length ≤ inBufSize)
    (hp : f.packageRest ≤ (ans.read.getD []).length)
    (h : 0 < behindHeader ans f) : behindHeader ans f = (ans.read.getD []).length - f.packageRest - fpdSize := by
  cases hread : ans.read with
  | none =>
    rw [hread] at hp
    have h0 : f.packageRest = 0 := Nat.le_zero.mp hp
    have : behindHeader ans f = -17 := by
      unfold behindHeader
      rw [hread, h0]
      decide
    omega
  | some bs =>
    rw [hread, Option.getD_some] at hp hlen
    have h16 : fpdSize = 16 := rfl
    have h1024 : inBufSize = 1024 := rfl
    unfold behindHeader
    rw [readLength_some hread, Option.getD_some, toInt_of_lt (x := bs.length - f.packageRest) (by omega) (by omega),
      toInt_of_lt (by omega) (by omega)]

theorem fileUploadCalc_header {c : Calc} (hf : s.file = some f) (hlen : (ans.read.getD []).length ≤ inBufSize)
    (hr : readLength ans.read ≠ 0) (hp : f.packageRest < sizeT (readLength ans.read)) :
    fileUploadCalc c ans w s = (match ans.write1.accepted f.packageRest with
      | none => uploadWriteFailed ans (w.log (.received s.sd (ans.read.getD []))) s f
      | some n => do
        let _ ← c.pass 0 n
        let rest ← c.size (f.rest - f.packageRest)
        behindPayloadCalc c ans (w.uploaded s (ans.read.getD []) (bufSlice ans (ans.read.getD []) 0 n)) s f rest) := by
  unfold fileUploadCalc
  simp only [hf, deref, ok_bind]
  rw [if_neg (Nat.not_lt.mpr hlen), if_neg hr, if_pos hp]
  rfl

theorem fileUploadCalc_payload {c : Calc} (hf : s.file = some f) (hlen : (ans.read.getD []).length ≤ inBufSize)
    (hr : readLength ans.read ≠ 0) (hp : ¬ f.packageRest < sizeT (readLength ans.read)) :
    fileUploadCalc c ans w s = (match ans.write1.accepted (sizeT (readLength ans.read)) with
      | none => uploadWriteFailed ans (w.log (.received s.sd (ans.read.getD []))) s f
      | some n => do
        let _ ← c.pass 0 n
        let rest ← c.size (f.rest - sizeT (readLength ans.read))
        let packageRest ← c.size (f.packageRest - sizeT (readLength ans.read))
        uploadFin (w.uploaded s (ans.read.getD []) (bufSlice ans (ans.read.getD []) 0 n))
          s { f with rest, packageRest }) := by
  unfold fileUploadCalc
  simp only [hf, deref, ok_bind]
  rw [if_neg (Nat.not_lt.mpr hlen), if_neg hr, if_neg hp]
  rfl

theorem fileUploadCalc_end {c : Calc} (hf : s.file = some f) (hlen : (ans.read.getD []).length ≤ inBufSize)
    (hr : readLength ans.read = 0) :
    fileUploadCalc c ans w s = if f.rest ≠ 0 then uploadRemoved w s f else .ok (w, { s with state := .opWait }) := by
  unfold fileUploadCalc
  simp only [hf, deref, ok_bind]
  rw [if_neg (Nat.not_lt.mpr hlen), if_pos hr]

theorem behindPayload_checked_iff (hlen : (ans.read.getD []).length ≤ inBufSize)
    (hw2 : ans.write2 = .failed ∨ ans.write2 = .full)
    (hp : f.packageRest < sizeT (readLength ans.read)) (hpass : f.packageRest ≤ (ans.read.getD []).length)
    (h : behindPayloadCalc .machine ans w s f (subSize f.rest f.packageRest) = .ok r) :
    behindPayloadCalc (.checked ans) ans w s f (subSize f.rest f.packageRest) = .ok r ↔
      (WritesOn ans f → secondLength ans f ≤ bufLE ans (ans.read.getD []) (f.packageRest + 8) 8) := by
  have hsecond : (if sizeT (behindHeader ans f) > subSize f.rest f.packageRest then toInt (subSize f.rest f.packageRest)
    else behindHeader ans f) = secondLength ans f := rfl
  unfold behindPayloadCalc at h ⊢
  simp only [hsecond] at h ⊢
  by_cases h1 : toInt (readLength ans.read - f.packageRest) = 0
  · rw [if_pos h1] at h ⊢
    exact iff_of_true h fun hon => absurd h1 hon.1.2.1
  rw [if_neg h1] at h ⊢
  by_cases h2 : subSize f.rest f.packageRest = 0
  · rw [if_pos h2] at h ⊢
    exact iff_of_true h fun hon => absurd h2 hon.1.2.2
  rw [if_neg h2] at h ⊢
  by_cases h3 : signalOf ans f = sigContinue
  case neg =>
    rw [if_neg h3] at h ⊢
    exact iff_of_true h fun hon => absurd hon.2.1 h3
  rw [if_pos h3] at h ⊢
  by_cases h4 : behindHeader ans f > 0
  case neg =>
    rw [if_neg h4] at h ⊢
    rw [checked_size_nonneg (by omega)]
    exact iff_of_true h fun hon => absurd hon.2.2.1 h4
  rw [if_pos h4] at h ⊢
  obtain ⟨hs0, hsb, hsr⟩ := secondLength_le h4
  rcases hw2 with hw2 | hw2
  · simp only [hw2] at h ⊢
    exact iff_of_true h fun hon => absurd hw2 hon.2.2.2
  simp only [hw2, WriteAnswer.accepted] at h ⊢
  have hon : WritesOn ans f := ⟨⟨hp, h1, h2⟩, h3, h4, by simp [hw2]⟩
  have hle1024 : (ans.read.getD []).length ≤ 1024 := hlen
  have hbehind := behindHeader_eq hlen hpass h4
  have hsize : (sizeT (secondLength ans f) : Int) = secondLength ans f := by
    unfold sizeT
    omega
  rw [checked_pass_inside (by omega), checked_size_nonneg (by omega), ok_bind, ok_bind]
  by_cases hpkg : secondLength ans f ≤ bufLE ans (ans.read.getD []) (f.packageRest + 8) 8
  · rw [checked_size_nonneg (by omega)]
    exact iff_of_true h fun _ => hpkg
  · rw [checked_size_neg (by omega), error_bind]
    exact iff_of_false (by simp) fun hc => hpkg (hc hon)

/-- The first `write` is within the read exactly if the read has not failed with payload outstanding. -/
theorem first_inside_iff (hlen : (ans.read.getD []).length ≤ inBufSize) :
    0 + firstLength ans f ≤ (ans.read.getD []).length ↔ (ans.read = none → f.packageRest = 0) := by
  rw [Nat.zero_add]
  unfold firstLength
  cases hread : ans.read with
  | none =>
    have hmax : sizeT (readLength none) = 2 ^ 64 - 1 := by decide
    rw [hmax]
    show min f.packageRest (2 ^ 64 - 1) ≤ 0 ↔ _
    simp only [forall_const]
    omega
  | some bs =>
    rw [hread, Option.getD_some] at hlen
    rw [readLength, sizeT_length hlen]
    exact iff_of_true (Nat.min_le_right ..) (by simp)

theorem upload_checked_iff (hf : s.file = some f) (hw : WholeWrites ans) (h : fileUpload ans w s = .ok r) :
    fileUploadCalc (.checked ans) ans w s = .ok r ↔ UploadCounts ans f := by
  have hlen := fileUpload_length h
  rw [← fileUploadCalc_machine] at h
  by_cases hr : readLength ans.read = 0
  · rw [fileUploadCalc_end hf hlen hr] at h ⊢
    exact iff_of_true h (.inl (readLength_eq_zero.mp hr))
  have hcond : UploadCounts ans f ↔ ans.write1 = .failed ∨ (ans.read = none → f.packageRest = 0) ∧
    firstLength ans f ≤ f.rest ∧
      (WritesOn ans f → secondLength ans f ≤ bufLE ans (ans.read.getD []) (f.packageRest + 8) 8) :=
    or_iff_right (mt readLength_eq_zero.mpr hr)
  have hinside := first_inside_iff (f := f) hlen
  have hmachine : ∀ off len, Calc.machine.pass off len = .ok () := fun _ _ => rfl
  have hmsize : ∀ x, Calc.machine.size x = .ok (sizeT x) := fun _ => rfl
  rw [hcond]
  by_cases hp : f.packageRest < sizeT (readLength ans.read)
  · have hfirst : firstLength ans f = f.packageRest := Nat.min_eq_left hp.le
    rw [fileUploadCalc_header hf hlen hr hp] at h ⊢
    rw [hfirst] at hinside ⊢
    rcases hw.1 with hw1 | hw1
    · simp only [hw1, WriteAnswer.accepted] at h ⊢
      exact iff_of_true h (.inl trivial)
    simp only [hw1, WriteAnswer.accepted, hmachine, hmsize, ok_bind, reduceCtorEq, false_or] at h ⊢
    by_cases hpass : 0 + f.packageRest ≤ (ans.read.getD []).length
    case neg =>
      rw [checked_pass_outside hpass, error_bind]
      exact iff_of_false (by simp) fun hc => hpass (hinside.mpr hc.1)
    rw [checked_pass_inside hpass, ok_bind]
    by_cases hle : f.packageRest ≤ f.rest
    · rw [checked_size_nonneg (by omega), ok_bind,
        show sizeT ((f.rest : Int) - f.packageRest) = subSize f.rest f.packageRest from rfl,
        behindPayload_checked_iff hlen hw.2 hp (by omega) h]
      exact ⟨fun hc => ⟨hinside.mp hpass, hle, hc⟩, fun hc => hc.2.2⟩
    · rw [checked_size_neg (by omega), error_bind]
      exact iff_of_false (by simp) fun hc => hle hc.2.1
  · have hfirst : firstLength ans f = sizeT (readLength ans.read) := Nat.min_eq_right (Nat.le_of_not_lt hp)
    have hno : ¬ WritesOn ans f := fun hon => hp hon.1.1
    rw [fileUploadCalc_payload hf hlen hr hp] at h ⊢
    rw [hfirst] at hinside ⊢
    rcases hw.1 with hw1 | hw1
    · simp only [hw1, WriteAnswer.accepted] at h ⊢
      exact iff_of_true h (.inl trivial)
    simp only [hw1, WriteAnswer.accepted, hmachine, hmsize, ok_bind, reduceCtorEq, false_or] at h ⊢
    by_cases hpass : 0 + sizeT (readLength ans.read) ≤ (ans.read.getD []).length
    case neg =>
      rw [checked_pass_outside hpass, error_bind]
      exact iff_of_false (by simp) fun hc => hpass (hinside.mpr hc.1)
    rw [checked_pass_inside hpass, ok_bind]
    by_cases hle : sizeT (readLength ans.read) ≤ f.rest
    · rw [checked_size_nonneg (by omega), checked_size_nonneg (by omega)]
      exact iff_of_true h ⟨hinside.mp hpass, hle, fun hon => absurd hon hno⟩
    · rw [checked_size_neg (by omega), error_bind]
      exact iff_of_false (by simp) fun hc => hle hc.2.1

/-! ## What a step writes and counts -/

@[simp] theorem length_bufSlice {bs : Bytes} {off len : Nat} :
    (bufSlice ans bs off len).length = len := by simp [bufSlice]

/-- `file_upload` has written `out`; it counts the payload of the first `write` and `l` bytes more. -/
structure Counted (ans : Answers) (f : SFile) (w : World) (s : Session) (w' : World) (s' : Session) (out : Bytes)
    (l : Nat) : Prop where
  within : l ≤ subSize f.rest (firstLength ans f)
  length : out.length ≤ firstLength ans f + l
  failed : ans.write1 = .failed → out = []
  disk : ∀ q, w'.disk q = none ∨ w'.disk q = (w.uploaded s (ans.read.getD []) out).disk q
  goesOn : s'.uploads → ∃ g, s'.file = some g ∧ g.hash = f.hash ∧ g.size = f.size ∧
    out.length = firstLength ans f + l ∧
    g.rest = subSize f.rest (firstLength ans f) - l ∧ (s'.state = .opUploadDescription → g.rest = 0)

section
variable {w₁ : World} {out : Bytes} {n : Nat}

theorem Counted.fin {g : SFile} (h : uploadFin w₁ s g = .ok (w', s')) (hst : s.state = .opUpload)
    (hw1 : ans.write1 ≠ .failed)
    (hg : g.hash = f.hash ∧ g.size = f.size) (hw : n ≤ subSize f.rest (firstLength ans f))
    (he : out.length = firstLength ans f + n) (hr : g.rest = subSize f.rest (firstLength ans f) - n)
    (hd : ∀ q, w₁.disk q = (w.uploaded s (ans.read.getD []) out).disk q) : Counted ans f w s w' s' out n := by
  obtain ⟨st, hst', ht, rfl⟩ := uploadFin_ok hst h
  refine ⟨hw, he.le, fun h => absurd h hw1, fun q => .inr ?_, fun _ => ⟨g, rfl, hg.1, hg.2, he, hr, fun h => ?_⟩⟩
  · rw [ht.disk, hd]
  · rcases hst' with rfl | ⟨-, h0⟩
    · cases h
    · exact h0

theorem Counted.ends (hw : n ≤ subSize f.rest (firstLength ans f)) (hlen : out.length ≤ firstLength ans f + n)
    (hfail : ans.write1 = .failed → out = []) (hd : ∀ q, w₁.disk q = (w.uploaded s (ans.read.getD []) out).disk q)
    (hf : s.file = some f) (h : uploadRemoved w₁ s f = .ok (w', s') ∨ uploadWriteFailed ans w₁ s f = .ok (w', s')) :
    Counted ans f w s w' s' out n := by
  have hup : ¬ (s.cleared .opWait).uploads := fun h => by rcases h with h | h <;> cases h
  rcases h with h | h
  · obtain ⟨p, -, rfl, rfl⟩ := uploadRemoved_ok hf h
    refine ⟨hw, hlen, hfail, fun q => ?_, fun h => absurd h hup⟩
    rw [World.closeFd_disk, World.unlink_disk, hd]
    exact (em _).imp (if_pos ·) (if_neg ·)
  · obtain ⟨p, w₂, -, ht, rfl, rfl⟩ := uploadWriteFailed_ok hf h
    refine ⟨hw, hlen, hfail, fun q => ?_, fun h => absurd h hup⟩
    rw [World.closeFd_disk, World.unlink_disk, World.closeFd_disk, ht.disk, hd]
    exact (em _).imp (if_pos ·) (if_neg ·)

end

theorem behindPayload_counted {out : Bytes} (hst : s.state = .opUpload) (hf : s.file = some f)
    (hp : f.packageRest < sizeT (readLength ans.read)) (hfail : ans.write1 ≠ .failed)
    (hout : out.length = firstLength ans f)
    (hw2 : WritesOn ans f → ans.write2.Whole (sizeT (secondLength ans f)))
    (h : behindPayloadCalc .machine ans (w.uploaded s (ans.read.getD []) out) s f (subSize f.rest f.packageRest) =
      .ok (w', s')) :
    ∃ out l, Counted ans f w s w' s' out l := by
  have hfirst : firstLength ans f = f.packageRest := Nat.min_eq_left hp.le
  have hrest : subSize f.rest f.packageRest = subSize f.rest (firstLength ans f) - 0 := by
    rw [hfirst]
    rfl
  have hsecond : (if sizeT (behindHeader ans f) > subSize f.rest f.packageRest then toInt (subSize f.rest f.packageRest)
    else behindHeader ans f) = secondLength ans f := rfl
  unfold behindPayloadCalc at h
  simp only [hsecond] at h
  by_cases h1 : toInt (readLength ans.read - f.packageRest) = 0
  · rw [if_pos h1] at h
    cases h
    refine ⟨_, 0, Nat.zero_le _, hout.le, (absurd · hfail), fun q => .inr rfl,
      fun _ => ⟨_, rfl, rfl, rfl, hout, hrest, fun h => ?_⟩⟩
    rw [show s.state = .opUploadDescription from h] at hst
    cases hst
  rw [if_neg h1] at h
  by_cases h2 : subSize f.rest f.packageRest = 0
  · rw [if_pos h2] at h
    exact ⟨_, 0, .fin h hst hfail ⟨rfl, rfl⟩ (Nat.zero_le _) hout hrest fun q => rfl⟩
  rw [if_neg h2] at h
  by_cases h3 : signalOf ans f = sigContinue
  case neg =>
    rw [if_neg h3] at h
    by_cases hc : signalOf ans f = sigCancel
    · rw [if_pos hc] at h
      exact ⟨_, 0, .ends (Nat.zero_le _) hout.le (absurd · hfail) (fun q => rfl) hf (.inl h)⟩
    · rw [if_neg hc] at h
      exact ⟨_, 0, .fin h hst hfail ⟨rfl, rfl⟩ (Nat.zero_le _) hout hrest fun q => rfl⟩
  rw [if_pos h3] at h
  by_cases h4 : behindHeader ans f > 0
  case neg =>
    rw [if_neg h4] at h
    exact ⟨_, 0, .fin h hst hfail ⟨rfl, rfl⟩ (Nat.zero_le _) hout hrest fun q => rfl⟩
  rw [if_pos h4] at h
  obtain ⟨-, -, hsr⟩ := secondLength_le h4
  cases hacc : ans.write2.accepted (sizeT (secondLength ans f)) with
  | none =>
    simp only [hacc] at h
    exact ⟨_, 0, .ends (Nat.zero_le _) hout.le (absurd · hfail) (fun q => rfl) hf (.inr h)⟩
  | some n =>
    have hfail2 : ans.write2 ≠ .failed := fun e => by simp [accepted_eq_none.mpr e] at hacc
    obtain rfl := hw2 ⟨⟨hp, h1, h2⟩, h3, h4, hfail2⟩ n hacc
    simp only [hacc, World.uploaded, World.append_append] at h
    refine ⟨_, sizeT (secondLength ans f), .fin h hst hfail ⟨rfl, rfl⟩ (by rw [hfirst]; exact hsr) ?_ ?_ fun q => rfl⟩
    · rw [List.length_append, hout, length_bufSlice]
    · rw [hfirst]
      exact subSize_of_le (sizeT_lt _) hsr

theorem upload_counted (hst : s.state = .opUpload) (hf : s.file = some f) (hx : UploadWhole ans f)
    (h : fileUpload ans w s = .ok (w', s')) : ∃ out l, Counted ans f w s w' s' out l := by
  have hnil : w.uploaded s (ans.read.getD []) [] = w.log (.received s.sd (ans.read.getD [])) := World.append_nil ..
  have hzero : ∀ q, w.disk q = (w.uploaded s (ans.read.getD []) []).disk q := fun q => by rw [hnil]; rfl
  have hlen := fileUpload_length h
  rw [← fileUploadCalc_machine] at h
  by_cases hr : readLength ans.read = 0
  · rw [fileUploadCalc_end hf hlen hr] at h
    by_cases hrest : f.rest = 0
    · rw [if_neg (not_not.mpr hrest)] at h
      cases h
      exact ⟨[], 0, Nat.zero_le _, Nat.zero_le _, fun _ => rfl, fun q => .inr (hzero q),
        fun hup => by rcases hup with h | h <;> cases h⟩
    · rw [if_pos hrest] at h
      exact ⟨[], 0, .ends (Nat.zero_le _) (Nat.zero_le _) (fun _ => rfl) hzero hf (.inl h)⟩
  obtain ⟨hw1, hw2⟩ := hx.resolve_left (mt readLength_eq_zero.mpr hr)
  have failed (h : uploadWriteFailed ans (w.log (.received s.sd (ans.read.getD []))) s f = .ok (w', s')) :
      ∃ out l, Counted ans f w s w' s' out l :=
    ⟨[], 0, .ends (Nat.zero_le _) (Nat.zero_le _) (fun _ => rfl) (fun q => rfl) hf (.inr (hnil ▸ h))⟩
  by_cases hp : f.packageRest < sizeT (readLength ans.read)
  · have hfirst : firstLength ans f = f.packageRest := Nat.min_eq_left hp.le
    rw [fileUploadCalc_header hf hlen hr hp, ← hfirst] at h
    cases hacc : ans.write1.accepted (firstLength ans f) with
    | none =>
      simp only [hacc] at h
      exact failed h
    | some n =>
      have hfail : ans.write1 ≠ .failed := fun e => by simp [accepted_eq_none.mpr e] at hacc
      obtain rfl := hw1 n hacc
      simp only [hacc] at h
      rw [hfirst] at h
      exact behindPayload_counted hst hf hp hfail (by rw [length_bufSlice, hfirst]) hw2 h
  · have hfirst : firstLength ans f = sizeT (readLength ans.read) := Nat.min_eq_right (Nat.le_of_not_lt hp)
    rw [fileUploadCalc_payload hf hlen hr hp, ← hfirst] at h
    cases hacc : ans.write1.accepted (firstLength ans f) with
    | none =>
      simp only [hacc] at h
      exact failed h
    | some n =>
      have hfail : ans.write1 ≠ .failed := fun e => by simp [accepted_eq_none.mpr e] at hacc
      obtain rfl := hw1 n hacc
      simp only [hacc] at h
      exact ⟨_, 0, .fin h hst hfail ⟨rfl, rfl⟩ (Nat.zero_le _) length_bufSlice rfl fun q => rfl⟩

theorem delivery_handled (line : Option Bytes) (st : SessState) :
    (delivery (logOf s.sd (w.log (.handled s.sd st line)).trace)).bytes = (delivery (logOf s.sd w.trace)).bytes := by
  rw [World.log_trace, logOf_own rfl]
  cases st <;> cases line <;> try rfl
  rename_i l
  show ((delivery (logOf s.sd w.trace)).confirm l).bytes = _
  unfold Delivery.confirm
  split
  · rfl
  · split <;> rfl

/-- A call of `file_download` sends nothing and keeps the counters, or `write` accepts `n` bytes. -/
theorem download_counted {st : SessState} (hst : s.state = .opDownload) (hf : s.file = some f)
    (h : fileDownload ans (w.log (.handled s.sd st line)) s = .ok (w', s')) :
    ((delivery (logOf s.sd w'.trace)).bytes = (delivery (logOf s.sd w.trace)).bytes ∧
      (s'.downloads → s'.fd = s.fd ∧ s'.file = some f) ∧
      (s'.state = .opWait → ans.read = some [])) ∨
    ∃ n, f.packageRest ≠ 0 ∧ ans.read ≠ some [] ∧ ans.write1.accepted (sizeT (readLength ans.read)) = some n ∧
      (delivery (logOf s.sd w'.trace)).bytes.length = (delivery (logOf s.sd w.trace)).bytes.length + n ∧
      (s'.downloads → s'.fd = s.fd ∧ ∃ g, s'.file = some g ∧ g.size = f.size ∧
        g.rest = subSize f.rest (sizeT (readLength ans.read))) ∧
      (s'.state = .opWait → subSize f.rest (sizeT (readLength ans.read)) = 0) := by
  have hcleared : ∀ {st}, st = .opWait ∨ st = .err → ¬ (s.cleared st).downloads := fun hst h => by
    rcases hst with rfl | rfl <;> rcases h with h | h <;> cases h
  have hbytes : (delivery (logOf s.sd (w.log (.handled s.sd st line)).trace)).bytes = _ := delivery_handled line st
  rw [← hbytes]
  clear hbytes
  generalize w.log (.handled s.sd st line) = w at h ⊢
  unfold fileDownload at h
  obtain ⟨g, hg, h⟩ := bind_ok.mp h
  obtain rfl : f = g := Option.some.inj (hf.symm.trans (deref_ok.mp hg))
  by_cases hp : f.packageRest = 0
  · rw [if_pos hp] at h
    cases h
    exact .inl ⟨rfl, fun _ => ⟨rfl, hf⟩, fun h => by cases h⟩
  rw [if_neg hp] at h
  extract_lets readLen bs rlen at h
  by_cases hlen : readLen < bs.length
  · rw [if_pos hlen] at h
    cases h
  rw [if_neg hlen] at h
  by_cases hr : rlen = 0
  · rw [if_pos hr] at h
    have hread := readLength_eq_zero.mp hr
    by_cases hrest : f.rest = 0
    · rw [if_neg (not_not.mpr hrest)] at h
      cases h
      refine .inl ⟨rfl, fun hd => ?_, fun _ => hread⟩
      rcases hd with h | h <;> cases h
    · rw [if_pos hrest, clearFileFromSess_some w hf] at h
      cases h
      exact .inl ⟨congrArg (·.bytes) delivery_closeFd, fun hd => absurd hd (hcleared (.inl rfl)), fun _ => hread⟩
  rw [if_neg hr] at h
  cases hacc : ans.write1.accepted (sizeT rlen) with
  | none =>
    simp only [hacc] at h
    rw [clearFileFromSess_some w (s := { s with state := .err }) hf] at h
    cases h
    exact .inl ⟨congrArg (·.bytes) delivery_closeFd, fun hd => absurd hd (hcleared (.inr rfl)), fun h => by cases h⟩
  | some n =>
    simp only [hacc] at h
    have hsend : (delivery (logOf s.sd (w.log (.wrote s.sd (bufSlice ans bs 0 n))).trace)).bytes.length =
        (delivery (logOf s.sd w.trace)).bytes.length + n := by
      rw [World.log_trace, logOf_own rfl]
      exact List.length_append.trans (by rw [length_bufSlice])
    refine .inr ⟨n, hp, mt readLength_eq_zero.mpr hr, rfl, ?_⟩
    by_cases h0 : subSize f.rest (sizeT rlen) = 0
    · rw [if_pos h0] at h
      cases h
      exact ⟨by rw [← hsend]; exact congrArg (·.bytes.length) delivery_closeFd,
        fun hd => absurd hd (hcleared (.inl rfl)), fun _ => h0⟩
    rw [if_neg h0] at h
    split at h
    · cases h
      exact ⟨hsend, fun _ => ⟨rfl, _, rfl, rfl, rfl⟩, fun h => by cases h⟩
    · cases h
      refine ⟨hsend, fun _ => ⟨rfl, _, rfl, rfl, rfl⟩, fun h => ?_⟩
      rw [show s.state = .opWait from h] at hst
      cases hst

end

end BbsServer
