import BbsServer.Did

/-!
# What a transfer step can do

`file_download`, `download_confirm` and `file_upload`.
-/

namespace BbsServer

open CStr Function

section
variable {P : Platform} {ans : Answers} {w w' : World} {s s' : Session} {l : Bytes}

theorem readLength_eq_zero {r : Option Bytes} : readLength r = 0 ↔ r = some [] := by
  cases r <;> simp [readLength]

theorem accepted_eq_none {a : WriteAnswer} {n : Nat} : a.accepted n = none ↔ a = .failed := by
  cases a <;> simp [WriteAnswer.accepted]

theorem fileDownload_ended {f : SFile} (hf : s.file = some f) (hread : ans.read = some []) (h0 : f.rest = 0)
    (hp : f.packageRest ≠ 0) : fileDownload ans w s = .ok (w, { s with state := .opWait }) := by
  simp [fileDownload, hf, deref, hp, hread, readLength, h0]

theorem fileDownload_did {line : Option Bytes} (hst : s.state = .opDownload)
    (h : fileDownload ans w s = .ok (w', s')) :
    Did P ans w s line w' s' := by
  unfold fileDownload at h
  obtain ⟨f, hf, h⟩ := bind_ok.mp h
  rw [deref_ok] at hf
  by_cases hp : f.packageRest = 0
  · rw [if_pos hp] at h
    cases h
    have hd : Did P ans w s line w { s with file := some f, state := .opDownloadWaitConfirmPackage } :=
      .moved (.inl hst) hf (.inr rfl) (.refl w)
    rwa [← hf] at hd
  rw [if_neg hp] at h
  extract_lets readLen bs rlen at h
  by_cases hl : readLen < bs.length
  · rw [if_pos hl] at h; cases h
  rw [if_neg hl] at h
  by_cases h0 : rlen = 0
  · rw [if_pos h0] at h
    have hr := readLength_eq_zero.mp h0
    by_cases hrest : f.rest = 0
    · rw [if_neg (not_not.mpr hrest)] at h
      cases h
      exact .ended (.inl ⟨hst, hp⟩) hf hr hrest
    · rw [if_pos hrest, clearFileFromSess_some w hf] at h
      cases h
      exact .released (.inl hst) hf (.inl rfl) (.refl w)
  rw [if_neg h0] at h
  cases hw : ans.write1.accepted (sizeT rlen) with
  | none =>
    simp only [hw] at h
    rw [clearFileFromSess_some w (s := { s with state := .err }) hf] at h
    cases h
    exact .released (.inl hst) hf (.inr ⟨rfl, hst⟩) (.refl w)
  | some n =>
  simp only [hw] at h
  split at h
  · cases h
    exact .released (.inl hst) hf (.inl rfl) (.log rfl)
  split at h
  · cases h
    exact .moved (.inl hst) hf (.inr rfl) (.log rfl)
  · cases h
    rw [show s = { s with state := .opDownload } by rw [← hst]]
    exact .moved (.inl rfl) hf (.inl rfl) (.log rfl)

theorem downloadConfirm_did {line : Option Bytes} (hst : s.state = .opDownloadWaitConfirmPackage)
    (h : downloadConfirm w s l = .ok (w', s')) : Did P ans w s line w' s' := by
  unfold downloadConfirm at h
  split at h
  · obtain ⟨f, hf, h⟩ := bind_ok.mp h
    cases h
    exact .moved (.inr hst) (deref_ok.mp hf) (.inl rfl) (.refl w)
  split at h
  · obtain ⟨f, hf, h⟩ := bind_ok.mp h
    rw [deref_ok] at hf
    rw [clearFileFromSess_some w hf] at h
    cases h
    exact .released (.inr hst) hf (.inl rfl) (.refl w)
  · cases h
    exact .talked (by simp [hst]) (by simp [hst]) (by simp [hst])
      (quiet_of_state (by simp [hst]) (by simp [hst])) (.refl w)

/-! ### Upload

The two removals and the label `fin` first; `w` is then the world after the writes. -/

theorem uploadRemoved_ok {f : SFile} (hf : s.file = some f) (h : uploadRemoved w s f = .ok (w', s')) :
    ∃ p, f.path = some p ∧ w' = (w.unlink p).closeFd s ∧ s' = s.cleared .opWait := by
  unfold uploadRemoved at h
  obtain ⟨p, hp, h⟩ := bind_ok.mp h
  rw [clearFileFromSess_some _ hf] at h
  cases h
  exact ⟨p, deref_ok.mp hp, rfl, rfl⟩

theorem uploadWriteFailed_ok {f : SFile} (hf : s.file = some f) (h : uploadWriteFailed ans w s f = .ok (w', s')) :
    ∃ p w₁, f.path = some p ∧ Talks w w₁ ∧ w' = ((w₁.closeFd s).unlink p).closeFd s ∧ s' = s.cleared .opWait := by
  unfold uploadWriteFailed uploadWriteFailedWith at h
  obtain ⟨w₁, ht, h⟩ := bind_ok.mp h
  obtain ⟨p, hp, h⟩ := bind_ok.mp h
  rw [clearFileFromSess_some _ hf] at h
  cases h
  exact ⟨p, w₁, deref_ok.mp hp, sessionSendString_talks ht, rfl, rfl⟩

theorem uploadFin_ok {f : SFile} (hst : s.state = .opUpload) (h : uploadFin w s f = .ok (w', s')) :
    ∃ st, (st = .opUpload ∨ (st = .opUploadDescription ∧ f.rest = 0)) ∧ Talks w w' ∧
      s' = { s with file := some f, state := st } := by
  unfold uploadFin uploadFinWith at h
  by_cases hr : f.rest = 0
  · rw [if_pos hr] at h
    obtain ⟨w₁, ht, h⟩ := bind_ok.mp h
    cases h
    exact ⟨_, .inr ⟨rfl, hr⟩, sessionSendString_talks ht, rfl⟩
  · rw [if_neg hr] at h
    cases h
    exact ⟨_, .inl rfl, .refl _, by rw [← hst]⟩

/-- The ends of `file_upload`: it is enough that each has `Q`, whatever has been written and counted before. -/
theorem fileUpload_ends {Q : M (World × Session) → Prop} {f : SFile} (hf : s.file = some f)
    (refused : Q (.error .refused)) (ended : Q (.ok (w, { s with state := .opWait }))) (cut : Q (uploadRemoved w s f))
    (kept : ∀ out g, Q (.ok (w.uploaded s (ans.read.getD []) out, { s with file := some g })))
    (removed : ∀ out g, g.path = f.path → Q (uploadRemoved (w.uploaded s (ans.read.getD []) out) s g))
    (failed : ∀ out g, g.path = f.path → Q (uploadWriteFailed ans (w.uploaded s (ans.read.getD []) out) s g))
    (fin : ∀ out g, Q (uploadFin (w.uploaded s (ans.read.getD []) out) s g)) : Q (fileUpload ans w s) := by
  unfold fileUpload fileUploadWith
  rw [show deref s.file = .ok f from deref_ok.mpr hf, ok_bind]
  dsimp only
  by_cases hl : inBufSize < (ans.read.getD []).length
  · rw [if_pos hl]
    exact refused
  rw [if_neg hl]
  by_cases h0 : readLength ans.read = 0
  · rw [if_pos h0]
    by_cases hrest : f.rest = 0
    · rw [if_neg (not_not.mpr hrest)]
      exact ended
    · rw [if_pos hrest]
      exact cut
  rw [if_neg h0]
  have hfailed : Q (uploadWriteFailed ans (w.log (.received s.sd (ans.read.getD []))) s f) := by
    have := failed [] f rfl
    rwa [World.uploaded, World.append_nil] at this
  by_cases hp : f.packageRest < sizeT (readLength ans.read)
  · rw [if_pos hp]
    cases ans.write1.accepted f.packageRest with
    | none => exact hfailed
    | some n =>
      dsimp only
      by_cases h1 : toInt (readLength ans.read - f.packageRest) = 0
      · rw [if_pos h1]
        exact kept _ _
      rw [if_neg h1]
      by_cases h2 : subSize f.rest f.packageRest = 0
      · rw [if_pos h2]
        exact fin _ _
      rw [if_neg h2]
      by_cases h3 : bufLE ans (ans.read.getD []) f.packageRest 4 = sigContinue
      · rw [if_pos h3]
        by_cases h4 : toInt (toInt (readLength ans.read - f.packageRest) - fpdSize) > 0
        · rw [if_pos h4]
          cases ans.write2.accepted _ with
          | none => exact failed _ _ rfl
          | some m =>
            dsimp only
            rw [World.append_append]
            exact fin _ _
        · rw [if_neg h4]
          exact fin _ _
      rw [if_neg h3]
      by_cases h5 : bufLE ans (ans.read.getD []) f.packageRest 4 = sigCancel
      · rw [if_pos h5]
        exact removed _ _ rfl
      · rw [if_neg h5]
        exact fin _ _
  · rw [if_neg hp]
    cases ans.write1.accepted (sizeT (readLength ans.read)) with
    | none => exact hfailed
    | some n => exact fin _ _

section
variable {f : SFile} {n m : Nat} (hw : ans.write1.accepted (min f.packageRest (sizeT (readLength ans.read))) = some n)
include hw

theorem uploadOut_first (hno : ¬ (TakesHeader ans f ∧ signalOf ans f = sigContinue ∧
      toInt (toInt (readLength ans.read - f.packageRest) - fpdSize) > 0)) :
    uploadOut ans f = bufSlice ans (ans.read.getD []) 0 n := by
  simp only [uploadOut, if_neg hno, hw, Option.getD_some]

theorem uploadOut_next {rlen : Int} (hrlen : rlen = toInt (toInt (readLength ans.read - f.packageRest) - fpdSize))
    (hh : TakesHeader ans f) (hsig : signalOf ans f = sigContinue) (hpos : rlen > 0)
    (hm : ans.write2.accepted (sizeT (if sizeT rlen > subSize f.rest f.packageRest then toInt (subSize f.rest f.packageRest)
      else rlen)) = some m) :
    uploadOut ans f = bufSlice ans (ans.read.getD []) 0 n ++ bufSlice ans (ans.read.getD []) (f.packageRest + fpdSize) m := by
  subst hrlen
  simp only [uploadOut, if_pos (And.intro hh (And.intro hsig hpos)), hw, hm, Option.getD_some]

end

theorem fileUpload_did {line : Option Bytes} (hst : s.state = .opUpload) (h : fileUpload ans w s = .ok (w', s')) :
    Did P ans w s line w' s' := by
  unfold fileUpload fileUploadWith at h
  obtain ⟨f, hf, h⟩ := bind_ok.mp h
  rw [deref_ok] at hf
  extract_lets bs rlen w₁ rlen₁ f₁ signal pdSize rlen₂ rlen₃ at h
  by_cases hl : inBufSize < bs.length
  · rw [if_pos hl] at h; cases h
  rw [if_neg hl] at h
  by_cases h0 : rlen = 0
  · rw [if_pos h0] at h
    have hr := readLength_eq_zero.mp h0
    by_cases hrest : f.rest = 0
    · rw [if_neg (not_not.mpr hrest)] at h
      cases h
      exact .ended (.inr hst) hf hr hrest
    · rw [if_pos hrest] at h
      obtain ⟨p, hp, rfl, rfl⟩ := uploadRemoved_ok hf h
      exact .removed hst hf hp (.inl ⟨hr, hrest⟩) (.inl ⟨hr, rfl⟩)
  rw [if_neg h0] at h
  have hr : ans.read ≠ some [] := fun e => h0 (readLength_eq_zero.mpr e)
  -- how each of the remaining ends is one of the cases, for any bytes written before it
  have failed : ∀ {out}, UploadWriteFails ans f →
      uploadWriteFailed ans (w.uploaded s bs out) s f = .ok (w', s') → Did P ans w s line w' s' := by
    intro out hw hx
    obtain ⟨p, w₂, hp, ht, rfl, rfl⟩ := uploadWriteFailed_ok hf hx
    exact .writeFailed hst hf hp hw ht
  have fin : ∀ {out rest pr}, ¬ UploadWriteFails ans f → ¬ UploadCancelled ans f → FirstWrite ans f out →
    out = uploadOut ans f →
      uploadFin (w.uploaded s bs out) s { f with rest, packageRest := pr } = .ok (w', s') →
        Did P ans w s line w' s' := by
    intro out rest pr hnw hnc ho hout hx
    obtain ⟨st, hst', ht, rfl⟩ := uploadFin_ok hst hx
    exact .stored hst hf hr hnw hnc ho hst' ht hout
  have hnil : w₁ = w.uploaded s bs [] := (World.append_nil w₁ s.fd).symm
  have hcancel : UploadCancelled ans f → TakesHeader ans f ∧ signalOf ans f = sigCancel := by
    rintro (⟨he, -⟩ | ⟨-, -, hc⟩)
    · exact absurd he hr
    · exact hc
  by_cases hp : f.packageRest < sizeT rlen
  · rw [if_pos hp] at h
    cases hw : ans.write1.accepted f.packageRest with
    | none =>
      simp only [hw] at h
      exact failed ⟨hr, .inl (accepted_eq_none.mp hw)⟩ (hnil ▸ h)
    | some n =>
    have hw1 : ans.write1 ≠ .failed := fun e => by simp [accepted_eq_none.mpr e] at hw
    have hfails : UploadWriteFails ans f → TakesHeader ans f ∧ signalOf ans f = sigContinue ∧
        toInt (toInt (rlen - f.packageRest) - fpdSize) > 0 ∧ ans.write2 = .failed := fun h => h.2.resolve_left hw1
    have first : ∀ more, FirstWrite ans f (bufSlice ans bs 0 n ++ more) := fun more =>
      ⟨n, more, by rw [Nat.min_eq_left (Nat.le_of_lt hp), hw], rfl⟩
    have first0 : FirstWrite ans f (bufSlice ans bs 0 n) := by simpa using first []
    have hw' : ans.write1.accepted (min f.packageRest (sizeT rlen)) = some n := by
      rw [Nat.min_eq_left (Nat.le_of_lt hp), hw]
    simp only [hw] at h
    by_cases h1 : rlen₁ = 0
    · rw [if_pos h1] at h
      cases h
      rw [show s = { s with state := .opUpload } by rw [← hst]]
      exact .stored rfl hf hr (fun h => (hfails h).1.2.1 h1) (fun h => (hcancel h).1.2.1 h1) first0
        (.inl rfl) (.refl _)
        (uploadOut_first hw' fun h => h.1.2.1 h1).symm
    rw [if_neg h1] at h
    by_cases h2 : f₁.rest = 0
    · rw [if_pos h2] at h
      exact fin (fun h => (hfails h).1.2.2 h2) (fun h => (hcancel h).1.2.2 h2) first0
        (uploadOut_first hw' fun h => h.1.2.2 h2).symm h
    rw [if_neg h2] at h
    have hh : TakesHeader ans f := ⟨hp, h1, h2⟩
    by_cases h3 : signal = sigContinue
    · rw [if_pos h3] at h
      have hnc : ¬ UploadCancelled ans f := fun h => by
        have := h3.symm.trans (hcancel h).2
        cases this
      by_cases h4 : rlen₂ > 0
      · rw [if_pos h4] at h
        split at h
        · rename_i hw2
          exact failed ⟨hr, .inr ⟨hh, h3, h4, accepted_eq_none.mp hw2⟩⟩ h
        · rename_i m hw2
          rw [World.append_append] at h
          refine fin (fun h => ?_) hnc (first _) (uploadOut_next hw' rfl hh h3 h4 hw2).symm h
          rw [accepted_eq_none.mpr (hfails h).2.2.2] at hw2
          cases hw2
      · rw [if_neg h4] at h
        exact fin (fun h => h4 (hfails h).2.2.1) hnc first0 (uploadOut_first hw' fun h => h4 h.2.2).symm h
    rw [if_neg h3] at h
    by_cases h4 : signal = sigCancel
    · rw [if_pos h4] at h
      obtain ⟨p, hp, rfl, rfl⟩ := uploadRemoved_ok hf h
      exact .removed hst hf hp (.inr ⟨hr, hw1, hh, h4⟩) (.inr ⟨hr, _, first0, rfl⟩)
    · rw [if_neg h4] at h
      exact fin (fun h => h3 (hfails h).2.1) (fun h => h4 (hcancel h).2) first0
        (uploadOut_first hw' fun h => h3 h.2.1).symm h
  · rw [if_neg hp] at h
    cases hw : ans.write1.accepted (sizeT rlen) with
    | none =>
      simp only [hw] at h
      exact failed ⟨hr, .inl (accepted_eq_none.mp hw)⟩ (hnil ▸ h)
    | some n =>
      simp only [hw] at h
      have hw1 : ans.write1 ≠ .failed := fun e => by simp [accepted_eq_none.mpr e] at hw
      exact fin (fun h => hp (h.2.resolve_left hw1).1.1) (fun h => hp (hcancel h).1.1)
        ⟨n, [], by rw [Nat.min_eq_right (Nat.le_of_not_lt hp), hw], by simp⟩
        (uploadOut_first (by rw [Nat.min_eq_right (Nat.le_of_not_lt hp), hw]) fun h => hp h.1.1).symm h

end

end BbsServer
