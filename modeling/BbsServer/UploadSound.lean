import Mathlib.Data.List.SplitLengths
import BbsServer.Outcome
import BbsServer.Lib.Cuts

/-!
# Upload: the package decoder

`file_upload` against the byte-at-a-time decoder of `Packages`. A read that is in
step does what the decoder does (`fileUpload_inStep`), so a run of such reads stores
the content (`uploadRun_inStep`); where one read is out of step, some content of the
same sizes is stored wrongly (`uploadRun_misaligned`).
-/

namespace BbsServer

open CStr Packages

def filePd : Format UInt8 where
  hdrLen := fpdSize
  size h := if leNat (h.take 4) = sigContinue then some (leNat ((h.drop 8).take 8)) else none
  hdrLen_pos := by decide

def fpdHeader (n : Nat) : Bytes := leBytes 4 sigContinue ++ leBytes 4 0 ++ leBytes 8 n

/-! ## The bytes of a read -/

section
variable {ans : Answers} {bs : Bytes}

theorem bufSlice_eq {off len : Nat} (h : off + len ≤ bs.length) :
    bufSlice ans bs off len = (bs.drop off).take len := by
  apply List.ext_getElem
  · simp [bufSlice]; omega
  · intro i h1 h2
    simp only [bufSlice, List.length_map, List.length_range] at h1
    simp [bufSlice, bufAt, List.getD_eq_getElem?_getD, show off + i < bs.length by omega]

theorem bufLE_eq {off len : Nat} (h : off + len ≤ bs.length) :
    bufLE ans bs off len = leNat ((bs.drop off).take len) := by
  rw [bufLE, bufSlice_eq h]

theorem sizeT_length (h : bs.length ≤ 1024) : sizeT (bs.length : Int) = bs.length :=
  sizeT_of_lt (by omega)

/-- `rlen > rest`, and `rlen = rest` then. -/
theorem toInt_min {a b : Nat} (h : a ≤ 1024) :
    (if a > b then toInt (b : Int) else (a : Int)) = ((min a b : Nat) : Int) := by
  split
  · rw [toInt_of_lt (by omega) (by omega)]; omega
  · omega

end

/-! ## One read

The two branches of `file_upload`, every write complete. -/

section
variable {ans : Answers} {w : World} {s : Session} {f : SFile} {bs : Bytes}
  (hf : s.file = some f) (hread : ans.read = some bs) (hlen : bs.length ≤ 1024) (hw1 : ans.write1 = .full)
include hf hread hlen hw1

/-- The read stays in the payload of the current package. -/
theorem fileUpload_payload (hne : bs ≠ []) (hp : bs.length ≤ f.packageRest) (hl : f.packageRest < 2 ^ 64) :
    fileUpload ans w s = uploadFin (w.uploaded s bs bs) s
      { f with rest := subSize f.rest bs.length, packageRest := f.packageRest - bs.length } := by
  have hpos : 0 < bs.length := List.length_pos_iff.mpr hne
  unfold fileUpload fileUploadWith
  simp only [hf, deref, ok_bind, hread, Option.getD_some, readLength, inBufSize, hw1, WriteAnswer.accepted,
    sizeT_length hlen]
  rw [if_neg (by omega), if_neg (by omega), if_neg (by omega), bufSlice_eq (by omega), List.drop_zero,
    List.take_of_length_le (Nat.le_refl _), subSize_of_le hl hp]
  rfl

variable (hp : f.packageRest < bs.length) (hr64 : f.rest < 2 ^ 64)
include hp hr64

/-- The content ends in the payload of the current package. -/
theorem fileUpload_end (hr : f.rest = f.packageRest) :
    fileUpload ans w s = uploadFin (w.uploaded s bs (bs.take f.packageRest)) s { f with rest := 0 } := by
  have hi : toInt ((bs.length : Int) - f.packageRest) = (bs.length : Int) - f.packageRest :=
    toInt_of_lt (by omega) (by omega)
  have h0 : subSize f.rest f.packageRest = 0 := by rw [hr, subSize_of_le (by omega) (Nat.le_refl _), Nat.sub_self]
  unfold fileUpload fileUploadWith
  simp only [hf, deref, ok_bind, hread, Option.getD_some, readLength, inBufSize, hw1, WriteAnswer.accepted,
    sizeT_length hlen, hi, h0]
  rw [if_neg (by omega), if_neg (by omega), if_pos hp, if_neg (by omega), if_pos trivial, bufSlice_eq (by omega),
    List.drop_zero]
  rfl

variable (hr : f.packageRest < f.rest) (hsig : bufLE ans bs f.packageRest 4 = sigContinue)
include hr hsig

/-- The next header ends the read or is cut by its end. -/
theorem fileUpload_header (hh : bs.length ≤ f.packageRest + fpdSize) :
    fileUpload ans w s = uploadFin (w.uploaded s bs (bs.take f.packageRest)) s
      { f with
        rest := f.rest - f.packageRest
        packageRest := sizeT (bufLE ans bs (f.packageRest + 8) 8 - (bs.length - f.packageRest - fpdSize : Int)) } := by
  have hi : toInt ((bs.length : Int) - f.packageRest) = (bs.length : Int) - f.packageRest :=
    toInt_of_lt (by omega) (by omega)
  have hi2 : toInt ((bs.length : Int) - f.packageRest - fpdSize) = (bs.length : Int) - f.packageRest - fpdSize :=
    toInt_of_lt (by unfold fpdSize; omega) (by unfold fpdSize; omega)
  have h0 : subSize f.rest f.packageRest = f.rest - f.packageRest := subSize_of_le hr64 (by omega)
  unfold fileUpload fileUploadWith
  simp only [hf, deref, ok_bind, hread, Option.getD_some, readLength, inBufSize, hw1, WriteAnswer.accepted,
    sizeT_length hlen, hi, h0, hi2, hsig]
  rw [if_neg (by omega), if_neg (by omega), if_pos hp, if_neg (by omega), if_neg (by omega), if_pos trivial,
    if_neg (by omega), bufSlice_eq (by omega), List.drop_zero]
  rfl

/-- The read goes on behind the next header. -/
theorem fileUpload_next (hw2 : ans.write2 = .full) (hh : f.packageRest + fpdSize < bs.length) {m : Nat}
    (hm : m = min (bs.length - (f.packageRest + fpdSize)) (f.rest - f.packageRest)) :
    fileUpload ans w s =
      uploadFin (w.uploaded s bs (bs.take f.packageRest ++ (bs.drop (f.packageRest + fpdSize)).take m)) s
        { f with
          rest := f.rest - f.packageRest - m
          packageRest := sizeT (bufLE ans bs (f.packageRest + 8) 8 - m) } := by
  have hi : toInt ((bs.length : Int) - f.packageRest) = (bs.length : Int) - f.packageRest :=
    toInt_of_lt (by omega) (by omega)
  have hi2 : toInt ((bs.length : Int) - f.packageRest - fpdSize) =
    ((bs.length - (f.packageRest + fpdSize) : Nat) : Int) := by
    rw [toInt_of_lt (by unfold fpdSize; omega) (by unfold fpdSize; omega)]; omega
  have h0 : subSize f.rest f.packageRest = f.rest - f.packageRest := subSize_of_le hr64 (by omega)
  have hlt : bs.length - (f.packageRest + fpdSize) < 2 ^ 64 := by omega
  have hne : f.rest - f.packageRest ≠ 0 := by omega
  have hm64 : m < 2 ^ 64 := by rw [hm]; exact Nat.lt_of_le_of_lt (Nat.min_le_left _ _) hlt
  have hmr : m ≤ f.rest - f.packageRest := by rw [hm]; exact Nat.min_le_right _ _
  have hmb : m ≤ bs.length - (f.packageRest + fpdSize) := by rw [hm]; exact Nat.min_le_left _ _
  have hi4 := toInt_min (a := bs.length - (f.packageRest + fpdSize)) (b := f.rest - f.packageRest) (by omega)
  rw [← hm] at hi4
  unfold fileUpload fileUploadWith
  simp only [hf, deref, ok_bind, hread, Option.getD_some, readLength, inBufSize, hw1, hw2, WriteAnswer.accepted,
    sizeT_length hlen, hi, h0, hi2, sizeT_of_lt hlt, hi4, sizeT_of_lt hm64, hsig]
  clear hi4 hm
  rw [if_neg (by omega), if_neg (by omega), if_pos hp, if_neg (by omega), if_neg hne, if_pos trivial,
    if_pos (by omega), bufSlice_eq (by omega), bufSlice_eq (by omega), List.drop_zero,
    World.append_append, subSize_of_le (by omega) (by omega)]
  rfl

end

/-! ## A read in step -/

theorem filePd_size {bs : Bytes} {left n : Nat} (h : left + fpdSize ≤ bs.length)
    (hn : filePd.size ((bs.drop left).take filePd.hdrLen) = some n) (ans : Answers) :
    bufLE ans bs left 4 = sigContinue ∧ bufLE ans bs (left + 8) 8 = n ∧ n < 2 ^ 64 := by
  have h16 : fpdSize = 16 := rfl
  simp only [filePd, h16, List.take_take, List.drop_take, List.drop_drop] at hn
  rw [bufLE_eq (by omega), bufLE_eq (by omega)]
  split at hn
  · rename_i hs
    have hb := leNat_lt ((bs.drop (left + 8)).take 8)
    have hl : ((bs.drop (left + 8)).take 8).length = 8 := by simp; omega
    rw [hl] at hb
    cases hn
    exact ⟨hs, rfl, hb⟩
  · cases hn

theorem fileUpload_inStep {ans : Answers} {w : World} {s : Session} {f : SFile} {bs : Bytes} {d : Dec UInt8}
    (hf : s.file = some f) (hread : ans.read = some bs) (hne : bs ≠ []) (hlen : bs.length ≤ 1024)
    (hw1 : ans.write1 = .full) (hw2 : ans.write2 = .full)
    (hr : f.rest = d.rest) (hl : f.packageRest = d.left) (hr64 : d.rest < 2 ^ 64) (hl64 : d.left < 2 ^ 64)
    (hd : d.hdr = []) (hin : InStep filePd d.rest d.left bs) :
    ∃ ext pr, fileUpload ans w s = uploadFin (w.uploaded s bs ext) s
        { f with rest := (feedAll filePd d bs).rest, packageRest := pr } ∧
      (feedAll filePd d bs).out = d.out ++ ext ∧
      ((feedAll filePd d bs).rest ≠ 0 → pr = (feedAll filePd d bs).left ∧ pr < 2 ^ 64 ∧
        (feedAll filePd d bs).hdr = []) := by
  rcases hin with ⟨h1, h2⟩ | ⟨h1, h2⟩ | ⟨h1, h2, n, hn, h3⟩
  · -- inside the payload
    refine ⟨bs, d.left - bs.length, ?_, ?_⟩
    · rw [fileUpload_payload hf hread hlen hw1 hne (by omega) (by omega), feedAll_payload filePd bs d h1 h2, hl,
        subSize_of_le (by omega) (by omega), hr]
    · rw [feedAll_payload filePd bs d h1 h2]
      exact ⟨rfl, fun _ => ⟨rfl, by omega, hd⟩⟩
  · -- the content ends in this payload
    have he := feedAll_end filePd (Nat.le_of_lt h1) h2
    refine ⟨bs.take d.left, f.packageRest, ?_, ?_⟩
    · rw [fileUpload_end hf hread hlen hw1 (by omega) (by omega) (by omega), he, hl]
    · rw [he]
      exact ⟨rfl, fun h => absurd rfl h⟩
  · -- the next header is complete
    obtain ⟨hsig, hsize, hn64⟩ := filePd_size h2 hn ans
    obtain ⟨e1, e2, e3, e4⟩ := feedAll_next filePd hd h1 h2 hn h3
    have h16 : filePd.hdrLen = fpdSize := rfl
    rw [h16] at e1 e2 e4 h3 h2
    generalize hm : min (bs.length - (d.left + fpdSize)) (d.rest - d.left) = m at e1 e2 e4 h3
    rw [← hl] at hsig hsize
    rw [e1, e2, e3, e4]
    refine ⟨bs.take d.left ++ (bs.drop (d.left + fpdSize)).take m, n - m, ?_, by rw [List.append_assoc],
      fun _ => ⟨rfl, by omega, rfl⟩⟩
    by_cases hgt : f.packageRest + fpdSize < bs.length
    · rw [fileUpload_next hf hread hlen hw1 (by omega) (by omega) (by omega) hsig hw2 hgt (by rw [hl, hr, hm]),
        hsize, hl, hr, show ((n : Int) - m) = ((n - m : Nat) : Int) by omega, sizeT_of_lt (by omega)]
    · obtain rfl : m = 0 := by omega
      rw [fileUpload_header hf hread hlen hw1 (by unfold fpdSize at h2; omega) (by omega) (by omega) hsig (by omega),
        hsize, hl, hr, show (n : Int) - (bs.length - d.left - fpdSize) = (n : Int) by omega, sizeT_of_lt hn64]
      simp

/-- A session that takes an upload into the file `p`, as far as the decoder is in `d`. -/
structure Receives (w : World) (s : Session) (f : SFile) (p : Bytes) (d : Dec UInt8) : Prop where
  state : s.state = .opUpload
  file : s.file = some f
  handle : s.fd.bind w.fds = some (.file p)
  disk : w.disk p = some d.out
  rest : f.rest = d.rest
  left : f.packageRest = d.left
  restLt : d.rest < 2 ^ 64
  leftLt : d.left < 2 ^ 64
  hdr : d.hdr = []
  pending : d.rest ≠ 0

structure Received (w : World) (s : Session) (p content : Bytes) : Prop where
  state : s.state = .opUploadDescription
  rest : ∃ f, s.file = some f ∧ f.rest = 0
  disk : w.disk p = some content

/-- **One read in step** does what the decoder does. -/
theorem Receives.step {ans : Answers} {w : World} {s : Session} {f : SFile} {p bs : Bytes} {d : Dec UInt8}
    (h : Receives w s f p d) (hread : ans.read = some bs) (hne : bs ≠ []) (hlen : bs.length ≤ inBufSize)
    (hw1 : ans.write1 = .full) (hw2 : ans.write2 = .full) (hin : InStep filePd d.rest d.left bs) :
    ∃ w' s', fileUpload ans w s = .ok (w', s') ∧
      if (feedAll filePd d bs).rest = 0 then Received w' s' p (feedAll filePd d bs).out
      else ∃ f', Receives w' s' f' p (feedAll filePd d bs) := by
  obtain ⟨ext, pr, he, hout, hnext⟩ := fileUpload_inStep (w := w) h.file hread hne hlen hw1 hw2 h.rest h.left h.restLt
    h.leftLt h.hdr hin
  have hdisk : (w.uploaded s bs ext).disk p = some (feedAll filePd d bs).out := by
    rw [World.uploaded_disk, if_pos h.handle, h.disk, hout]
    rfl
  rw [he]
  unfold uploadFin uploadFinWith
  by_cases h0 : (feedAll filePd d bs).rest = 0
  · simp only [h0, if_true]
    refine ⟨_, _, rfl, rfl, ⟨_, rfl, rfl⟩, hdisk⟩
  · obtain ⟨hpr, hpr64, hhdr⟩ := hnext h0
    simp only [h0, if_false]
    refine ⟨_, _, rfl, _, h.state, rfl, ?_, hdisk, rfl, hpr, ?_, hpr ▸ hpr64, hhdr, h0⟩
    · rw [World.uploaded_fds]; exact h.handle
    · exact Nat.lt_of_le_of_lt (feedAll_rest_le filePd bs d) h.restLt

/-! ## Runs of reads -/

def uploadRun : List Answers → World → Session → M (World × Session)
  | [], w, s => .ok (w, s)
  | ans :: answers, w, s =>
    if s.state = .opUpload then do
      let (w, s) ← fileUpload ans w s
      uploadRun answers w s
    else .ok (w, s)

theorem uploadRun_done {answers : List Answers} {w : World} {s : Session} (h : s.state ≠ .opUpload) :
    uploadRun answers w s = .ok (w, s) := by
  cases answers <;> simp [uploadRun, h]

structure Reads (answers : List Answers) (reads : List Bytes) : Prop where
  reads : answers.map Answers.read = reads.map some
  write1 : ∀ a ∈ answers, a.write1 = .full
  write2 : ∀ a ∈ answers, a.write2 = .full

/-- **A run of reads in step** stores what the decoder gives. -/
theorem uploadRun_inStep {p : Bytes} : ∀ {answers : List Answers} {reads : List Bytes} {w : World} {s : Session}
    {f : SFile} {d : Dec UInt8}, Receives w s f p d → Reads answers reads →
    (∀ bs ∈ reads, bs ≠ [] ∧ bs.length ≤ inBufSize) → InStepAll filePd d reads →
    (feedAll filePd d reads.flatten).rest = 0 →
    ∃ w' s', uploadRun answers w s = .ok (w', s') ∧ Received w' s' p (feedAll filePd d reads.flatten).out
  | [], reads, w, s, f, d, h, ha, _, _, h0 => by
    have : reads = [] := by simpa using ha.reads.symm
    subst this
    exact absurd h0 h.pending
  | ans :: answers, reads, w, s, f, d, h, ha, hb, hin, h0 => by
    cases reads with
    | nil => simpa using ha.reads
    | cons bs reads =>
    have hmap := ha.reads
    simp only [List.map_cons, List.cons.injEq] at hmap
    obtain ⟨hread, hreads⟩ := hmap
    obtain ⟨hne, hlen⟩ := hb bs (List.mem_cons_self ..)
    rcases hin with hz | ⟨hin, hall⟩
    · exact absurd hz h.pending
    obtain ⟨w₁, s₁, he, hnext⟩ := h.step hread hne hlen (ha.write1 _ (List.mem_cons_self ..))
      (ha.write2 _ (List.mem_cons_self ..)) hin
    simp only [uploadRun, h.state, if_true, he, ok_bind]
    rw [List.flatten_cons, feedAll_append] at h0 ⊢
    by_cases hz : (feedAll filePd d bs).rest = 0
    · rw [if_pos hz] at hnext
      rw [feedAll_done filePd _ _ hz, uploadRun_done (by rw [hnext.state]; decide)]
      exact ⟨w₁, s₁, rfl, hnext⟩
    · rw [if_neg hz] at hnext
      obtain ⟨f', hnext⟩ := hnext
      exact uploadRun_inStep hnext
        ⟨hreads, fun a h => ha.write1 a (List.mem_cons_of_mem _ h), fun a h => ha.write2 a (List.mem_cons_of_mem _ h)⟩
        (fun x hx => hb x (List.mem_cons_of_mem _ hx)) hall h0

/-! ## Reads out of step

A file that holds a byte other than `b` is not the content `b, b, ..`, and nothing that
`file_upload` does later repairs it. -/

def Spoilt (b : UInt8) (w : World) (p : Bytes) : Prop := ∀ c, w.disk p = some c → ∃ x ∈ c, x ≠ b

section
variable {ans : Answers} {w w' : World} {s s' : Session} {b : UInt8} {p : Bytes}

theorem spoilt_uploaded {bs out : Bytes} (h : Spoilt b w p) : Spoilt b (w.uploaded s bs out) p := by
  intro c hc
  rw [World.uploaded_disk] at hc
  split at hc
  · obtain ⟨c₀, h0, rfl⟩ := Option.map_eq_some_iff.mp hc
    obtain ⟨x, hx, hne⟩ := h c₀ h0
    exact ⟨x, List.mem_append_left _ hx, hne⟩
  · exact h c hc

theorem spoilt_talks (ht : Talks w w') (h : Spoilt b w p) : Spoilt b w' p := by
  intro c hc; rw [ht.disk] at hc; exact h c hc

theorem spoilt_removed {q : Bytes} (h : Spoilt b w p) : Spoilt b ((w.unlink q).closeFd s) p := by
  intro c hc
  rw [World.closeFd_disk, World.unlink_disk] at hc
  split at hc
  · cases hc
  · exact h c hc

theorem fileUpload_spoilt (hst : s.state = .opUpload) (h : fileUpload ans w s = .ok (w', s')) (hs : Spoilt b w p) :
    Spoilt b w' p := by
  have hd : Did default ans w s none w' s' := fileUpload_did hst h
  cases hd with
  | ended => exact hs
  | removed _ _ _ _ hw =>
    rcases hw with ⟨-, rfl⟩ | ⟨-, out, -, rfl⟩
    · exact spoilt_removed hs
    · exact spoilt_removed (spoilt_uploaded hs)
  | writeFailed _ _ _ _ ht =>
    refine spoilt_removed fun c hc => ?_
    rw [World.closeFd_disk] at hc
    exact spoilt_talks ht (spoilt_uploaded hs) c hc
  | stored _ _ _ _ _ _ _ ht => exact spoilt_talks ht (spoilt_uploaded hs)
  | _ => simp_all

theorem uploadRun_spoilt : ∀ {answers : List Answers} {w : World} {s : Session}, Spoilt b w p →
    uploadRun answers w s = .ok (w', s') → Spoilt b w' p
  | [], _, _, hs, h => by cases h; exact hs
  | ans :: answers, w, s, hs, h => by
    unfold uploadRun at h
    split at h
    · rename_i hst
      obtain ⟨⟨w₁, s₁⟩, h1, h2⟩ := bind_ok.mp h
      exact uploadRun_spoilt (fileUpload_spoilt hst h1 hs) h2
    · cases h; exact hs

/-- A wrong first byte of a read that goes to the file spoils it. -/
theorem fileUpload_first {f : SFile} {x : UInt8} {t : Bytes} (hst : s.state = .opUpload) (hf : s.file = some f)
    (hh : s.fd.bind w.fds = some (.file p)) (hread : ans.read = some (x :: t)) (hlen : (x :: t).length ≤ 1024)
    (hw1 : ans.write1 = .full) (hw2 : ans.write2 = .full) (hp : f.packageRest ≠ 0) (hx : x ≠ b)
    (h : fileUpload ans w s = .ok (w', s')) : Spoilt b w' p := by
  have hout : ∀ {out}, FirstWrite ans f out → Spoilt b (w.uploaded s (ans.read.getD []) out) p := by
    rintro out ⟨n, more, hn, rfl⟩ c hc
    rw [World.uploaded_disk, if_pos hh] at hc
    obtain ⟨c₀, -, rfl⟩ := Option.map_eq_some_iff.mp hc
    rw [hw1, hread, readLength, sizeT_length hlen] at hn
    obtain rfl : min f.packageRest (x :: t).length = n := by simpa [WriteAnswer.accepted] using hn
    refine ⟨x, ?_, hx⟩
    rw [hread, Option.getD_some, bufSlice_eq (by omega), List.drop_zero]
    obtain ⟨k, hk⟩ : ∃ k, min f.packageRest (x :: t).length = k + 1 :=
      ⟨min f.packageRest (x :: t).length - 1, by simp only [List.length_cons]; omega⟩
    rw [hk]
    simp
  have hd : Did default ans w s none w' s' := fileUpload_did hst h
  cases hd with
  | ended _ _ hr => rw [hread] at hr; cases hr
  | removed _ hf' _ _ hw =>
    rw [hf] at hf'
    cases hf'
    rcases hw with ⟨hr, -⟩ | ⟨-, out, ho, rfl⟩
    · rw [hread] at hr; cases hr
    · exact spoilt_removed (hout ho)
  | writeFailed _ _ _ hw => simp [UploadWriteFails, hw1, hw2] at hw
  | stored _ hf' _ _ _ ho _ ht =>
    rw [hf] at hf'
    cases hf'
    exact spoilt_talks ht (hout ho)
  | _ => simp_all

end

def plain (bs : Bytes) : Answers := { read := some bs }

def samplePackage (b : UInt8) (n : Nat) : Package UInt8 := ⟨fpdHeader n, List.replicate n b⟩

theorem length_fpdHeader (n : Nat) : (fpdHeader n).length = fpdSize := by
  simp [fpdHeader, fpdSize]

theorem samplePackage_ok (b : UInt8) {n : Nat} (h : n < 2 ^ 64) : (samplePackage b n).Ok filePd := by
  refine ⟨length_fpdHeader n, ?_⟩
  have h4 : (fpdHeader n).take 4 = leBytes 4 sigContinue := by simp [fpdHeader, leBytes]
  have h8 : ((fpdHeader n).drop 8).take 8 = leBytes 8 n := by simp [fpdHeader, leBytes]
  simp only [filePd, samplePackage, h4, h8, List.length_replicate]
  rw [leNat_leBytes (show n < 256 ^ 8 by omega), if_pos (leNat_leBytes (by decide))]

@[simp] theorem sizesOf_sample (b : UInt8) (sizes : List Nat) : sizesOf (sizes.map (samplePackage b)) = sizes := by
  simp [sizesOf, samplePackage, Function.comp_def]

section
variable {w w' : World} {s s' : Session} {f : SFile} {p pay bs r : Bytes} {d : Dec UInt8} {b : UInt8}

theorem over_spoilt {q q' : Package UInt8} {ps : List (Package UInt8)} {t : Bytes} (h : Receives w s f p d)
    (hat : At filePd d pay (q :: q' :: ps) (bs ++ r)) (hlen : bs.length ≤ 1024)
    (hh : pay.length + fpdSize ≤ bs.length) (hn : q.payload.length < bs.length - (pay.length + fpdSize))
    (hz : (sizesOf (q' :: ps)).sum ≠ 0) (hq : q'.hdr = 0 :: t) (hb : b ≠ 0)
    (hx : fileUpload (plain bs) w s = .ok (w', s')) : Spoilt b w' p := by
  have hl := hat.left
  have hr := hat.rest
  have hfl := h.left
  have hfr := h.rest
  rw [sum_sizesOf_cons] at hr
  obtain ⟨hsize, hs⟩ := hat.header hh
  rw [← hl] at hn hh hr
  obtain ⟨hsig, -⟩ := filePd_size hh hsize (plain bs)
  rw [← hfl] at hsig
  have hres := h.restLt
  generalize hm : min (bs.length - (f.packageRest + fpdSize)) (f.rest - f.packageRest) = m
  have hnm : q.payload.length < m := by omega
  rw [fileUpload_next h.file rfl hlen rfl (by omega) (by omega) (by omega) hsig rfl (by omega) hm.symm] at hx
  obtain ⟨st, -, ht, -⟩ := uploadFin_ok h.state hx
  refine spoilt_talks ht fun c hc => ?_
  rw [World.uploaded_disk, if_pos h.handle, h.disk] at hc
  cases hc
  -- the byte after the payload is the first of the next header
  have h0 : (bs.drop (f.packageRest + fpdSize))[q.payload.length]? = some 0 := by
    have := congrArg (fun l => l[q.payload.length]?) hs
    rw [show filePd.hdrLen = fpdSize from rfl, ← hfl] at this
    simp only [encode_cons, hq] at this
    rwa [List.getElem?_append_left (by rw [List.length_drop]; omega), List.getElem?_append_right (Nat.le_refl _),
      Nat.sub_self] at this
  refine ⟨0, ?_, hb.symm⟩
  apply List.mem_append_right
  apply List.mem_append_right
  exact List.mem_of_getElem? (i := q.payload.length) (by rw [List.getElem?_take, if_pos hnm, h0])

theorem bufSlice_plain (bs : Bytes) (left off len : Nat) : bufSlice (plain bs) bs (left + off) len =
    (List.range len).map fun k => ((bs.drop left)[off + k]?).getD 0 := by
  simp [bufSlice, bufAt, plain, List.getD_eq_getElem?_getD, Nat.add_assoc]

/-- A header cut by the end of a read: the missing bytes are taken for payload. -/
theorem fileUpload_cut {n k : Nat} (h : Receives w s f p d) (hb : bs.drop d.left = (fpdHeader n).take k)
    (hk : bs.length = d.left + k) (hk0 : 0 < k) (hk1 : k < fpdSize) (hlen : bs.length ≤ 1024) (hr : d.left < d.rest)
    (hx : fileUpload (plain bs) w s = .ok (w', s')) :
    ∃ f', s' = { s with file := some f' } ∧ f'.packageRest ≠ 0 ∧ w'.fds = w.fds := by
  have hfl := h.left
  have hfr := h.rest
  have hres := h.restLt
  have h16 : fpdSize = 16 := rfl
  rw [← hfl] at hb hk
  have hsig : bufLE (plain bs) bs f.packageRest 4 = sigContinue := by
    have := bufSlice_plain bs f.packageRest 0 4
    rw [Nat.add_zero, hb] at this
    rw [bufLE, this]
    obtain rfl | rfl | rfl | hk4 : k = 1 ∨ k = 2 ∨ k = 3 ∨ 4 ≤ k := by omega
    · rfl
    · rfl
    · rfl
    · obtain ⟨j, rfl⟩ : ∃ j, k = j + 4 := ⟨k - 4, by omega⟩
      rfl
  have hsize : bufLE (plain bs) bs (f.packageRest + 8) 8 < 256 ^ 7 := by
    have hs := bufSlice_plain bs f.packageRest 8 8
    -- the last byte of the size is not there
    have hz : ((bs.drop f.packageRest)[8 + 7]?).getD 0 = 0 := by
      rw [List.getElem?_eq_none (by rw [List.length_drop]; omega)]
      rfl
    rw [bufLE, hs, List.range_succ, List.map_append, List.map_singleton, hz, leNat_append_zero]
    exact Nat.lt_of_lt_of_le (leNat_lt _) (by simp)
  generalize hsz : bufLE (plain bs) bs (f.packageRest + 8) 8 = size at hsize
  rw [fileUpload_header h.file rfl hlen rfl (by omega) (by omega) (by omega) hsig (by omega), hsz,
    show ((size : Int) - (bs.length - f.packageRest - fpdSize : Int)) = ((size + 16 - k : Nat) : Int) by omega,
    sizeT_of_lt (by omega)] at hx
  unfold uploadFin uploadFinWith at hx
  rw [if_neg (by simp only; omega)] at hx
  cases hx
  exact ⟨_, rfl, by simp only; omega, World.uploaded_fds ..⟩

end

/-- Reads of the lengths `cuts` spoil the content that is `b` all over. -/
def Misread (b : UInt8) (left : Nat) (sizes cuts : List Nat) : Prop :=
  ∀ {w w' : World} {s s' : Session} {f : SFile} {p : Bytes} {d : Dec UInt8} {reads : List Bytes}, Receives w s f p d →
    At filePd d (List.replicate left b) (sizes.map (samplePackage b)) reads.flatten → reads.map List.length = cuts →
    uploadRun (reads.map plain) w s = .ok (w', s') → Spoilt b w' p

theorem Misread.cons {b : UInt8} {left left' c : Nat} {sizes sizes' cuts : List Nat} (hc : 0 < c ∧ c ≤ inBufSize)
    (hnext : ∀ {d : Dec UInt8} {bs r : Bytes},
      At filePd d (List.replicate left b) (sizes.map (samplePackage b)) (bs ++ r) → bs.length = c →
      InStep filePd d.rest d.left bs ∧
        At filePd (feedAll filePd d bs) (List.replicate left' b) (sizes'.map (samplePackage b)) r)
    (hne : left' + sizes'.sum ≠ 0) (h : Misread b left' sizes' cuts) : Misread b left sizes (c :: cuts) := by
  intro w w' s s' f p d reads hrec hat hl hx
  obtain ⟨bs, reads, rfl, hbs, hl⟩ := List.map_eq_cons_iff.mp hl
  rw [List.flatten_cons] at hat
  obtain ⟨hin, hat⟩ := hnext hat hbs
  obtain ⟨w₁, s₁, he, hrec⟩ := hrec.step
      (show (plain bs).read = some bs from rfl) (by rintro rfl; simp at hbs; omega) (by omega) rfl rfl hin
  have hrest := hat.rest
  rw [List.length_replicate, sizesOf_sample] at hrest
  rw [if_neg (by omega)] at hrec
  obtain ⟨f', hrec⟩ := hrec
  rw [List.map_cons, uploadRun, if_pos ‹Receives w s f p d›.state, he, ok_bind] at hx
  exact h hrec hat hl hx

theorem misread_over {left c n n' : Nat} {sizes cuts : List Nat} (hc : c ≤ inBufSize) (hh : left + fpdSize ≤ c)
    (hn : n < c - (left + fpdSize)) (hz : (n' :: sizes).sum ≠ 0) : Misread 1 left (n :: n' :: sizes) (c :: cuts) := by
  intro w w' s s' f p d reads h hat hl hx
  obtain ⟨bs, reads, rfl, hbs, hl⟩ := List.map_eq_cons_iff.mp hl
  rw [List.map_cons, uploadRun, if_pos h.state] at hx
  obtain ⟨⟨w₁, s₁⟩, h1, hx⟩ := bind_ok.mp hx
  refine uploadRun_spoilt (over_spoilt h hat (by rw [hbs]; exact hc) ?_ ?_ ?_ rfl (by decide) h1) hx
  · rw [List.length_replicate, hbs]; exact hh
  · rw [List.length_replicate, hbs]; simpa [samplePackage] using hn
  · rw [← List.map_cons, sizesOf_sample]; exact hz

theorem misread_cut {left k n c : Nat} {sizes cuts : List Nat} {b : UInt8} (hk0 : 0 < k) (hk : k < fpdSize)
    (hc : left + k ≤ inBufSize) (hc' : 0 < c ∧ c ≤ inBufSize) (hz : (n :: sizes).sum ≠ 0)
    (hb : (fpdHeader n)[k]? ≠ some b) : Misread b left (n :: sizes) ((left + k) :: c :: cuts) := by
  intro w w' s s' f p d reads h hat hl hx
  obtain ⟨bs, reads, rfl, hbs, hl⟩ := List.map_eq_cons_iff.mp hl
  obtain ⟨bs₁, reads, rfl, hbs₁, -⟩ := List.map_eq_cons_iff.mp hl
  have hdl := hat.left
  have hdr := hat.rest
  rw [List.length_replicate] at hdl
  rw [List.length_replicate, sizesOf_sample] at hdr
  have hstream := hat.stream_eq
  rw [List.flatten_cons, List.map_cons, encode_cons] at hstream
  obtain ⟨-, hs1⟩ := cut_long hstream (by rw [List.length_replicate]; omega)
  rw [List.length_replicate, ← hdl] at hs1
  change _ = fpdHeader n ++ _ at hs1
  have hlen : (bs.drop d.left).length = k := by rw [List.length_drop]; omega
  have hle : k ≤ (fpdHeader n).length := by rw [length_fpdHeader]; omega
  have hdrop : bs.drop d.left = (fpdHeader n).take k := by
    have := congrArg (List.take k) hs1
    rwa [← hlen, List.take_left, hlen, List.take_append_of_le_length hle] at this
  have hs2 := cut_short hs1 (by rw [hlen]; exact hle)
  rw [hlen, List.flatten_cons] at hs2
  -- the first byte of the second read is the next of the header
  cases bs₁ with
  | nil => simp at hbs₁; omega
  | cons x t =>
  have hx1 : (fpdHeader n)[k]? = some x := by
    have := congrArg (fun l => l[0]?) hs2
    simp only [List.cons_append, List.getElem?_cons_zero] at this
    rw [List.getElem?_append_left (by rw [List.length_drop, length_fpdHeader]; omega), List.getElem?_drop,
      Nat.add_zero] at this
    exact this.symm
  rw [List.map_cons, List.map_cons, uploadRun, if_pos h.state] at hx
  obtain ⟨⟨w₁, s₁⟩, h1, hx⟩ := bind_ok.mp hx
  obtain ⟨f₁, rfl, hpr, hfds⟩ := fileUpload_cut h hdrop (by omega) hk0 hk (by rw [hbs]; exact hc) (by omega) h1
  dsimp only at hx
  rw [uploadRun, if_pos h.state] at hx
  obtain ⟨⟨w₂, s₂⟩, h2, hx⟩ := bind_ok.mp hx
  have hfirst : Spoilt b w₂ p := 
    fileUpload_first (s := { s with file := some f₁ }) h.state rfl (by rw [hfds]; exact h.handle) rfl
      (by rw [hbs₁]; exact hc'.2) rfl rfl hpr (fun e => hb (by rw [hx1, e])) h2
  exact uploadRun_spoilt hfirst hx

/-- **Reads out of step.** Where the reads are not aligned there is a content of the same
package sizes that is not what the file holds in the end. -/
theorem uploadRun_misaligned : ∀ {cuts : List Nat} {left : Nat} {sizes : List Nat},
    (∀ c ∈ cuts, 0 < c ∧ c ≤ inBufSize) →
    cuts.sum = left + sizes.sum + fpdSize * sizes.length → alignedCuts fpdSize left sizes cuts = false →
    ∃ b, Misread b left sizes cuts
  | [], _, _, _, _, ha => by simp [alignedCuts] at ha
  | c :: cuts, left, sizes, hcuts, hsum, ha => by
    have hc := hcuts c (List.mem_cons_self ..)
    have hcuts' := fun x hx => hcuts x (List.mem_cons_of_mem _ hx)
    rw [List.sum_cons] at hsum
    simp only [alignedCuts] at ha
    by_cases hcl : c ≤ left
    · rw [if_pos hcl] at ha
      obtain ⟨b, hb⟩ := uploadRun_misaligned hcuts' (by omega) ha
      refine ⟨b, hb.cons hc (fun {d bs r} hat hbs => ?_) fun hz => ?_⟩
      · have := hat.within (by rw [List.length_replicate]; omega)
        rwa [List.drop_replicate, hbs] at this
      · rw [show left - c = 0 by omega, alignedCuts_done _ (by omega)] at ha
        cases ha
    rw [if_neg hcl] at ha
    by_cases hz : sizes.sum = 0
    · rw [if_pos hz] at ha; cases ha
    rw [if_neg hz] at ha
    cases sizes with
    | nil => exact absurd rfl hz
    | cons n sizes =>
    simp only [List.length_cons, List.sum_cons, Nat.mul_add, Nat.mul_one] at hsum
    have h16 : filePd.hdrLen = fpdSize := rfl
    by_cases hh : left + fpdSize ≤ c
    · simp only [hh, decide_true, Bool.true_and] at ha
      by_cases hn : c - (left + fpdSize) ≤ n
      · rw [if_pos hn] at ha
        obtain ⟨b, hb⟩ := uploadRun_misaligned hcuts' (by omega) ha
        refine ⟨b, hb.cons hc (fun {d bs r} hat hbs => ?_) fun hz' => ?_⟩
        · have := At.next (q := samplePackage b n) hat (by rw [← List.map_cons, sizesOf_sample]; exact hz)
            (by rw [List.length_replicate, hbs]; exact hh)
            (by simp only [samplePackage, List.length_replicate, hbs]; exact hn)
          rw [h16] at this
          simpa [samplePackage, hbs, List.drop_replicate] using this
        · rw [show n - (c - (left + fpdSize)) = 0 by omega, alignedCuts_done _ (by omega)] at ha
          cases ha
      · rw [if_neg hn, beq_eq_false_iff_ne] at ha
        cases sizes with
        | nil => exact absurd rfl ha
        | cons n' sizes => exact ⟨1, misread_over hc.2 hh (by omega) ha⟩
    · obtain ⟨k, rfl⟩ : ∃ k, c = left + k := ⟨c - left, by omega⟩
      cases cuts with
      | nil => simp at hsum; omega
      | cons c' cuts =>
      obtain ⟨b, hb⟩ : ∃ b : UInt8, (fpdHeader n)[k]? ≠ some b := by
        by_cases h1 : (fpdHeader n)[k]? = some 1
        · exact ⟨2, by rw [h1]; decide⟩
        · exact ⟨1, h1⟩
      exact ⟨b, misread_cut (by omega) (by omega) hc.2 (hcuts' c' (List.mem_cons_self ..)) hz hb⟩

/-! ## From the command on -/

theorem receives_of_prepare {ans : Answers} {w₀ w : World} {s₀ s : Session} {f : SFile} {line : Bytes}
    (hst : s₀.state = .opWait) (h : fileReceivePrepare ans w₀ s₀ line = .ok (0, w, s)) (hf : s.file = some f)
    (hpos : f.size ≠ 0) : ∃ p, f.path = some p ∧ Receives w { s with state := .opUpload } f p (.start f.size) := by
  have hd : Did default ans w₀ s₀ none w { s with state := .opUpload } :=
    fileReceivePrepare_did hst (fun _ he => by cases he) h
  generalize hs : ({ s with state := .opUpload } : Session) = s' at hd
  have hst' : s'.state = .opUpload := by rw [← hs]
  have hf' : s'.file = some f := by rw [← hs]; exact hf
  cases hd with
  | accepted _ _ hsize hc ht =>
    cases hf'
    obtain ⟨-, rfl⟩ := World.create_ok hc
    refine ⟨_, rfl, rfl, rfl, ?_, ?_, rfl, rfl, hsize, Nat.two_pow_pos 64, rfl, hpos⟩
    · simp [ht.fds]
    · simp [ht.disk, Dec.start]
  | _ => simp_all [Session.cleared]

/-- Every content sent in packages of these sizes and read in pieces of these lengths
ends up in the file of the upload. -/
def UploadDelivers (w : World) (s : Session) (f : SFile) (sizes cuts : List Nat) : Prop :=
  ∀ (pkgs : List (Package UInt8)) (answers : List Answers) (reads : List Bytes), (∀ p ∈ pkgs, p.Ok filePd) →
    sizesOf pkgs = sizes → Reads answers reads → reads.map List.length = cuts → reads.flatten = encode pkgs →
    ∃ w' s' p, uploadRun answers w s = .ok (w', s') ∧ f.path = some p ∧ Received w' s' p (content pkgs)

section
variable {ans : Answers} {w₀ w : World} {s₀ s : Session} {f : SFile} {line : Bytes} {sizes cuts : List Nat}

/-- **Uploads.** A way to cut the packages into reads delivers every content exactly if
the reads are aligned. -/
theorem upload_delivers_iff (hst : s₀.state = .opWait) (h : fileReceivePrepare ans w₀ s₀ line = .ok (0, w, s))
    (hf : s.file = some f) (hsize : f.size = sizes.sum) (hpos : 0 < sizes.sum)
    (hcuts : ∀ c ∈ cuts, 0 < c ∧ c ≤ inBufSize) (hsum : cuts.sum = sizes.sum + fpdSize * sizes.length) :
    UploadDelivers w { s with state := .opUpload } f sizes cuts ↔ alignedCuts fpdSize 0 sizes cuts = true := by
  obtain ⟨p, hp, hrec⟩ := receives_of_prepare hst h hf (by omega)
  constructor
  · intro hdel
    by_contra ha
    obtain ⟨b, hb⟩ := uploadRun_misaligned hcuts (by omega) (Bool.eq_false_iff.mpr ha)
    -- content `b` all over, sent in packages of the same sizes
    let pkgs := sizes.map (samplePackage b)
    have hsz : sizesOf pkgs = sizes := sizesOf_sample b sizes
    have hok : ∀ q ∈ pkgs, q.Ok filePd := by
      intro q hq
      obtain ⟨n, hn, rfl⟩ := List.mem_map.mp hq
      have := hrec.restLt
      exact samplePackage_ok b (Nat.lt_of_le_of_lt (le_sum_of_mem hn) (hsize ▸ this))
    have hstream : (encode pkgs).length = cuts.sum := by
      rw [length_encode hok, length_content, hsum]
      change (sizesOf pkgs).sum + fpdSize * pkgs.length = _
      rw [hsz, show pkgs.length = sizes.length from List.length_map ..]
    let reads := cuts.splitLengths (encode pkgs)
    have hflat : reads.flatten = encode pkgs := List.flatten_splitLengths _ _ (Nat.le_of_eq hstream)
    have hlen : reads.map List.length = cuts := List.map_splitLengths_length _ _ (Nat.le_of_eq hstream.symm)
    have hreads : Reads (reads.map plain) reads :=
      ⟨by simp [plain, Function.comp_def], by simp [plain], by simp [plain]⟩
    obtain ⟨w', s', p', hrun, hp', hres⟩ := hdel pkgs _ reads hok hsz hreads hlen hflat
    have hat : At filePd (.start f.size) (List.replicate 0 b) pkgs reads.flatten :=
      ⟨hok, rfl, rfl, by rw [hsz, ← hsize]; exact (Nat.zero_add _).symm, hflat⟩
    obtain rfl : p = p' := Option.some.inj (hp.symm.trans hp')
    obtain ⟨x, hx, hne⟩ := hb hrec hat hlen hrun _ hres.disk
    refine hne ?_
    simp only [content, List.mem_flatMap, pkgs, List.mem_map] at hx
    obtain ⟨q, ⟨n, -, rfl⟩, hx⟩ := hx
    exact List.eq_of_mem_replicate hx
  · intro ha pkgs answers reads hok hsz hreads hlen hflat
    have hat : At filePd (.start f.size) [] pkgs reads.flatten :=
      ⟨hok, rfl, rfl, by rw [hsz, ← hsize]; exact (Nat.zero_add _).symm, hflat⟩
    have hall := inStepAll_of_aligned hat (by rw [hsz, hlen]; exact ha)
    obtain ⟨h0, hout⟩ := feedAll_encode filePd pkgs [] (.start f.size) hok rfl rfl
      (by rw [length_content]; change f.size = 0 + (sizesOf pkgs).sum; rw [hsz, hsize, Nat.zero_add])
    rw [List.nil_append, ← hflat] at h0 hout
    have hb : ∀ bs ∈ reads, bs ≠ [] ∧ bs.length ≤ inBufSize := by
      intro bs hbs
      obtain ⟨h1, h2⟩ := hcuts bs.length (by rw [← hlen]; exact List.mem_map_of_mem hbs)
      exact ⟨List.length_pos_iff.mp h1, h2⟩
    obtain ⟨w', s', hrun, hres⟩ := uploadRun_inStep hrec hreads hb hall h0
    rw [hout] at hres
    exact ⟨w', s', p, hrun, hp, hres⟩

end

/-! ### Two bytes

`file upload "a" 2 0` on an empty server. -/

def twoBytes : M (Int × World × Session) :=
  fileReceivePrepare { availableSpace := 2, probes := [{ opened := .fd 5 }] } (.start (fun _ => none) .empty .empty)
    (.waiting 4 (ascii "anonymous") 0) (ascii "file upload \"a\" 2 0\n")

theorem twoBytes_ok : ∃ w s f, twoBytes = .ok (0, w, s) ∧ s.file = some f ∧ f.size = 2 := by
  have h : twoBytes.toOption.map (fun r => (r.1, r.2.2.file.map (·.size))) = some (0, some 2) := by decide +kernel
  cases ht : twoBytes with
  | error e => rw [ht] at h; cases h
  | ok r =>
    obtain ⟨ret, w, s⟩ := r
    rw [ht] at h
    simp only [Except.toOption, Option.map_some, Option.some.injEq, Prod.mk.injEq, Option.map_eq_some_iff] at h
    obtain ⟨rfl, f, hf, hsize⟩ := h
    exact ⟨w, s, f, rfl, hf, hsize⟩

/-- What the file holds when `a` and `b` come in two packages in one read. -/
theorem twoBytes_oneRead : (do
    let (_, w, s) ← twoBytes
    let (w', _) ← uploadRun [plain (encode [samplePackage 97 1, samplePackage 98 1])] w { s with state := .opUpload }
    .ok (w'.disk ((s.file.bind (·.path)).getD [])) : M (Option Bytes)).toOption = some (some [97, 0]) := by
  decide +kernel

theorem upload_two_packages_one_read : ∃ w s f, twoBytes = .ok (0, w, s) ∧ s.file = some f ∧ f.size = [1, 1].sum ∧
    ¬ UploadDelivers w { s with state := .opUpload } f [1, 1] [34] := by
  obtain ⟨w, s, f, h, hf, hsize⟩ := twoBytes_ok
  refine ⟨w, s, f, h, hf, hsize, fun hdel => ?_⟩
  let pkgs := [samplePackage 97 1, samplePackage 98 1]
  obtain ⟨w', s', p, hrun, hp, hres⟩ := hdel pkgs [plain (encode pkgs)] [encode pkgs]
    (by simp only [pkgs, List.mem_cons, List.not_mem_nil, or_false]
        rintro q (rfl | rfl) <;> exact samplePackage_ok _ (by decide))
    rfl ⟨rfl, by simp [plain], by simp [plain]⟩ rfl (List.append_nil _)
  have hbad := twoBytes_oneRead
  rw [h, ok_bind] at hbad
  dsimp only at hbad
  rw [hrun, ok_bind, hf] at hbad
  simp only [Option.bind_some, hp, Option.getD_some, hres.disk, Except.toOption] at hbad
  exact absurd hbad (by decide)

/-- Each package comes in a read of its own. -/
theorem upload_delivers_iff_two_packages : ∃ w s f, twoBytes = .ok (0, w, s) ∧
    UploadDelivers w { s with state := .opUpload } f [1, 1] [17, 17] := by
  obtain ⟨w, s, f, h, hf, hsize⟩ := twoBytes_ok
  have hprep := h
  unfold twoBytes at hprep
  have hsum : f.size = [1, 1].sum := hsize
  exact ⟨w, s, f, h, (upload_delivers_iff rfl hprep hf hsum (by decide) (by decide) rfl).mpr (by decide)⟩

/-! ### An anonymous upload -/

def anonymousUpload : List Event :=
  [.accept 4 0 0, .ready 4 { read := some (ascii "anonymous") },
    .ready 4 { read := some (ascii "file upload \"a\" 1 0\n"), availableSpace := 1, probes := [{ opened := .fd 5 }] },
    .ready 4 { read := some (fpdHeader 1 ++ ascii "x") }]

def anonymousEnd : Answers := { read := some (ascii "text:END:\n"), insert := some 1 }

end BbsServer
