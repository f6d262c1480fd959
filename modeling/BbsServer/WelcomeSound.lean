import BbsServer.Lib.Block
import BbsServer.Session

/-!
# The welcome message

`get_welcome_mes` in the pages that `mmap` maps. The byte behind the file is stored, and a NUL behind that is
there, unless the file ends at the end of a page or one byte before it, or its size is no `int` (`welcome_iff`).
-/

namespace BbsServer

open CStr

def pageSize : Nat := 4096

def pages (n : Nat) : Nat := (n + pageSize - 1) / pageSize

def zeroFilled (file : Bytes) (n : Nat) : Bytes := (file ++ List.replicate n 0).take n

def mmap (file : Bytes) (length : Nat) : Option Bytes :=
  if length = 0 ∨ 2 ^ 63 ≤ length then none
  else some (zeroFilled file (pageSize * min (pages length) (pages file.length)))

inductive WelcomeMes
  | exit (status : Nat)
  | fault
  | message (mem : Bytes)
  deriving DecidableEq

def fileSize (file : Bytes) : Int := toInt (file.length + 1)

def putMark (filesize : Int) : Option Bytes → WelcomeMes
  | none => .exit 5
  | some mem =>
    match Block.store mem (filesize - 1) 4 with
    | none => .fault
    | some mem => .message mem

def getWelcomeMes (file : Bytes) : WelcomeMes := putMark (fileSize file) (mmap file (sizeT (fileSize file)))

/-- `make_new_session` for the message in `mem`; a string that does not end in it is read on outside. -/
def makeNewSessionOf (mem : Bytes) (w : World) (sd : Nat) (uid privileges : Int) : M (World × Session) := do
  let s : Session :=
    { buf := [], state := .opLoginUsr, reason := .noReason, privileges, uname := none, uid, fd := none, sd, file := none }
  let wm ← deref (Block.gets mem)
  let w ← sessionSendString w s (wm ++ ascii "login> ")
  .ok (w, s)

/-- The message is the file and `'\x04'`, with a NUL in the memory that can be accessed. -/
def WelcomeProper (file : Bytes) : Prop :=
  ∃ mem, getWelcomeMes file = .message mem ∧ Block.gets mem = some (file ++ [4])

section
variable {file m m' mem : Bytes} {n : Nat}

theorem makeNewSession_proper {P : Platform} {w : World} {sd : Nat} {uid privileges : Int}
    (h : Block.gets mem = some (file ++ [4])) : makeNewSessionOf mem w sd uid privileges =
      makeNewSession { P with welcome := file ++ [4] } w sd uid privileges := by
  rw [makeNewSessionOf, h]
  rfl

theorem gets_store {i : Int} (h0 : 0 ∉ m) (h : Block.store m i 4 = some m') : Block.gets m' = none := by
  unfold Block.store at h
  split at h
  · cases h
    refine if_neg fun hm => ?_
    rcases List.mem_or_eq_of_mem_set hm with hm | hm
    · exact h0 hm
    · cases hm
  · cases h

theorem nul_not_mem_mmap {length : Nat} (h0 : 0 ∉ file) (h : mmap file length = some mem)
    (hle : pageSize * min (pages length) (pages file.length) ≤ file.length) : 0 ∉ mem := by
  unfold mmap at h
  split at h
  · cases h
  · cases h
    rw [zeroFilled, List.take_append_of_le_length hle]
    exact fun h => h0 (List.mem_of_mem_take h)

theorem putMark_message {filesize : Int} {mapped : Option Bytes} (h : putMark filesize mapped = .message mem) :
    ∃ m, mapped = some m ∧ Block.store m (filesize - 1) 4 = some mem := by
  unfold putMark at h
  split at h
  · cases h
  · split at h
    · cases h
    · rename_i hs
      cases h
      exact ⟨_, rfl, hs⟩

theorem not_proper_of_le (h0 : 0 ∉ file)
    (hle : pageSize * min (pages (sizeT (fileSize file))) (pages file.length) ≤ file.length) : ¬ WelcomeProper file := by
  rintro ⟨mem, hmes, hgets⟩
  obtain ⟨m, hm, hs⟩ := putMark_message hmes
  rw [gets_store (nul_not_mem_mmap h0 hm hle) hs] at hgets
  cases hgets

/-- From `2 ^ 31` on, a size is not positive as an `int`, or smaller than the file. -/
theorem fileSize_large (h : 2 ^ 31 ≤ file.length + 1) :
    -2 ^ 31 ≤ fileSize file ∧ (fileSize file ≤ 0 ∨ 0 < fileSize file ∧ fileSize file < 2 ^ 31 ∧
    2 ^ 32 ≤ file.length) := by
  unfold fileSize toInt wrap
  rw [Int.bmod_def]
  split <;> omega

theorem not_proper_large (h0 : 0 ∉ file) (h : 2 ^ 31 ≤ file.length + 1) : ¬ WelcomeProper file := by
  obtain ⟨hlow, hneg | ⟨hpos, hhigh, hlong⟩⟩ := fileSize_large h
  · rintro ⟨mem, hmes, -⟩
    obtain ⟨m, hm, -⟩ := putMark_message hmes
    have hlen : sizeT (fileSize file) = 0 ∨ 2 ^ 63 ≤ sizeT (fileSize file) := by
      unfold sizeT
      omega
    rw [mmap, if_pos hlen] at hm
    cases hm
  · refine not_proper_of_le h0 ?_
    have hpages : pageSize * pages (sizeT (fileSize file)) ≤ file.length := by
      unfold pages pageSize sizeT
      omega
    exact (Nat.mul_le_mul_left _ (Nat.min_le_left ..)).trans hpages

/-- A file that does not end with a page is followed by zeros up to its end. -/
theorem mmap_partial (h : file.length % pageSize ≠ 0) (hlt : file.length + 1 < 2 ^ 63) :
    mmap file (file.length + 1) = some (file ++ List.replicate (pageSize - file.length % pageSize) 0) := by
  have hmod : file.length % pageSize < pageSize := Nat.mod_lt _ (by decide)
  have hend : pageSize * min (pages (file.length + 1)) (pages file.length) =
      file.length + (pageSize - file.length % pageSize) := by
    unfold pages pageSize at *
    omega
  rw [mmap, if_neg (by omega), hend, zeroFilled, List.take_append, List.take_of_length_le (by omega),
    Nat.add_sub_cancel_left, List.take_replicate, Nat.min_eq_left (by omega)]

theorem getWelcomeMes_partial (h : file.length % pageSize ≠ 0) (hlt : file.length + 1 < 2 ^ 31) :
    getWelcomeMes file = .message (file ++ 4 :: List.replicate (pageSize - file.length % pageSize - 1) 0) := by
  have hmod : file.length % pageSize < pageSize := Nat.mod_lt _ (by decide)
  have hsize : fileSize file = ((file.length + 1 : Nat) : Int) := toInt_of_lt (by omega) (by omega)
  have hpos : ((file.length + 1 : Nat) : Int) - 1 = (file.length : Nat) := by omega
  obtain ⟨k, hk⟩ : ∃ k, pageSize - file.length % pageSize = k + 1 := ⟨_, (Nat.succ_pred (by omega)).symm⟩
  have hmap := mmap_partial h (by omega)
  rw [hk, List.replicate_succ] at hmap
  rw [getWelcomeMes, hsize, sizeT_of_lt (by omega), hmap, hk, putMark, hpos, Block.store_mid]
  rfl

end

/-- **The welcome message.** -/
theorem welcome_iff {file : Bytes} (h0 : 0 ∉ file) : WelcomeProper file ↔
    file.length + 1 < 2 ^ 31 ∧ file.length % pageSize ≠ 0 ∧ file.length % pageSize ≠ pageSize - 1 := by
  have hmod : file.length % pageSize < pageSize := Nat.mod_lt _ (by decide)
  by_cases hint : file.length + 1 < 2 ^ 31
  swap
  · exact iff_of_false (not_proper_large h0 (by omega)) fun h => hint h.1
  by_cases hzero : file.length % pageSize = 0
  · refine iff_of_false (not_proper_of_le h0 ?_) fun h => h.2.1 hzero
    have : pages file.length * pageSize = file.length := by
      unfold pages pageSize at *
      omega
    calc pageSize * min (pages (sizeT (fileSize file))) (pages file.length)
        ≤ pageSize * pages file.length := Nat.mul_le_mul_left _ (Nat.min_le_right ..)
      _ = file.length := by rw [Nat.mul_comm, this]
  have hmes := getWelcomeMes_partial hzero hint
  have h4 : 0 ∉ file ++ [4] := by simpa using h0
  by_cases hlast : file.length % pageSize = pageSize - 1
  · -- the byte is the last one of the page
    refine iff_of_false ?_ fun h => h.2.2 hlast
    rintro ⟨mem, hmem, hgets⟩
    cases hmes.symm.trans hmem
    have hend : pageSize - file.length % pageSize - 1 = 0 := by omega
    rw [hend, List.replicate_zero, Block.gets, if_neg h4] at hgets
    cases hgets
  · refine iff_of_true ⟨_, hmes, ?_⟩ ⟨hint, hzero, hlast⟩
    obtain ⟨k, hk⟩ : ∃ k, pageSize - file.length % pageSize - 1 = k + 1 := ⟨_, (Nat.succ_pred (by omega)).symm⟩
    rw [hk, List.replicate_succ, List.append_cons]
    exact Block.gets_append_nul _ h4

theorem welcome_iff_short : WelcomeProper (ascii "hi") ↔ (ascii "hi").length + 1 < 2 ^ 31 ∧
    (ascii "hi").length % pageSize ≠ 0 ∧ (ascii "hi").length % pageSize ≠ pageSize - 1 :=
  welcome_iff (by decide)

/-- An empty file has no page, and the mark is stored in none. -/
theorem empty_faults : getWelcomeMes [] = .fault := by
  have hsize : fileSize [] = 1 := toInt_of_lt (by decide) (by decide)
  rw [getWelcomeMes, hsize]
  rfl

theorem empty_not_proper : ¬ WelcomeProper [] := by
  rintro ⟨mem, hmem, -⟩
  cases empty_faults.symm.trans hmem

end BbsServer
