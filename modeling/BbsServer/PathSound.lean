import BbsServer.Lib.Block
import BbsServer.Lib.Hex
import BbsServer.ProbeSound

/-!
# Storage paths

`extract_names_from_hash` and the `sprintf` of a path in the memory that they write to, which at upload has the
names of the last round in it. Every hash has a directory and a name of its own, and the same path on both sides
(`hash_paths`).
-/

namespace BbsServer

open CStr

def pathLen : Nat := storageFolder.length + 1 + 2 + 9

structure PathMem where
  hashedFullName : Bytes
  hashedDirName : Bytes
  hashedName : Bytes
  path : Bytes
  fullNameLen : hashedFullName.length = 9
  dirNameLen : hashedDirName.length = 3
  nameLen : hashedName.length = 7
  pathLen : path.length = pathLen

def extractNamesBlock (hashedFullName dirname fname : Bytes) (fileHash : BitVec 32) : Option (Bytes × Bytes) := do
  let hashedFullName ← Block.puts hashedFullName (hexDigits 8 fileHash.toNat)
  let dirname ← Block.strncpy dirname hashedFullName 2
  let fname ← Block.strncpy fname (hashedFullName.drop 2) 6
  let dirname ← Block.store dirname 2 0
  let fname ← Block.store fname 6 0
  some (dirname, fname)

def PathMem.names (m : PathMem) (hash : BitVec 32) : Option (Bytes × Bytes) :=
  extractNamesBlock m.hashedFullName m.hashedDirName m.hashedName hash

/-- The names, and `sprintf(sess->file->path, "%s/%s/%s", STORAGE_FOLDER, hashed_dir_name, hashed_name)`. -/
def PathMem.putPath (m : PathMem) (hash : BitVec 32) : Option Bytes := do
  let (dirname, fname) ← m.names hash
  let dirname ← Block.gets dirname
  let fname ← Block.gets fname
  Block.puts m.path (storageFolder ++ ascii "/" ++ dirname ++ ascii "/" ++ fname)

def receivePath : PathMem → BitVec 32 → Option Bytes := PathMem.putPath

def sendPath : PathMem → BitVec 32 → Option Bytes := PathMem.putPath

def Names (hash : BitVec 32) (dir name : Bytes) : Prop :=
  ∀ m : PathMem, ∃ dirname fname, m.names hash = some (dirname, fname) ∧
    Block.gets dirname = some dir ∧ Block.gets fname = some name

/-- A directory and a name that no other hash has, and one path on both sides. -/
structure HashPath (hash : BitVec 32) (dir name path : Bytes) : Prop where
  names : Names hash dir name
  dirLength : dir.length = 2
  nameLength : name.length = 6
  digits : ∀ c ∈ dir ++ name, isHexDigit c
  determines : ∀ hash' dir' name', Names hash' dir' name' → (dir' ++ name' = dir ++ name ↔ hash' = hash)
  receive : ∀ m, ∃ b, receivePath m hash = some b ∧ Block.gets b = some path
  send : ∀ m, ∃ b, sendPath m hash = some b ∧ Block.gets b = some path

section
variable {hash : BitVec 32} {dir name : Bytes}

theorem names_extract (hash : BitVec 32) : Names hash (extractNamesFromHash hash).1 (extractNamesFromHash hash).2 := by
  intro m
  obtain ⟨full, dirname, fname, path, hfull, hdir, hname, -⟩ := m
  have h0 : 0 ∉ hexDigits 8 hash.toNat := nul_not_mem_of_isHexDigit (isHexDigit_hexDigits 8 hash.toNat)
  have hlen : (hexDigits 8 hash.toNat).length = 8 := length_hexDigits 8 _
  unfold PathMem.names extractNamesBlock extractNamesFromHash
  dsimp only
  generalize hexDigits 8 hash.toNat = ds at h0 hlen
  have hputs : Block.puts full ds = some (ds ++ [0]) := by
    rw [Block.puts_eq, if_pos (by omega), List.drop_of_length_le (by omega)]
  have htake : (ds ++ [0]).take 2 = ds.take 2 := List.take_append_of_le_length (by omega)
  have hdrop : ((ds ++ [0]).drop 2).take 6 = (ds.drop 2).take 6 := by
    rw [List.drop_append_of_le_length (by omega), List.take_append_of_le_length (by rw [List.length_drop]; omega)]
  obtain ⟨d, hd, hd'⟩ := Option.bind_eq_some_iff.mp <| Block.strncpy_whole (m := dirname) (t := ds ++ [0]) (n := 2)
    (by rw [List.length_append]; omega) (htake ▸ fun h => h0 (List.mem_of_mem_take h)) (by omega)
  obtain ⟨f, hf, hf'⟩ := Option.bind_eq_some_iff.mp <| Block.strncpy_whole (m := fname)
    (t := (ds ++ [0]).drop 2) (n := 6)
    (by simp; omega) (hdrop ▸ fun h => h0 (List.mem_of_mem_drop (List.mem_of_mem_take h))) (by omega)
  rw [htake] at hd'
  rw [hdrop] at hf'
  refine ⟨ds.take 2 ++ 0 :: dirname.drop 3, (ds.drop 2).take 6 ++ 0 :: fname.drop 7, ?_,
    Block.gets_append_nul _ fun h => h0 (List.mem_of_mem_take h),
    Block.gets_append_nul _ fun h => h0 (List.mem_of_mem_drop (List.mem_of_mem_take h))⟩
  simp only [hputs, hd, hf, Option.bind_eq_bind, Option.bind_some]
  rw [show Block.store d 2 0 = _ from hd', show Block.store f 6 0 = _ from hf']
  rfl

theorem Names.unique {dir' name' : Bytes} (h : Names hash dir name) (h' : Names hash dir' name') :
    dir = dir' ∧ name = name' := by
  let m : PathMem := ⟨List.replicate 9 0, List.replicate 3 0, List.replicate 7 0, List.replicate pathLen 0,
    List.length_replicate, List.length_replicate, List.length_replicate, List.length_replicate⟩
  obtain ⟨d, f, hrun, hd, hf⟩ := h m
  obtain ⟨d', f', hrun', hd', hf'⟩ := h' m
  obtain ⟨rfl, rfl⟩ := Prod.mk.inj (Option.some.inj (hrun.symm.trans hrun'))
  exact ⟨Option.some.inj (hd.symm.trans hd'), Option.some.inj (hf.symm.trans hf')⟩

theorem length_names (hash : BitVec 32) :
    (extractNamesFromHash hash).1.length = 2 ∧ (extractNamesFromHash hash).2.length = 6 := by
  simp [extractNamesFromHash]

theorem names_digits (hash : BitVec 32) :
    ∀ c ∈ (extractNamesFromHash hash).1 ++ (extractNamesFromHash hash).2, isHexDigit c := by
  intro c hc
  apply isHexDigit_hexDigits 8 hash.toNat
  rcases List.mem_append.mp hc with hc | hc
  · exact List.mem_of_mem_take hc
  · exact List.mem_of_mem_drop (List.mem_of_mem_take hc)

theorem putPath_storagePath (hash : BitVec 32) (m : PathMem) :
    ∃ b, m.putPath hash = some b ∧ Block.gets b = some (storagePath hash) := by
  obtain ⟨dirname, fname, hrun, hd, hf⟩ := names_extract hash m
  obtain ⟨hlen, hlen'⟩ := length_names hash
  have hdigit : ∀ c ∈ (extractNamesFromHash hash).1 ++ (extractNamesFromHash hash).2, c ≠ 0 := by
    intro c hc
    rintro rfl
    exact absurd (names_digits hash 0 hc) (by decide)
  have h0 : 0 ∉ storagePath hash := by
    intro h
    simp only [storagePath, List.mem_append] at h hdigit
    rcases h with (((h | h) | h) | h) | h
    · exact absurd h (by decide)
    · exact absurd h (by decide)
    · exact hdigit 0 (.inl h) rfl
    · exact absurd h (by decide)
    · exact hdigit 0 (.inr h) rfl
  have hfits : (storagePath hash).length < m.path.length := by
    rw [m.pathLen]
    simp only [storagePath, List.length_append, hlen, hlen']
    decide
  have hputs : Block.puts m.path (storagePath hash) = _ := (Block.puts_eq ..).trans (if_pos hfits)
  refine ⟨storagePath hash ++ 0 :: m.path.drop ((storagePath hash).length + 1), ?_, Block.gets_append_nul _ h0⟩
  simp only [PathMem.putPath, hrun, hd, hf, Option.bind_eq_bind, Option.bind_some]
  exact hputs

end

/-- **Hash and path.** -/
theorem hash_paths (hash : BitVec 32) : ∃ dir name path, HashPath hash dir name path := by
  obtain ⟨hlen, hlen'⟩ := length_names hash
  refine ⟨_, _, storagePath hash, names_extract hash, hlen, hlen', names_digits hash, ?_,
    putPath_storagePath hash, putPath_storagePath hash⟩
  intro hash' dir' name' h
  obtain ⟨rfl, rfl⟩ := (names_extract hash').unique h
  constructor
  · intro he
    obtain ⟨hdir, hname⟩ := List.append_inj he ((length_names hash').1.trans hlen.symm)
    exact extractNamesFromHash_inj (Prod.ext hdir hname)
  · rintro rfl
    rfl

end BbsServer
