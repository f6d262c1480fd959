import BbsServer.Types

/-!
# `MurmurHash3_x86_32` and storage paths

The vendored hash works on `int32_t`: its right shifts are arithmetic.
-/

namespace BbsServer

open CStr

def rotl32 (x : BitVec 32) (r : Nat) : BitVec 32 := (x <<< r) ||| (x.sshiftRight (32 - r))

def fmix32 (h : BitVec 32) : BitVec 32 :=
  let h := h ^^^ h.sshiftRight 16
  let h := h * 0x85ebca6b#32
  let h := h ^^^ h.sshiftRight 13
  let h := h * 0xc2b2ae35#32
  h ^^^ h.sshiftRight 16

def murmurC1 : BitVec 32 := 0xcc9e2d51#32
def murmurC2 : BitVec 32 := 0x1b873593#32

def murmurKey (k1 : BitVec 32) : BitVec 32 := rotl32 (k1 * murmurC1) 15 * murmurC2

def murmurBlock (h1 k1 : BitVec 32) : BitVec 32 := rotl32 (h1 ^^^ murmurKey k1) 13 * 5 + 0xe6546b64#32

def byte32 (b : UInt8) : BitVec 32 := BitVec.ofNat 32 b.toNat

def murmurBody : BitVec 32 → Bytes → BitVec 32
  | h1, a :: b :: c :: d :: rest =>
    murmurBody (murmurBlock h1 (byte32 a ||| byte32 b <<< 8 ||| byte32 c <<< 16 ||| byte32 d <<< 24)) rest
  | h1, [a, b, c] => h1 ^^^ murmurKey (byte32 c <<< 16 ^^^ byte32 b <<< 8 ^^^ byte32 a)
  | h1, [a, b] => h1 ^^^ murmurKey (byte32 b <<< 8 ^^^ byte32 a)
  | h1, [a] => h1 ^^^ murmurKey (byte32 a)
  | h1, [] => h1

def murmurHash3X86_32 (key : Bytes) (seed : Int) : BitVec 32 :=
  fmix32 (murmurBody (BitVec.ofInt 32 seed) key ^^^ BitVec.ofNat 32 key.length)

def extractNamesFromHash (fileHash : BitVec 32) : Bytes × Bytes :=
  let hashedFullName := hexDigits 8 fileHash.toNat
  (hashedFullName.take 2, (hashedFullName.drop 2).take 6)

def storagePath (hash : BitVec 32) : Bytes :=
  let (hashedDirName, hashedName) := extractNamesFromHash hash
  storageFolder ++ ascii "/" ++ hashedDirName ++ ascii "/" ++ hashedName

example : storagePath 211212#32 = ascii "./storage/00/03390c" := by decide
example : extractNamesFromHash 99399234#32 = (ascii "05", ascii "ecb642") := by decide

end BbsServer
