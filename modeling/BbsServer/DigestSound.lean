import BbsServer.Lib.Block
import BbsServer.Lib.Hex
import BbsServer.Backend

/-!
# The text of a password hash

`SHA256_raw_to_string` in the memory of `out`. Each of its four texts ends with a NUL, which the next one
overwrites; that of the last one is the 65th byte, and the callers provide 64 (`digest_overruns`).
-/

namespace BbsServer

open CStr

def sha256DigestLength : Nat := 32

structure Digest where
  bytes : Bytes
  length : bytes.length = sha256DigestLength

def htobe64 (n : Nat) : Nat := beNat (leBytes 8 n)

def Digest.num (md : Digest) (i : Nat) : Nat := leNat ((md.bytes.drop (i * 8)).take 8)

/-- `sprintf(out + 16 * i, "%016lx", htobe64(*num_pointer))`. `none` is a write outside `out`. -/
def Digest.print (md : Digest) (out : Bytes) (i : Nat) : Option Bytes :=
  Block.fill out (16 * i) (hexDigits 16 (htobe64 (md.num i)) ++ [0])

def sha256RawToBlock (md : Digest) (out : Bytes) : Option Bytes := (List.range 4).foldlM md.print out

inductive HashCaller
  | dbUserAuth
  | dbUserCreate

def passHashedLen : Backend → HashCaller → Nat
  | .sqlite, .dbUserAuth => sha256DigestLength * 2
  | .sqlite, .dbUserCreate => sha256DigestLength * 2
  | .postgresql, .dbUserAuth => sha256DigestLength * 2
  | .postgresql, .dbUserCreate => sha256DigestLength * 2

/-- The string in `n` bytes, whatever they hold, is the text of the bytes, which no other digest has. -/
structure Encodes (n : Nat) (md : Digest) : Prop where
  digits : ∀ out : Bytes, out.length = n → ∃ out', sha256RawToBlock md out = some out' ∧
    Block.gets out' = some (hexText md.bytes)
  distinct : ∀ md' : Digest, hexText md'.bytes = hexText md.bytes → md'.bytes = md.bytes

section
variable {out : Bytes}

theorem htobe64_leNat {b : Bytes} (h : b.length = 8) : htobe64 (leNat b) = beNat b := by
  rw [htobe64, ← h, leBytes_leNat]

theorem Digest.length_slice (md : Digest) {i : Nat} (hi : i < 4) : ((md.bytes.drop (i * 8)).take 8).length = 8 := by
  rw [List.length_take, List.length_drop, md.length, sha256DigestLength]
  omega

theorem Digest.take_slice (md : Digest) (i : Nat) :
    md.bytes.take (8 * (i + 1)) = md.bytes.take (8 * i) ++ (md.bytes.drop (i * 8)).take 8 := by
  rw [Nat.mul_comm i 8, ← List.take_add]
  rfl

theorem hexDigits_num (md : Digest) {i : Nat} (hi : i < 4) :
    hexDigits 16 (htobe64 (md.num i)) = hexText ((md.bytes.drop (i * 8)).take 8) := by
  rw [Digest.num, htobe64_leNat (md.length_slice hi), ← hexDigits_beNat, md.length_slice hi]

theorem print_append (md : Digest) {i : Nat} (hi : i < 4) {a r : Bytes} (ha : a.length = 16 * i) :
    md.print (a ++ r) i =
      if 16 < r.length then some (a ++ hexText ((md.bytes.drop (i * 8)).take 8) ++ 0 :: r.drop 17) else none := by
  have hlen : (hexText ((md.bytes.drop (i * 8)).take 8)).length = 16 := by
    rw [← hexDigits_num md hi, length_hexDigits]
  rw [Digest.print, hexDigits_num md hi, Block.fill, List.length_append, List.length_append, hlen,
    List.length_singleton]
  by_cases h : 16 < r.length
  · have hdrop : (a ++ r).drop (16 * i + (16 + 1)) = r.drop 17 := by
      rw [← ha, List.drop_append, List.drop_of_length_le (by omega), Nat.add_sub_cancel_left]
      rfl
    rw [if_pos (by omega), if_pos h, ← ha, List.take_left, ha, hdrop]
    simp
  · rw [if_neg (by omega), if_neg h]

/-- After round `k`: the text of the bytes up to there, and its NUL. -/
theorem print_rounds (md : Digest) (out : Bytes) : ∀ {k : Nat}, k < 4 → (List.range (k + 1)).foldlM md.print out =
    if 16 * (k + 1) < out.length then some (hexText (md.bytes.take (8 * (k + 1))) ++ 0 :: out.drop (16 * (k + 1) + 1))
    else none := by
  intro k hk
  induction k with
  | zero =>
    have hround := print_append md hk (a := []) (r := out) rfl
    simp only [List.nil_append, Nat.zero_mul, List.drop_zero] at hround
    simp only [Nat.zero_add, List.range_one, List.foldlM_cons, List.foldlM_nil, hround]
    split <;> rfl
  | succ k ih =>
    rw [List.range_succ, List.foldlM_append, ih (by omega)]
    simp only [List.foldlM_cons, List.foldlM_nil]
    by_cases h : 16 * (k + 1) < out.length
    swap
    · rw [if_neg h, if_neg (by omega)]
      rfl
    have hlen : (hexText (md.bytes.take (8 * (k + 1)))).length = 16 * (k + 1) := by
      rw [length_hexText, List.length_take, md.length, sha256DigestLength]
      omega
    have hround := print_append md hk (r := 0 :: out.drop (16 * (k + 1) + 1)) hlen
    rw [if_pos h, Option.bind_eq_bind, Option.bind_some, hround, ← hexText_append, ← md.take_slice]
    rw [List.length_cons, List.length_drop, List.drop_succ_cons, List.drop_drop]
    by_cases h' : 16 * (k + 1 + 1) < out.length
    · rw [if_pos h', if_pos (by omega)]
      rfl
    · rw [if_neg h', if_neg (by omega)]
      rfl

theorem sha256RawToBlock_eq (md : Digest) (out : Bytes) : sha256RawToBlock md out =
    if 64 < out.length then some (hexText md.bytes ++ 0 :: out.drop 65) else none := by
  have h := print_rounds md out (k := 3) (by decide)
  rwa [List.take_of_length_le (by rw [md.length]; decide)] at h

theorem sha256RawToString_hexText (md : Digest) : sha256RawToString md.bytes = hexText md.bytes := by
  have hrounds : ∀ k ≤ 4, (List.range k).flatMap (fun i => hexDigits 16 (be64 ((md.bytes.drop (i * 8)).take 8))) =
      hexText (md.bytes.take (8 * k)) := by
    intro k hk
    induction k with
    | zero => simp [hexText]
    | succ k ih =>
      have hround : hexDigits 16 (be64 ((md.bytes.drop (k * 8)).take 8)) =
        hexText ((md.bytes.drop (k * 8)).take 8) := by
        rw [← hexDigits_num md hk, Digest.num, htobe64_leNat (md.length_slice hk)]
        rfl
      rw [List.range_succ, List.flatMap_append, ih (by omega), List.flatMap_singleton, hround, md.take_slice,
        hexText_append]
  rw [sha256RawToString, hrounds 4 le_rfl, List.take_of_length_le (by rw [md.length]; decide)]

/-- A 65th byte is what the string needs, for any digest. -/
theorem encodes_iff (n : Nat) (md : Digest) : Encodes n md ↔ 64 < n := by
  constructor
  · intro h
    obtain ⟨out', hrun, -⟩ := h.digits (List.replicate n 0) List.length_replicate
    rw [sha256RawToBlock_eq, List.length_replicate] at hrun
    by_contra hn
    rw [if_neg hn] at hrun
    cases hrun
  · intro hn
    refine ⟨fun out hout => ?_, fun md' h => hexText_inj h⟩
    refine ⟨_, (sha256RawToBlock_eq md out).trans (if_pos (hout ▸ hn)), ?_⟩
    exact Block.gets_append_nul _ (nul_not_mem_of_isHexDigit (isHexDigit_hexText _))

end

/-- **The text of a password hash.** In none of the arrays that it is asked for. -/
theorem digest_overruns (b : Backend) (f : HashCaller) (md : Digest) : ¬ Encodes (passHashedLen b f) md := by
  have hlen : passHashedLen b f = 64 := by
    cases b with
    | sqlite => cases f <;> rfl
    | postgresql => cases f <;> rfl
  intro h
  rw [encodes_iff, hlen] at h
  exact absurd h (by decide)

def zeroDigest : Digest := ⟨List.replicate 32 0, List.length_replicate⟩

theorem zeroDigest_overruns : ¬ Encodes (passHashedLen .sqlite .dbUserCreate) zeroDigest :=
  fun h => absurd ((encodes_iff _ _).mp h) (by decide)

end BbsServer
