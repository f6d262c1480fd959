import BbsServer.Lib.CStr
import Mathlib.Data.List.Induction
import Mathlib.Tactic.Ring

/-!
# Hexadecimal texts

What `%0kx` prints, digit by digit, and the text of a sequence of bytes, two digits for each (`hexText`). A number of
`k` bytes is printed as the text of its bytes, the most significant first (`hexDigits_beNat`).
-/

namespace CStr

def isHexDigit (c : UInt8) : Bool := isdigit c || (97 ≤ c && c ≤ 102)

def hexText (b : Bytes) : Bytes := b.flatMap fun c => hexDigits 2 c.toNat

def beNat (b : Bytes) : Nat := b.foldl (fun n c => n * 256 + c.toNat) 0

section
variable {a b : Bytes} {k j n m : Nat}

theorem hexDigit_isHexDigit : ∀ d < 16, isHexDigit (hexDigit d) := by decide

theorem isHexDigit_hexDigits : ∀ (k n : Nat), ∀ c ∈ hexDigits k n, isHexDigit c
  | 0, _, _, h => by simp [hexDigits] at h
  | k + 1, n, c, h => by
    rcases List.mem_append.mp h with h | h
    · exact isHexDigit_hexDigits k _ c h
    · rw [List.mem_singleton.mp h]
      exact hexDigit_isHexDigit _ (Nat.mod_lt _ (by decide))

theorem nul_not_mem_of_isHexDigit (h : ∀ c ∈ b, isHexDigit c) : 0 ∉ b := fun h0 => absurd (h 0 h0) (by decide)

theorem hexDigits_add (k n : Nat) (h : m < 16 ^ j) :
    hexDigits (k + j) (n * 16 ^ j + m) = hexDigits k n ++ hexDigits j m := by
  induction j generalizing m with
  | zero =>
    have : m = 0 := by simpa using h
    simp [this, hexDigits]
  | succ j ih =>
    have hlow : m / 16 < 16 ^ j := by rw [Nat.pow_succ] at h; omega
    have hsplit : n * 16 ^ (j + 1) + m = 16 * (n * 16 ^ j) + m := by ring
    have hdiv : (16 * (n * 16 ^ j) + m) / 16 = n * 16 ^ j + m / 16 := by omega
    have hmod : (16 * (n * 16 ^ j) + m) % 16 = m % 16 := by omega
    rw [← Nat.add_assoc, hexDigits, hsplit, hdiv, hmod, ih hlow, hexDigits, List.append_assoc]

/-! ## The text of bytes -/

theorem hexText_append (a b : Bytes) : hexText (a ++ b) = hexText a ++ hexText b := List.flatMap_append

theorem length_hexText (b : Bytes) : (hexText b).length = 2 * b.length := by
  induction b with
  | nil => rfl
  | cons c b ih =>
    rw [hexText, List.flatMap_cons, List.length_append, length_hexDigits]
    rw [hexText] at ih
    rw [ih, List.length_cons]
    omega

theorem isHexDigit_hexText (b : Bytes) : ∀ c ∈ hexText b, isHexDigit c := by
  intro c hc
  obtain ⟨x, -, hx⟩ := List.mem_flatMap.mp hc
  exact isHexDigit_hexDigits 2 _ c hx

theorem hexText_inj (h : hexText a = hexText b) : a = b := by
  induction a generalizing b with
  | nil =>
    cases b with
    | nil => rfl
    | cons d b => simpa [length_hexText] using congrArg List.length h
  | cons c a ih =>
    cases b with
    | nil => simpa [length_hexText] using congrArg List.length h
    | cons d b =>
      rw [hexText, hexText, List.flatMap_cons, List.flatMap_cons] at h
      obtain ⟨hc, hr⟩ := List.append_inj h (by simp)
      rw [UInt8.toNat_inj.mp (hexDigits_inj (k := 2) c.toNat_lt d.toNat_lt hc), ih hr]

/-! ## Numbers and their bytes -/

theorem beNat_snoc (b : Bytes) (c : UInt8) : beNat (b ++ [c]) = beNat b * 256 + c.toNat := by simp [beNat]

theorem beNat_reverse (b : Bytes) : beNat b.reverse = leNat b := by
  rw [beNat, leNat, List.foldl_reverse]
  exact List.foldr_ext _ _ _ fun c _ n => by omega

theorem hexDigits_beNat (b : Bytes) : hexDigits (2 * b.length) (beNat b) = hexText b := by
  induction b using List.reverseRecOn with
  | nil => rfl
  | append_singleton b c ih =>
    have hc : c.toNat < 16 ^ 2 := c.toNat_lt
    rw [beNat_snoc, List.length_append, List.length_singleton, Nat.mul_add, hexText_append]
    exact (hexDigits_add _ _ hc).trans (by rw [ih]; simp [hexText])

theorem leBytes_leNat (b : Bytes) : leBytes b.length (leNat b) = b := by
  induction b with
  | nil => rfl
  | cons c b ih =>
    have hc : c.toNat < 256 := c.toNat_lt
    have he : leNat (c :: b) = c.toNat + 256 * leNat b := rfl
    have hmod : (c.toNat + 256 * leNat b) % 256 = c.toNat := by omega
    have hdiv : (c.toNat + 256 * leNat b) / 256 = leNat b := by omega
    rw [List.length_cons, leBytes, he, hmod, hdiv, ih, UInt8.ofNat_toNat]

end

end CStr
