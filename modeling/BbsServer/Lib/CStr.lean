import Mathlib.Algebra.Group.Int.Defs
import Mathlib.Algebra.GroupWithZero.Nat
import Mathlib.Data.List.Basic
import Mathlib.Data.List.TakeWhile

/-!
# C strings

A C string is the list of its bytes before the terminating NUL. The functions of
`string.h` and `stdio.h` are defined on these lists: a position is an offset from
the start, `NULL` is `none`.
-/

namespace CStr

abbrev Bytes := List UInt8

def ascii (s : String) : Bytes := s.toList.map fun c => UInt8.ofNat c.toNat

def nl : UInt8 := 10
def cr : UInt8 := 13

def cstr (b : Bytes) : Bytes := b.takeWhile (· != 0)

theorem cstr_of_nul_not_mem {b : Bytes} (h : 0 ∉ b) : cstr b = b := by
  unfold cstr
  rw [List.takeWhile_eq_self_iff]
  intro x hx
  simp only [bne_iff_ne]
  rintro rfl
  exact h hx

theorem nul_not_mem_cstr (b : Bytes) : 0 ∉ cstr b := fun h => by
  simpa using List.mem_takeWhile_imp h

theorem cstr_prefix (b : Bytes) : cstr b <+: b := List.takeWhile_prefix _

theorem cstr_append_nul (b rest : Bytes) : cstr (b ++ 0 :: rest) = cstr b := by
  induction b with
  | nil => simp [cstr]
  | cons c b ih =>
    unfold cstr at ih ⊢
    rw [List.cons_append, List.takeWhile_cons, List.takeWhile_cons, ih]

/-! ## Searching

First and last position of a byte, and the first occurrence of a text. -/

def strchr (s : Bytes) (c : UInt8) : Option Nat := s.findIdx? (· == c)

def strrchr : Bytes → UInt8 → Option Nat
  | [], _ => none
  | x :: s, c =>
    match strrchr s c with
    | some i => some (i + 1)
    | none => if x == c then some 0 else none

def strstr (s t : Bytes) : Option Nat :=
  (List.range (s.length + 1)).find? fun i => t.isPrefixOf (s.drop i)

def strncmpZero (a b : Bytes) (n : Nat) : Bool := (a ++ [0]).take n == (b ++ [0]).take n

/-- Compared with its NUL, a keyword is the whole string. -/
theorem strncmpZero_whole {s k : Bytes} (h : 0 ∉ s) : strncmpZero s k (k.length + 1) = true ↔ s = k := by
  have hk : (k ++ [0]).take (k.length + 1) = k ++ [0] := List.take_of_length_le (by simp)
  rw [strncmpZero, hk, beq_iff_eq]
  constructor
  · intro he
    rcases Nat.lt_or_ge k.length s.length with hlt | hle
    · rw [List.take_append_of_le_length hlt] at he
      exact absurd (List.mem_of_mem_take (i := k.length + 1) (by rw [he]; simp)) h
    · rw [List.take_of_length_le (by simp; omega)] at he
      exact List.append_cancel_right he
  · rintro rfl
    exact List.take_of_length_le (by simp)

/-- Compared without its NUL, a keyword is a prefix. -/
theorem strncmpZero_prefix_iff {s k : Bytes} (h : 0 ∉ k) : strncmpZero s k k.length = true ↔ k <+: s := by
  rw [strncmpZero, List.take_left, beq_iff_eq]
  constructor
  · intro he
    rcases Nat.lt_or_ge s.length k.length with hlt | hle
    · rw [List.take_of_length_le (by simp; omega)] at he
      exact absurd (show (0 : UInt8) ∈ k by rw [← he]; simp) h
    · rw [List.take_append_of_le_length hle] at he
      exact List.prefix_iff_eq_take.mpr he.symm
  · rintro ⟨t, rfl⟩
    rw [List.append_assoc, List.take_left]

theorem strchr_append {a b : Bytes} {c : UInt8} (h : c ∉ a) : strchr (a ++ c :: b) c = some a.length := by
  induction a with
  | nil => simp [strchr, List.findIdx?_cons]
  | cons x a ih =>
    have hx : x ≠ c := fun e => h (by simp [e])
    have ha : c ∉ a := fun e => h (List.mem_cons_of_mem _ e)
    have := ih ha
    simp only [strchr] at this ⊢
    simp [List.findIdx?_cons, hx, this]

theorem strchr_eq_none {s : Bytes} {c : UInt8} : strchr s c = none ↔ c ∉ s := by
  simp only [strchr, List.findIdx?_eq_none_iff, beq_eq_false_iff_ne, ne_eq]
  exact ⟨fun h hc => h c hc rfl, fun h x hx e => h (e ▸ hx)⟩

/-- A byte that occurs splits the string at its first occurrence. -/
theorem strchr_eq_some {s : Bytes} {c : UInt8} {i : Nat} (h : strchr s c = some i) :
    s = s.take i ++ c :: s.drop (i + 1) ∧ c ∉ s.take i ∧ i < s.length := by
  simp only [strchr, List.findIdx?_eq_some_iff_getElem, beq_iff_eq] at h
  obtain ⟨hi, hc, hb⟩ := h
  refine ⟨?_, ?_, hi⟩
  · conv_lhs => rw [← List.take_append_drop i s, List.drop_eq_getElem_cons hi, hc]
  · intro hm
    obtain ⟨j, hj, he⟩ := List.getElem_of_mem hm
    have hj' : j < i := by simp only [List.length_take] at hj; omega
    exact hb j hj' (by simpa using he)

theorem take_strchr {s : Bytes} {c : UInt8} {i : Nat} (h : strchr s c = some i) :
    s.take (i + 1) = s.take i ++ [c] := by
  obtain ⟨hs, -, hi⟩ := strchr_eq_some h
  rw [List.take_succ_eq_append_getElem hi]
  congr 2
  have := List.getElem_of_eq hs hi
  rw [this, List.getElem_append_right (by rw [List.length_take]; exact Nat.min_le_left ..)]
  simp [Nat.min_eq_left hi.le]

theorem strstr_isSome_iff {s t : Bytes} : (strstr s t).isSome ↔ t <:+: s := by
  rw [strstr, List.find?_isSome]
  constructor
  · rintro ⟨i, -, h⟩
    exact (List.isPrefixOf_iff_prefix.mp h).isInfix.trans (List.drop_suffix i s).isInfix
  · rintro ⟨a, b, rfl⟩
    refine ⟨a.length, List.mem_range.mpr (by rw [List.length_append, List.length_append]; omega), ?_⟩
    rw [List.append_assoc, List.drop_left, List.isPrefixOf_iff_prefix]
    exact List.prefix_append t b

theorem strrchr_eq_none {s : Bytes} {c : UInt8} : strrchr s c = none ↔ c ∉ s := by
  induction s with
  | nil => simp [strrchr]
  | cons x s ih =>
    simp only [strrchr, List.mem_cons, not_or]
    cases hs : strrchr s c with
    | some i => simp [← ih, hs]
    | none =>
      simp only [← ih, hs, and_true]
      by_cases hx : x = c
      · simp [hx]
      · simp [hx, show c ≠ x from fun e => hx e.symm]

theorem strrchr_append {a b : Bytes} {c : UInt8} (h : c ∉ b) : strrchr (a ++ c :: b) c = some a.length := by
  induction a with
  | nil => simp [strrchr, strrchr_eq_none.mpr h]
  | cons x a ih => simp [strrchr, ih]

theorem strrchr_eq_some {s : Bytes} {c : UInt8} : ∀ {i : Nat}, strrchr s c = some i →
    s = s.take i ++ c :: s.drop (i + 1) ∧ c ∉ s.drop (i + 1) ∧ i < s.length := by
  induction s with
  | nil => intro i h; simp [strrchr] at h
  | cons x s ih =>
    intro i h
    simp only [strrchr] at h
    cases hs : strrchr s c with
    | some j =>
      simp only [hs, Option.some.injEq] at h
      subst h
      obtain ⟨h1, h2, h3⟩ := ih hs
      refine ⟨?_, by simpa using h2, by simpa using h3⟩
      simpa using h1
    | none =>
      simp only [hs] at h
      by_cases hx : x = c
      · simp only [hx, beq_self_eq_true, ite_true, Option.some.injEq] at h
        subst h
        exact ⟨by simp [hx], by simpa using strrchr_eq_none.mp hs, by simp⟩
      · simp [hx] at h

/-! A byte at the end that is not searched for. -/

theorem strchr_snoc {s : Bytes} {c d : UInt8} (h : d ≠ c) : strchr (s ++ [d]) c = strchr s c := by
  cases hs : strchr s c with
  | none =>
    rw [strchr_eq_none] at hs ⊢
    simp [hs, Ne.symm h]
  | some i =>
    obtain ⟨hsplit, hi, hlt⟩ := strchr_eq_some hs
    have := strchr_append (b := s.drop (i + 1) ++ [d]) hi
    rw [← List.cons_append, ← List.append_assoc, ← hsplit, List.length_take, Nat.min_eq_left hlt.le] at this
    exact this

theorem strrchr_snoc {s : Bytes} {c d : UInt8} (h : d ≠ c) : strrchr (s ++ [d]) c = strrchr s c := by
  induction s with
  | nil => simp [strrchr, h]
  | cons x s ih => simp only [List.cons_append, strrchr, ih]

/-! ## Scanning

The conversions of `scanf` in the C locale: `%s`, `%d`, `%zd` and `%u`. -/

def isspace (c : UInt8) : Bool := c == 32 || (9 ≤ c && c ≤ 13)

def skipSpace (s : Bytes) : Bytes := s.dropWhile isspace

def scanWord (s : Bytes) : Option (Bytes × Bytes) :=
  match skipSpace s with
  | [] => none
  | c :: t => some ((c :: t).takeWhile (!isspace ·), (c :: t).dropWhile (!isspace ·))

theorem scanWord_space {c : UInt8} (hc : isspace c) (t : Bytes) : scanWord (c :: t) = scanWord t := by
  simp [scanWord, skipSpace, hc]

theorem takeWhile_split {p : UInt8 → Bool} {t rest : Bytes} (ht : ∀ c ∈ t, p c) (hr : ∀ c ∈ rest.head?, p c = false) :
    (t ++ rest).takeWhile p = t ∧ (t ++ rest).dropWhile p = rest := by
  rw [List.takeWhile_append_of_pos ht, List.dropWhile_append_of_pos ht]
  cases rest with
  | nil => simp
  | cons c rest => simp [hr c rfl]

/-- A word, with the white space or the end behind it. -/
theorem scanWord_word {word t : Bytes} (hne : word ≠ []) (hw : ∀ c ∈ word, isspace c = false)
    (ht : ∀ c ∈ t.head?, isspace c) : scanWord (word ++ t) = some (word, t) := by
  obtain ⟨c, u, rfl⟩ := List.exists_cons_of_ne_nil hne
  have hskip : skipSpace (c :: u ++ t) = c :: u ++ t := by
    simp [skipSpace, hw c (List.mem_cons_self ..)]
  have hsplit := takeWhile_split (p := (!isspace ·)) (t := c :: u) (by simpa using hw) (by simpa using ht)
  unfold scanWord
  rw [hskip]
  rw [List.cons_append] at hsplit ⊢
  exact congrArg some (Prod.ext hsplit.1 hsplit.2)

theorem takeWhile_snoc {p : UInt8 → Bool} {c : UInt8} (h : p c = false) (t : Bytes) :
    (t ++ [c]).takeWhile p = t.takeWhile p := by
  induction t with
  | nil => simp [h]
  | cons x t ih => simp only [List.cons_append, List.takeWhile_cons, ih]

theorem dropWhile_snoc {p : UInt8 → Bool} {c : UInt8} (h : p c = false) (t : Bytes) :
    (t ++ [c]).dropWhile p = t.dropWhile p ++ [c] := by
  induction t with
  | nil => simp [h]
  | cons x t ih =>
    simp only [List.cons_append, List.dropWhile_cons, ih]
    split <;> rfl

theorem skipSpace_snoc {c : UInt8} (hc : isspace c) (t : Bytes) :
    skipSpace (t ++ [c]) = if skipSpace t = [] then [] else skipSpace t ++ [c] := by
  induction t with
  | nil => simp [skipSpace, hc]
  | cons x t ih =>
    unfold skipSpace at ih ⊢
    rw [List.cons_append, List.dropWhile_cons, List.dropWhile_cons]
    split
    · exact ih
    · simp

theorem scanWord_snoc {c : UInt8} (hc : isspace c) (t : Bytes) :
    scanWord (t ++ [c]) = (scanWord t).map fun r => (r.1, r.2 ++ [c]) := by
  have hc' : (!isspace c) = false := by simp [hc]
  unfold scanWord
  rw [skipSpace_snoc hc]
  cases skipSpace t with
  | nil => rfl
  | cons x u =>
    rw [if_neg (by simp)]
    show some ((x :: u ++ [c]).takeWhile _, (x :: u ++ [c]).dropWhile _) = _
    rw [takeWhile_snoc hc', dropWhile_snoc hc']
    rfl

def isdigit (c : UInt8) : Bool := 48 ≤ c && c ≤ 57

theorem isspace_of_isdigit {c : UInt8} (h : isdigit c) : isspace c = false := by
  have : 48 ≤ c.toNat ∧ c.toNat ≤ 57 := by simpa [isdigit, UInt8.le_iff_toNat_le] using h
  simp only [isspace, Bool.or_eq_false_iff, beq_eq_false_iff_ne, Bool.and_eq_false_iff, decide_eq_false_iff_not,
    UInt8.le_iff_toNat_le, ne_eq, ← UInt8.toNat_inj]
  simp
  omega

def digitsVal (ds : Bytes) : Nat := ds.foldl (fun n c => 10 * n + (c.toNat - 48)) 0

def scanNum (s : Bytes) : Option (Bool × Nat × Bytes) :=
  let t := skipSpace s
  let (neg, t) := match t with
    | 45 :: t => (true, t)
    | 43 :: t => (false, t)
    | t => (false, t)
  match t.takeWhile isdigit with
  | [] => none
  | ds => some (neg, digitsVal ds, t.dropWhile isdigit)

def scanSign : Bytes → Bool × Bytes
  | 45 :: t => (true, t)
  | 43 :: t => (false, t)
  | t => (false, t)

theorem scanNum_eq (s : Bytes) : scanNum s =
    match (scanSign (skipSpace s)).2.takeWhile isdigit with
    | [] => none
    | ds => some ((scanSign (skipSpace s)).1, digitsVal ds, (scanSign (skipSpace s)).2.dropWhile isdigit) := rfl

theorem scanSign_digit {c : UInt8} (t : Bytes) (hc : isdigit c) : scanSign (c :: t) = (false, c :: t) := by
  unfold scanSign
  split
  · rename_i h; cases h; exact absurd hc (by decide)
  · rename_i h; cases h; exact absurd hc (by decide)
  · rfl

theorem scanSign_snoc (c : UInt8) {t : Bytes} (h : t ≠ []) :
    scanSign (t ++ [c]) = ((scanSign t).1, (scanSign t).2 ++ [c]) := by
  cases t with
  | nil => exact absurd rfl h
  | cons x t =>
    rw [List.cons_append]
    unfold scanSign
    split
    · rename_i h; cases h; rfl
    · rename_i h; cases h; rfl
    · rename_i h1 h2
      split
      · rename_i h; cases h; exact absurd rfl (h1 _)
      · rename_i h; cases h; exact absurd rfl (h2 _)
      · rfl

theorem scanNum_snoc {c : UInt8} (hc : isspace c) (t : Bytes) :
    scanNum (t ++ [c]) = (scanNum t).map fun r => (r.1, r.2.1, r.2.2 ++ [c]) := by
  have hd : isdigit c = false := by
    have : c = 32 ∨ 9 ≤ c.toNat ∧ c.toNat ≤ 13 := by
      simpa [isspace, UInt8.le_iff_toNat_le] using hc
    rcases this with rfl | h
    · rfl
    · simp only [isdigit, Bool.and_eq_false_iff, decide_eq_false_iff_not, UInt8.le_iff_toNat_le]
      left
      have : (48 : UInt8).toNat = 48 := rfl
      omega
  rw [scanNum_eq, scanNum_eq, skipSpace_snoc hc]
  by_cases hs : skipSpace t = []
  · rw [if_pos hs, hs]
    rfl
  · rw [if_neg hs, scanSign_snoc c hs]
    dsimp only
    rw [takeWhile_snoc hd, dropWhile_snoc hd]
    split <;> rfl

def wrap (n : Nat) (x : Int) : Int := Int.bmod x (2 ^ n)

/-- `strtol`: the number, clamped to a 64-bit `long`. -/
def toLong (neg : Bool) (n : Nat) : Int :=
  if neg then max (-(2 ^ 63)) (-(n : Int)) else min (2 ^ 63 - 1) n

def toULong (neg : Bool) (n : Nat) : Nat :=
  if 2 ^ 64 ≤ n then 2 ^ 64 - 1 else if neg then (2 ^ 64 - n) % 2 ^ 64 else n

def scanInt (s : Bytes) : Option (Int × Bytes) :=
  (scanNum s).map fun (neg, n, t) => (wrap 32 (toLong neg n), t)

def scanLong (s : Bytes) : Option (Int × Bytes) :=
  (scanNum s).map fun (neg, n, t) => (toLong neg n, t)

def scanUInt (s : Bytes) : Option (Nat × Bytes) :=
  (scanNum s).map fun (neg, n, t) => (toULong neg n % 2 ^ 32, t)

/-! ## Little-endian numbers -/

def leNat (b : Bytes) : Nat := b.foldr (fun c n => c.toNat + 256 * n) 0

def leBytes : Nat → Nat → Bytes
  | 0, _ => []
  | k + 1, n => UInt8.ofNat (n % 256) :: leBytes k (n / 256)

@[simp] theorem length_leBytes (k n : Nat) : (leBytes k n).length = k := by
  induction k generalizing n with
  | zero => rfl
  | succ k ih => simp [leBytes, ih]

theorem leNat_leBytes {k n : Nat} (h : n < 256 ^ k) : leNat (leBytes k n) = n := by
  induction k generalizing n with
  | zero => simp [leBytes, leNat]; omega
  | succ k ih =>
    have hd : n / 256 < 256 ^ k := by rw [Nat.pow_succ] at h; omega
    have hc : leNat (leBytes (k + 1) n) = (UInt8.ofNat (n % 256)).toNat + 256 * leNat (leBytes k (n / 256)) := rfl
    rw [hc, ih hd, UInt8.toNat_ofNat']
    omega

theorem leNat_lt (b : Bytes) : leNat b < 256 ^ b.length := by
  induction b with
  | nil => simp [leNat]
  | cons c b ih =>
    have hc : c.toNat < 256 := c.toNat_lt
    have he : leNat (c :: b) = c.toNat + 256 * leNat b := rfl
    rw [he, List.length_cons, Nat.pow_succ]
    omega

theorem leNat_append_zero (b : Bytes) : leNat (b ++ [0]) = leNat b := by
  simp [leNat]

/-! ## Printing

The conversions of `printf`: `%u`, `%d` and `%0kx`. -/

def decimal (n : Nat) : Bytes := (Nat.toDigits 10 n).map fun c => UInt8.ofNat c.toNat

def decimalInt : Int → Bytes
  | .ofNat n => decimal n
  | .negSucc n => 45 :: decimal (n + 1)

theorem decimal_of_lt {n : Nat} (h : n < 10) : decimal n = [UInt8.ofNat (48 + n)] := by
  unfold decimal
  rw [Nat.toDigits_of_lt_base h]
  revert n
  decide

theorem decimal_of_le {n : Nat} (h : 10 ≤ n) : decimal n = decimal (n / 10) ++ decimal (n % 10) := by
  have hmod : n % 10 < 10 := Nat.mod_lt n (by decide)
  unfold decimal
  rw [Nat.toDigits_of_base_le (by decide) h, List.map_append, Nat.toDigits_of_lt_base hmod]

theorem digitsVal_snoc (ds : Bytes) (c : UInt8) : digitsVal (ds ++ [c]) = 10 * digitsVal ds + (c.toNat - 48) := by
  simp [digitsVal]

theorem decimal_digits (n : Nat) : ∀ c ∈ decimal n, isdigit c := by
  induction n using Nat.strongRecOn with
  | ind n ih =>
    rcases Nat.lt_or_ge n 10 with h | h
    · clear ih
      rw [decimal_of_lt h]
      revert n
      decide +kernel
    · rw [decimal_of_le h]
      intro c hc
      rcases List.mem_append.mp hc with hc | hc
      · exact ih _ (by omega) c hc
      · exact ih _ (by omega) c hc

theorem digitsVal_decimal (n : Nat) : digitsVal (decimal n) = n := by
  have hdigit : ∀ d < 10, (UInt8.ofNat (48 + d)).toNat - 48 = d := by decide
  induction n using Nat.strongRecOn with
  | ind n ih =>
    rcases Nat.lt_or_ge n 10 with h | h
    · rw [decimal_of_lt h]
      exact ((digitsVal_snoc [] _).trans (Nat.zero_add _)).trans (hdigit n h)
    · have hmod : n % 10 < 10 := Nat.mod_lt n (by decide)
      rw [decimal_of_le h, decimal_of_lt hmod, digitsVal_snoc, ih _ (by omega), hdigit _ hmod]
      omega

theorem decimal_ne_nil (n : Nat) : decimal n ≠ [] := by
  rcases Nat.lt_or_ge n 10 with h | h
  · rw [decimal_of_lt h]; simp
  · rw [decimal_of_le h, decimal_of_lt (Nat.mod_lt n (by decide))]; simp

theorem length_decimal_le {n k : Nat} (hk : 0 < k) (h : n < 10 ^ k) : (decimal n).length ≤ k := by
  unfold decimal
  rw [List.length_map]
  exact (Nat.length_toDigits_le_iff (by decide) hk).mpr h

theorem scanNum_decimal (n : Nat) {t : Bytes} (ht : ∀ c ∈ t.head?, isdigit c = false) :
    scanNum (decimal n ++ t) = some (false, n, t) := by
  obtain ⟨d, ds, hd⟩ := List.exists_cons_of_ne_nil (decimal_ne_nil n)
  have hdigit : isdigit d := decimal_digits n d (by rw [hd]; exact List.mem_cons_self ..)
  have hskip : skipSpace (decimal n ++ t) = decimal n ++ t := by
    rw [hd]
    simp [skipSpace, isspace_of_isdigit hdigit]
  have hsign : scanSign (decimal n ++ t) = (false, decimal n ++ t) := by
    rw [hd]
    exact scanSign_digit _ hdigit
  have hsplit := takeWhile_split (decimal_digits n) ht
  rw [scanNum_eq, hskip, hsign]
  dsimp only
  rw [hsplit.1, hsplit.2]
  split
  · rename_i h; exact absurd h (decimal_ne_nil n)
  · rw [digitsVal_decimal]

theorem decimalInt_chars (x : Int) : ∀ c ∈ decimalInt x, isdigit c ∨ c = 45 := by
  intro c hc
  cases x with
  | ofNat n => exact .inl (decimal_digits n c hc)
  | negSucc n =>
    rcases List.mem_cons.mp hc with rfl | hc
    · exact .inr rfl
    · exact .inl (decimal_digits _ c hc)

theorem not_mem_decimal {c : UInt8} (hd : isdigit c = false) (n : Nat) : c ∉ decimal n := fun hc => by
  rw [decimal_digits n c hc] at hd
  cases hd

theorem not_mem_decimalInt {c : UInt8} (hd : isdigit c = false) (hm : c ≠ 45) (x : Int) :
    c ∉ decimalInt x := fun hc => by
  rcases decimalInt_chars x c hc with h | h
  · rw [hd] at h; cases h
  · exact hm h

theorem length_decimalInt_le {x : Int} {k : Nat} (hk : 0 < k) (h : x.natAbs < 10 ^ k) :
    (decimalInt x).length ≤ k + 1 := by
  cases x with
  | ofNat n => exact (length_decimal_le hk h).trans (Nat.le_succ k)
  | negSucc n => exact Nat.succ_le_succ (length_decimal_le hk h)

def hexDigit (d : Nat) : UInt8 := UInt8.ofNat (if d < 10 then 48 + d else 87 + d)

def hexDigits : Nat → Nat → Bytes
  | 0, _ => []
  | k + 1, n => hexDigits k (n / 16) ++ [hexDigit (n % 16)]

@[simp] theorem length_hexDigits : ∀ k n : Nat, (hexDigits k n).length = k
  | 0, _ => rfl
  | k + 1, n => by simp [hexDigits, length_hexDigits k]

theorem hexDigit_inj : ∀ a < 16, ∀ b < 16, hexDigit a = hexDigit b → a = b := by decide

theorem hexDigits_inj : ∀ {k a b : Nat}, a < 16 ^ k → b < 16 ^ k → hexDigits k a = hexDigits k b → a = b
  | 0, a, b, ha, hb, _ => by omega
  | k + 1, a, b, ha, hb, h => by
    obtain ⟨hdiv, hmod⟩ := List.append_inj' h rfl
    have hlow := hexDigit_inj (a % 16) (Nat.mod_lt _ (by decide)) (b % 16) (Nat.mod_lt _ (by decide))
      (List.cons.inj hmod).1
    have hhigh := hexDigits_inj (by rw [Nat.pow_succ] at ha; omega) (by rw [Nat.pow_succ] at hb; omega) hdiv
    omega

end CStr
