import BbsServer.Lib.CStr

/-!
# What a conversion accepts

The conversions of `scanf` as grammars: white space, a word or a decimal integer, and what is left behind it
(`scanWord_iff`, `scanNum_iff`).
-/

namespace CStr

def Blanks (b : Bytes) : Prop := ∀ c ∈ b, isspace c

instance (b : Bytes) : Decidable (Blanks b) := inferInstanceAs (Decidable (∀ c ∈ b, isspace c))

/-- White space, a word that white space or the end follows, and the rest. -/
def ReadsWord (s word rest : Bytes) : Prop :=
  ∃ b, s = b ++ (word ++ rest) ∧ Blanks b ∧ word ≠ [] ∧ (∀ c ∈ word, isspace c = false) ∧ ∀ c ∈ rest.head?, isspace c

inductive Words : Bytes → List Bytes → Prop
  | nil {s : Bytes} : Blanks s → Words s []
  | cons {s t r : Bytes} {ts : List Bytes} : ReadsWord s t r → Words r ts → Words s (t :: ts)

inductive IntText : Bytes → Bool → Nat → Prop
  | plain {ds : Bytes} : ds ≠ [] → (∀ c ∈ ds, isdigit c) → IntText ds false (digitsVal ds)
  | plus {ds : Bytes} : ds ≠ [] → (∀ c ∈ ds, isdigit c) → IntText (43 :: ds) false (digitsVal ds)
  | minus {ds : Bytes} : ds ≠ [] → (∀ c ∈ ds, isdigit c) → IntText (45 :: ds) true (digitsVal ds)

/-- At least `k` bytes of white space, a decimal integer, and what follows its last digit. -/
def ReadsNum (k : Nat) (s : Bytes) (neg : Bool) (n : Nat) (rest : Bytes) : Prop :=
  ∃ b t, s = b ++ (t ++ rest) ∧ Blanks b ∧ k ≤ b.length ∧ IntText t neg n ∧ ∀ c ∈ rest.head?, isdigit c = false

def signed (neg : Bool) (n : Nat) : Int := if neg then -n else n

def ReadsInt (k : Nat) (s : Bytes) (x : Int) (rest : Bytes) : Prop :=
  ∃ neg n, ReadsNum k s neg n rest ∧ x = signed neg n

def clampLong (x : Int) : Int := max (-(2 ^ 63)) (min (2 ^ 63 - 1) x)

section
variable {s b t word rest : Bytes} {neg : Bool} {k n : Nat} {c : UInt8} {x y : Int}

theorem isdigit_of_isspace (h : isspace c) : isdigit c = false :=
  Bool.eq_false_iff.mpr fun hd => by rw [isspace_of_isdigit hd] at h; cases h

theorem head_dropWhile (p : UInt8 → Bool) (s : Bytes) : ∀ c ∈ (s.dropWhile p).head?, p c = false := by
  intro c hc
  have := List.head?_dropWhile_not p s
  rw [Option.mem_def.mp hc] at this
  simpa using this

theorem Blanks.skip (hb : Blanks b) (ht : ∀ c ∈ t.head?, isspace c = false) : skipSpace (b ++ t) = t :=
  (takeWhile_split hb ht).2

theorem blanks_takeWhile (s : Bytes) : Blanks (s.takeWhile isspace) := fun _ h => List.mem_takeWhile_imp h

theorem scanWord_iff : scanWord s = some (word, rest) ↔ ReadsWord s word rest := by
  constructor
  · intro h
    unfold scanWord at h
    split at h
    · cases h
    · rename_i c t hskip
      obtain ⟨rfl, rfl⟩ := Prod.mk.inj (Option.some.inj h)
      have hc : isspace c = false := head_dropWhile isspace s c
        (by rw [show s.dropWhile isspace = c :: t from hskip]; rfl)
      refine ⟨s.takeWhile isspace, ?_, blanks_takeWhile s, ?_, fun x hx => ?_, fun x hx => ?_⟩
      · rw [List.takeWhile_append_dropWhile, ← hskip]
        exact (List.takeWhile_append_dropWhile).symm
      · simp [hc]
      · simpa using List.mem_takeWhile_imp hx
      · simpa using head_dropWhile _ _ x hx
  · rintro ⟨b, rfl, hb, hne, hw, hr⟩
    have hskip : skipSpace (b ++ (word ++ rest)) = skipSpace (word ++ rest) := List.dropWhile_append_of_pos hb
    unfold scanWord
    rw [hskip]
    exact scanWord_word hne hw hr

theorem IntText.head (h : IntText t neg n) : ∀ c ∈ (t ++ rest).head?, isspace c = false := by
  cases h with
  | plain hne hd =>
    obtain ⟨c, u, rfl⟩ := List.exists_cons_of_ne_nil hne
    simpa using isspace_of_isdigit (hd c (List.mem_cons_self ..))
  | plus | minus => simp; decide

theorem IntText.scanSign (rest : Bytes) (h : IntText t neg n) :
    ∃ ds, CStr.scanSign (t ++ rest) = (neg, ds ++ rest) ∧ ds ≠ [] ∧ (∀ c ∈ ds, isdigit c) ∧ n = digitsVal ds := by
  cases h with
  | plus hne hd | minus hne hd => exact ⟨_, rfl, hne, hd, rfl⟩
  | plain hne hd =>
    obtain ⟨c, u, rfl⟩ := List.exists_cons_of_ne_nil hne
    exact ⟨c :: u, scanSign_digit (u ++ rest) (hd c (List.mem_cons_self ..)), hne, hd, rfl⟩

theorem scanSign_text (s : Bytes) {ds : Bytes} (hne : ds ≠ []) (hd : ∀ c ∈ ds, isdigit c)
    (hs : (scanSign s).2 = ds ++ rest) : ∃ t, s = t ++ rest ∧ IntText t (scanSign s).1 (digitsVal ds) := by
  unfold scanSign at hs ⊢
  split at hs
  · exact ⟨45 :: ds, by rw [List.cons_append, ← hs], .minus hne hd⟩
  · exact ⟨43 :: ds, by rw [List.cons_append, ← hs], .plus hne hd⟩
  · exact ⟨ds, hs, .plain hne hd⟩

theorem scanNum_iff : scanNum s = some (neg, n, rest) ↔ ReadsNum 0 s neg n rest := by
  rw [scanNum_eq]
  constructor
  · intro h
    split at h
    · cases h
    · rename_i hne
      obtain ⟨rfl, hn, rfl⟩ := by simpa only [Option.some.injEq, Prod.mk.injEq] using h
      obtain ⟨t, ht, htext⟩ := scanSign_text (skipSpace s) hne (fun _ hc => List.mem_takeWhile_imp hc)
        (List.takeWhile_append_dropWhile).symm
      refine ⟨s.takeWhile isspace, t, ?_, blanks_takeWhile s, Nat.zero_le _, hn ▸ htext, head_dropWhile _ _⟩
      rw [← ht]
      exact (List.takeWhile_append_dropWhile).symm
  · rintro ⟨b, t, rfl, hb, -, ht, hr⟩
    obtain ⟨ds, hsign, hne, hd, rfl⟩ := ht.scanSign rest
    rw [hb.skip ht.head, hsign]
    dsimp only
    rw [(takeWhile_split hd hr).1, (takeWhile_split hd hr).2]
    split
    · exact absurd rfl hne
    · rfl

/-- Whatever the text begins with, its white space is what the integer stands behind. -/
theorem readsNum_iff : ReadsNum k s neg n rest ↔ scanNum s = some (neg, n, rest) ∧
    k ≤ (s.takeWhile isspace).length := by
  rw [scanNum_iff]
  constructor
  · rintro ⟨b, t, rfl, hb, hk, ht, hr⟩
    exact ⟨⟨b, t, rfl, hb, Nat.zero_le _, ht, hr⟩, by rwa [(takeWhile_split hb ht.head).1]⟩
  · rintro ⟨⟨b, t, rfl, hb, -, ht, hr⟩, hk⟩
    rw [(takeWhile_split hb ht.head).1] at hk
    exact ⟨b, _, rfl, hb, hk, ht, hr⟩

theorem toLong_eq (neg : Bool) (n : Nat) : toLong neg n = clampLong (signed neg n) := by
  unfold toLong clampLong signed
  cases neg
  · simp only [Bool.false_eq_true, if_false]
    omega
  · simp only [if_true]
    omega

theorem clampLong_of_le (h : -2 ^ 63 ≤ x) (h' : x < 2 ^ 63) : clampLong x = x := by
  unfold clampLong; omega

theorem ReadsInt.scan (h : ReadsInt k s x rest) : scanLong s = some (clampLong x, rest) ∧
    scanInt s = some (wrap 32 (clampLong x), rest) := by
  obtain ⟨neg, n, h, rfl⟩ := h
  have hs := (readsNum_iff.mp h).1
  simp only [scanLong, scanInt, hs, Option.map_some, toLong_eq, and_self]

theorem scanLong_reads (h : scanLong s = some (y, rest)) : ∃ x, ReadsInt 0 s x rest ∧ y = clampLong x := by
  obtain ⟨⟨neg, n, t⟩, hs, h⟩ := Option.map_eq_some_iff.mp h
  obtain ⟨rfl, rfl⟩ := Prod.mk.inj h
  exact ⟨_, ⟨neg, n, scanNum_iff.mp hs, rfl⟩, toLong_eq ..⟩

/-- A text begins with one integer at most. -/
theorem ReadsInt.unique {j : Nat} {rest' : Bytes} (h : ReadsInt k s x rest) (h' : ReadsInt j s y rest') :
    x = y ∧ rest = rest' := by
  obtain ⟨neg, n, h, rfl⟩ := h
  obtain ⟨neg', n', h', rfl⟩ := h'
  have := (readsNum_iff.mp h).1.symm.trans (readsNum_iff.mp h').1
  simp only [Option.some.injEq, Prod.mk.injEq] at this
  obtain ⟨rfl, rfl, rfl⟩ := this
  exact ⟨rfl, rfl⟩

theorem scanNum_digit (t : Bytes) (hc : isdigit c) : ∃ n rest, scanNum (c :: t) = some (false, n, rest) := by
  have hhead : ((c :: t).takeWhile isdigit) ≠ [] := by simp [hc]
  refine ⟨_, _, scanNum_iff.mpr ⟨[], (c :: t).takeWhile isdigit, ?_, nofun, Nat.zero_le _,
    .plain hhead fun _ h => List.mem_takeWhile_imp h, head_dropWhile _ (c :: t)⟩⟩
  rw [List.nil_append, List.takeWhile_append_dropWhile]

theorem scanNum_minus {t : Bytes} {neg : Bool} {n : Nat} {rest : Bytes}
    (h : scanNum (45 :: t) = some (neg, n, rest)) : neg = true := by
  rw [scanNum_eq] at h
  split at h
  · cases h
  · exact (Prod.mk.inj (Option.some.inj h)).1.symm

theorem decimalInt_text (x : Int) : ∃ neg n, IntText (decimalInt x) neg n ∧ x = signed neg n := by
  cases x with
  | ofNat n =>
    exact ⟨false, _, .plain (decimal_ne_nil n) (decimal_digits n), congrArg (signed false) (digitsVal_decimal n).symm⟩
  | negSucc n =>
    exact ⟨true, _, .minus (decimal_ne_nil _) (decimal_digits _),
      congrArg (signed true) (digitsVal_decimal (n + 1)).symm⟩

theorem decimalInt_reads (x : Int) : ReadsInt 0 (decimalInt x) x [] := by
  obtain ⟨neg, n, ht, hx⟩ := decimalInt_text x
  exact ⟨neg, n, ⟨[], decimalInt x, by simp, nofun, Nat.zero_le _, ht, by simp⟩, hx⟩

/-! ## Words that are numbers -/

theorem Words.scan {ts : List Bytes} (h : Words s (t :: ts)) : ∃ r, scanWord s = some (t, r) ∧ Words r ts := by
  cases h with
  | cons h hr => exact ⟨_, scanWord_iff.mpr h, hr⟩

theorem Words.mem {ts : List Bytes} (h : Words s ts) : ∀ t ∈ ts, ∀ c ∈ t, c ∈ s := by
  induction h with
  | nil => exact nofun
  | cons h _ ih =>
    obtain ⟨b, rfl, -⟩ := h
    intro t ht c hc
    rcases List.mem_cons.mp ht with rfl | ht
    · simp [hc]
    · simp [ih t ht c hc]

theorem ReadsWord.length_lt (h : ReadsWord s t rest) : rest.length < s.length := by
  obtain ⟨b, rfl, -, hne, -⟩ := h
  have := List.length_pos_of_ne_nil hne
  rw [List.length_append, List.length_append]
  omega

theorem exists_words (s : Bytes) : ∃ ts, Words s ts := by
  induction hn : s.length using Nat.strongRecOn generalizing s with
  | ind n ih =>
    subst hn
    cases h : scanWord s with
    | none =>
      have hskip : s.dropWhile isspace = [] := by
        unfold scanWord CStr.skipSpace at h
        split at h
        · assumption
        · cases h
      exact ⟨[], .nil (List.dropWhile_eq_nil_iff.mp hskip)⟩
    | some r =>
      have hr := scanWord_iff.mp (show scanWord s = some (r.1, r.2) from h)
      obtain ⟨ts, hts⟩ := ih _ hr.length_lt r.2 rfl
      exact ⟨r.1 :: ts, .cons hr hts⟩

theorem Blanks.skipSpace (h : Blanks s) : CStr.skipSpace s = [] := List.dropWhile_eq_nil_iff.mpr h

theorem Words.scan_end (h : Words s []) : scanWord s = none := by
  cases h with
  | nil h => rw [scanWord, h.skipSpace]

theorem Words.unique {ts us : List Bytes} (h : Words s ts) (h' : Words s us) : ts = us := by
  induction h generalizing us with
  | nil hb =>
    cases us with
    | nil => rfl
    | cons t us =>
      obtain ⟨r, hr, -⟩ := h'.scan
      rw [(Words.nil hb).scan_end] at hr
      cases hr
  | @cons s t r ts hr hts ih =>
    cases us with
    | nil => cases (scanWord_iff.mpr hr).symm.trans h'.scan_end
    | cons u us =>
      obtain ⟨q, hq, hus⟩ := h'.scan
      cases (scanWord_iff.mpr hr).symm.trans hq
      rw [ih hus]

theorem Words.end (h : Words s []) : scanUInt s = none := by
  cases h with
  | nil h => rw [scanUInt, scanNum_eq, h.skipSpace]; rfl

theorem ReadsWord.scanUInt (h : ReadsWord s t rest) (hd : ∀ c ∈ t, isdigit c) (hlt : digitsVal t < 2 ^ 32) :
    CStr.scanUInt s = some (digitsVal t, rest) := by
  obtain ⟨b, rfl, hb, hne, -, hr⟩ := h
  have hnum : ReadsNum 0 (b ++ (t ++ rest)) false (digitsVal t) rest :=
    ⟨b, t, rfl, hb, Nat.zero_le _, .plain hne hd, fun c hc => isdigit_of_isspace (hr c hc)⟩
  have hval : toULong false (digitsVal t) % 2 ^ 32 = digitsVal t := by
    rw [toULong, if_neg (by omega), if_neg (by decide), Nat.mod_eq_of_lt hlt]
  rw [CStr.scanUInt, scanNum_iff.mpr hnum, Option.map_some]
  exact congrArg (fun n => some (n, rest)) hval

end

end CStr
